/-
ApiStubs.Proofs.FaultTheorems — which nodes are reported, and what is left
of them in the output.

A problem with a node never stops rendering: it is reported and the output
is degraded in its place. `Visit.Faulty` says which visited nodes are at
fault, without the renderer: by the resolver, the names of tags and the
comments that are open at the moment (`Owner.Opens`). What such a node
leaves in the output is `Visit.degraded`: its report, and for a reference
the signature as it was written.

`Rendered.Follows` says that the output goes through the visited nodes in
order, with what is left of the faulty ones between stretches that report
nothing. It is a law of rendering, so it holds of every declaration
(`follows_law`), and the exact list of problems and the place of each in
the output can be read off it (`faults_exact_in_place`).
-/
import ApiStubs.Proofs.BracketText
import ApiStubs.Proofs.RenderInduction

namespace ApiStubs

open Fragment

/-! ## Nodes at fault -/

/-- While the documentation of `start` is rendered, the comment of a
declaration is open inside the comments of the methods that inherit it,
the innermost first. -/
inductive Owner.Opens (p : Program) (start : Owner) : Owner → List MethodId → Prop
  | self : start.Opens p start []
  | inherit {m ancestor : Method} {inheriting : List MethodId} {doc : DocComment} :
    start.Opens p (.method m) inheriting → p.inheritedDoc m = some (ancestor, doc) →
      ancestor.id ∉ m.id :: inheriting → start.Opens p (.method ancestor) (m.id :: inheriting)

namespace Visit

/-- Is the node at fault? A reference or a link, if it has no target or
one without a name; a tag outside the namespace of the dialect; a node of
an unknown kind; and an inherit marker on a type, or on a method that
inherits nothing but a comment that is open already. -/
def Faulty (p : Program) (resolve : Target → Option String) (inheriting : List MethodId)
    (v : Visit) : Prop :=
  match v.node with
  | .reference r => ∀ target ∈ r.target, resolve target = none
  | .link r _ => ∀ target ∈ r.target, resolve target = none
  | .blockTag name _ => ¬ vendorNamespace.toList <+: name.toList
  | .unsupported => True
  | .inheritDoc =>
    match v.owner with
    | .type _ => True
    | .method m =>
      ∀ ancestor doc, p.inheritedDoc m = some (ancestor, doc) → ancestor.id ∈ m.id :: inheriting
  | _ => False

/-- The text that a node at fault leaves, apart from the label of a
link. -/
def remains (v : Visit) : String :=
  match v.node with
  | .reference r => r.signature
  | .link r _ => "[`" ++ r.signature ++ "`]"
  | _ => ""

/-- What a node at fault leaves in the output. -/
def degraded (v : Visit) (message : String) : Rendered :=
  { text := v.remains, problems := [v.problem message] }

/-- The label in brackets that a link has before its target. -/
def label (v : Visit) : Fragment :=
  match v.node with
  | .link _ (first :: rest) =>
    write "[" ++ renderAll v.setting v.place (first :: rest) ++ write "]"
  | _ => empty

/-- The problems of the nodes at fault, in order. -/
def problems (vs : List Visit) : List Diagnostic :=
  vs.filterMap fun v => v.fault?.map v.problem

theorem problems_cons (v : Visit) (vs : List Visit) :
    problems (v :: vs) = (v.fault?.map v.problem).toList ++ problems vs := by
  rw [problems, List.filterMap_cons]
  cases v.fault? <;> rfl

/-! ### What is left of them -/

theorem reference_of_fault {s : Setting} {r : Reference} {kind message : String}
    (h : s.referenceFault? r = some message) (fresh : Bool) :
    s.reference kind r fresh
      = { text := r.signature,
          problems := [⟨.error, s.subject, message, some kind⟩] } := by
  obtain ⟨hnone, -⟩ | ⟨reported, hsome, hreport⟩ := s.reference_cases kind r
  · cases hnone.symm.trans h
  · cases hsome.symm.trans h
    rw [hreport]
    show Rendered.append { problems := [_] } { text := r.signature } = _
    rw [Rendered.append_text, String.empty_append]

theorem problems_reference {s : Setting} {r : Reference} (kind : String)
    (h : s.referenceFault? r = none) (fresh : Bool) : (s.reference kind r fresh).problems = [] := by
  obtain ⟨-, name, hname⟩ | ⟨message, hsome, -⟩ := s.reference_cases kind r
  · rw [hname]
    rfl
  · cases hsome.symm.trans h

theorem between_apply {f : Fragment} {r : Rendered} (hf : ∀ fresh, f fresh = r)
    (before after : String) (fresh : Bool) :
    (write before ++ f ++ write after) fresh = { r with text := before ++ r.text ++ after } := by
  show Rendered.append (Rendered.append { text := before } (f _)) { text := after } = _
  rw [hf, Rendered.append_text]
  simp [Rendered.append, Captures.merge]

theorem piece_of_fault {v : Visit} {message : String} (h : v.fault? = some message)
    (fresh : Bool) : v.piece fresh = v.degraded message := by
  obtain ⟨owner, s, place, node⟩ := v
  cases node with
  | reference r => exact reference_of_fault h fresh
  | link r label => exact between_apply (reference_of_fault h) "[`" "`]" fresh
  | _ =>
    simp only [piece, h]
    rfl

theorem problems_piece {v : Visit} (h : v.fault? = none) (fresh : Bool) :
    (v.piece fresh).problems = [] := by
  obtain ⟨owner, s, place, node⟩ := v
  cases node with
  | reference r => exact problems_reference "reference" h fresh
  | link r label =>
    show [] ++ (s.reference "link" r _).problems ++ [] = []
    rw [problems_reference "link" h]
    rfl
  | _ =>
    simp only [piece, h]
    rfl

/-- A node at fault renders to what is left of it, after its label. -/
theorem render_of_fault {v : Visit} {message : String} (h : v.fault? = some message)
    (fresh : Bool) :
    v.node.render v.setting v.place fresh = (v.label fresh).append (v.degraded message) := by
  have hrender : v.node.render v.setting v.place = v.label ++ v.piece := by
    obtain ⟨owner, s, place, node⟩ := v
    cases node with
    | reference r => simp only [DocNode.render, label, piece, Fragment.empty_append]
    | link r nodes =>
      cases nodes with
      | nil => simp only [DocNode.render, label, piece, Fragment.empty_append]
      | cons first rest =>
        simp only [DocNode.render, label, piece, renderAll, Fragment.append_assoc]
    | inheritDoc =>
      cases hinherited : s.inherited with
      | some comment => simp [fault?, hinherited] at h
      | none =>
        simp [DocNode.render, label, piece, fault?, hinherited, Fragment.empty_append,
          DocNode.kindName]
    | blockTag name content =>
      cases htag : Text.after vendorNamespace name with
      | some tag => simp [fault?, htag] at h
      | none =>
        simp [DocNode.render, Setting.blockTag, label, piece, fault?, htag, Fragment.empty_append,
          DocNode.kindName]
    | unsupported =>
      simp only [DocNode.render, label, piece, fault?, Fragment.empty_append]
      rfl
    | _ => cases h
  rw [hrender]
  exact congrArg (Rendered.append _) (piece_of_fault h _)

end Visit

/-! ## Output along the visits -/

/-- The output goes through the nodes in order: it has what is left of the
faulty ones, and reports nothing in between. -/
inductive Rendered.Follows : Rendered → List Visit → Prop
  | quiet {r : Rendered} (hr : r.problems = []) : r.Follows []
  | sound {r : Rendered} {v : Visit} {vs : List Visit} (hv : v.fault? = none)
    (h : r.Follows vs) : r.Follows (v :: vs)
  | fault {before after : Rendered} {v : Visit} {vs : List Visit} {message : String}
    (hv : v.fault? = some message) (hbefore : before.problems = []) (h : after.Follows vs) :
    ((before.append (v.degraded message)).append after).Follows (v :: vs)

namespace Rendered.Follows

variable {r r' : Rendered} {v : Visit} {vs ws earlier later : List Visit} {message : String}

theorem quiet_append (h : r'.Follows ws) (hr : r.problems = []) : (r.append r').Follows ws := by
  induction h with
  | quiet hr' =>
    refine .quiet ?_
    show r.problems ++ _ = []
    rw [hr, hr']
    rfl
  | sound hv _ ih => exact .sound hv ih
  | fault hv hbefore h _ =>
    rw [← append_assoc, ← append_assoc]
    refine .fault hv ?_ h
    show r.problems ++ _ = []
    rw [hr, hbefore]
    rfl

theorem append (h : r.Follows vs) (h' : r'.Follows ws) : (r.append r').Follows (vs ++ ws) := by
  induction h with
  | quiet hr => exact h'.quiet_append hr
  | sound hv _ ih => exact .sound hv ih
  | fault hv hbefore _ ih =>
    rw [append_assoc]
    exact .fault hv hbefore ih

theorem problems_eq (h : r.Follows vs) : r.problems = Visit.problems vs := by
  induction h with
  | quiet hr => exact hr
  | sound hv _ ih =>
    rw [ih, Visit.problems_cons, hv]
    rfl
  | @fault before after v vs message hv hbefore _ ih =>
    show before.problems ++ [v.problem message] ++ after.problems = _
    rw [hbefore, ih, Visit.problems_cons, hv]
    rfl

/-- What is left of a faulty node stands where the problems before it have
been reported and those after it have not. -/
theorem split (h : r.Follows vs) (hvs : vs = earlier ++ v :: later)
    (hv : v.fault? = some message) :
    ∃ before after : Rendered, r = (before.append (v.degraded message)).append after ∧
      before.problems = Visit.problems earlier ∧ after.problems = Visit.problems later := by
  -- The node is the first one of the list, or one of the rest.
  induction h generalizing earlier with
  | quiet => simp at hvs
  | @sound r first vs hfirst _ ih =>
    cases earlier with
    | nil =>
      obtain ⟨rfl, -⟩ := List.cons.inj hvs
      rw [hfirst] at hv
      cases hv
    | cons _ earlier =>
      obtain ⟨rfl, hrest⟩ := List.cons.inj hvs
      obtain ⟨before, after, rfl, hbefore, hafter⟩ := ih hrest
      refine ⟨before, after, rfl, ?_, hafter⟩
      rw [hbefore, Visit.problems_cons, hfirst]
      rfl
  | @fault front rest first vs text hfirst hfront hrest ih =>
    cases earlier with
    | nil =>
      obtain ⟨rfl, rfl⟩ := List.cons.inj hvs
      cases hfirst.symm.trans hv
      exact ⟨front, rest, rfl, hfront, hrest.problems_eq⟩
    | cons _ earlier =>
      obtain ⟨rfl, hmore⟩ := List.cons.inj hvs
      obtain ⟨before, after, rfl, hbefore, hafter⟩ := ih hmore
      refine ⟨(front.append (first.degraded text)).append before, after, ?_, ?_, hafter⟩
      · simp only [append_assoc]
      · show front.problems ++ [first.problem text] ++ before.problems = _
        rw [hfront, hbefore, Visit.problems_cons, hfirst]
        rfl

end Rendered.Follows

/-- Output goes through the visited nodes in order. -/
theorem follows_law : RenderLaw fun _ f vs => ∀ fresh, (f fresh).Follows vs where
  empty _ _ := .quiet rfl
  write _ _ _ := .quiet rfl
  append hf hg fresh := (hf fresh).append (hg _)
  margin _ _ := .quiet rfl
  fence h := h
  item h fresh := (h _).quiet_append rfl
  piece v fresh := by
    cases hv : v.fault? with
    | none => exact .sound hv (.quiet (Visit.problems_piece hv fresh))
    | some message =>
      rw [Visit.piece_of_fault hv]
      have hall : (Rendered.append (Rendered.append {} (v.degraded message)) {}).Follows [v] :=
        .fault hv rfl (.quiet rfl)
      rwa [Rendered.empty_append, Rendered.append_empty] at hall

/-! ## Open comments -/

theorem Text.isSome_after {start s : String} :
    (Text.after start s).isSome ↔ start.toList <+: s.toList := by
  rw [Text.after, Option.isSome_map]
  constructor
  · intro h
    obtain ⟨rest, hrest⟩ := Option.isSome_iff_exists.mp h
    exact ⟨rest, (Text.afterChars_eq_some hrest).symm⟩
  · rintro ⟨rest, hrest⟩
    rw [← hrest]
    clear hrest
    induction start.toList with
    | nil => rfl
    | cons c cs ih => simpa [Text.afterChars] using ih

section Opens

variable {p : Program} {resolve : Target → Option String} {start : Owner} {v : Visit}

theorem Owner.Opens.of_mem_inheritedVisits {m : Method} {inheriting : List MethodId}
    {place : Place} (hopen : start.Opens p (.method m) inheriting)
    (hv : v ∈ ApiStubs.inheritedVisits p resolve m (m.id :: inheriting) place) :
    ∃ inheriting', start.Opens p v.owner inheriting' ∧
      v.setting = RenderMachine.settingIn p resolve v.owner inheriting' := by
  cases hinherited : (methodSetting p resolve m (m.id :: inheriting)).inherited with
  | none =>
    rw [inheritedVisits_of_none hinherited] at hv
    cases hv
  | some comment =>
    obtain ⟨ancestor, doc, hfound, hknown, -, hvisits⟩ :=
      inherited_methodSetting_cases hinherited
    have hfewer : p.unchained (ancestor.id :: m.id :: inheriting)
        < p.unchained (m.id :: inheriting) :=
      Program.unchained_cons_lt (Program.mem_methods_of_inheritedDoc hfound) hknown
    have hinner := hopen.inherit hfound hknown
    rw [hvisits] at hv
    rcases visitsAll_cases (Q := fun _ => True) (fun _ _ _ _ _ => trivial) doc.nodes
      (fun _ _ => trivial) hv with ⟨howner, hsetting, -⟩ | ⟨inner, hv⟩
    · refine ⟨m.id :: inheriting, howner ▸ hinner, ?_⟩
      rw [howner, hsetting]
      rfl
    · exact hinner.of_mem_inheritedVisits hv
termination_by p.unchained (m.id :: inheriting)

/-- Each visited node stands in a comment that is open. -/
theorem Owner.opens_of_mem_visits {nodes : List DocNode} (hv : v ∈ start.visits p resolve nodes) :
    ∃ inheriting, start.Opens p v.owner inheriting ∧
      v.setting = RenderMachine.settingIn p resolve v.owner inheriting := by
  rcases visitsAll_cases (Q := fun _ => True) (fun _ _ _ _ _ => trivial) nodes
    (fun _ _ => trivial) hv with ⟨howner, hsetting, -⟩ | ⟨inner, hv⟩
  · refine ⟨[], howner ▸ .self, ?_⟩
    rw [howner, hsetting, RenderMachine.settingIn_nil]
  · cases start with
    | type decl => cases hv
    | method m => exact Owner.Opens.self.of_mem_inheritedVisits hv

theorem Setting.isSome_referenceFault? {s : Setting} (hs : s.resolve = resolve) (r : Reference) :
    (s.referenceFault? r).isSome ↔ ∀ target ∈ r.target, resolve target = none := by
  subst hs
  unfold referenceFault?
  cases r.target with
  | none => simp
  | some target => cases hname : s.resolve target <;> simp [hname]

theorem RenderMachine.inherited_settingIn (p : Program) (resolve : Target → Option String)
    (owner : Owner) (inheriting : List MethodId) :
    (settingIn p resolve owner inheriting).inherited = none ↔
      match owner with
      | .type _ => True
      | .method m =>
        ∀ ancestor doc, p.inheritedDoc m = some (ancestor, doc) →
          ancestor.id ∈ m.id :: inheriting := by
  cases owner with
  | type decl => exact iff_of_true rfl trivial
  | method m =>
    simp only [settingIn, inherited_methodSetting]
    cases p.inheritedDoc m with
    | none => simp
    | some found =>
      obtain ⟨ancestor, doc⟩ := found
      by_cases hknown : ancestor.id ∈ m.id :: inheriting <;> simp [hknown, -List.mem_cons]

/-- A node is reported exactly if it is at fault. -/
theorem Visit.isSome_fault? {inheriting : List MethodId}
    (hsetting : v.setting = RenderMachine.settingIn p resolve v.owner inheriting) :
    v.fault?.isSome ↔ v.Faulty p resolve inheriting := by
  obtain ⟨owner, s, place, node⟩ := v
  simp only at hsetting
  have hresolve : s.resolve = resolve := hsetting ▸ RenderMachine.resolve_settingIn
  cases node with
  | reference r => exact Setting.isSome_referenceFault? hresolve r
  | link r label => exact Setting.isSome_referenceFault? hresolve r
  | blockTag name content =>
    simp only [fault?, Faulty, ← Text.isSome_after]
    cases Text.after vendorNamespace name <;> simp
  | inheritDoc =>
    refine Iff.trans ?_ (RenderMachine.inherited_settingIn p resolve owner inheriting)
    rw [← hsetting]
    simp only [fault?]
    cases s.inherited <;> simp
  | _ => simp [fault?, Faulty]

end Opens

/-! ## Rendering -/

/-- **Problems are exact, and output is degraded in place.** What is
reported for some nodes is one error for each visited node at fault, in
the order of the visits. Where a node is at fault depends on the resolver,
on the names of tags and on the comments that are open when it is visited.
Such a node renders to its label, if it is a link that has one, and to
what is left of it. This stands in the output after all that comes of
earlier nodes and before all that comes of later ones. -/
theorem faults_exact_in_place (p : Program) (resolve : Target → Option String) (owner : Owner)
    (nodes : List DocNode) :
    (renderNodes (owner.setting p resolve) nodes).problems
      = Visit.problems (owner.visits p resolve nodes) ∧
    (∀ d ∈ (renderNodes (owner.setting p resolve) nodes).problems, d.level = .error) ∧
    (∀ v ∈ owner.visits p resolve nodes, ∃ inheriting, owner.Opens p v.owner inheriting ∧
      v.setting = RenderMachine.settingIn p resolve v.owner inheriting ∧
      (v.fault?.isSome ↔ v.Faulty p resolve inheriting)) ∧
    ∀ earlier v later message, owner.visits p resolve nodes = earlier ++ v :: later →
      v.fault? = some message →
      (∀ fresh, v.node.render v.setting v.place fresh
        = (v.label fresh).append (v.degraded message)) ∧
      ∃ before after : Rendered, renderNodes (owner.setting p resolve) nodes
          = (before.append (v.degraded message)).append after ∧
        before.problems = Visit.problems earlier ∧ after.problems = Visit.problems later := by
  have hfollows : (renderNodes (owner.setting p resolve) nodes).Follows
      (owner.visits p resolve nodes) := follows_law.renderAll_owner p resolve owner {} nodes true
  refine ⟨hfollows.problems_eq, fun d hd => ?_, fun v hv => ?_,
    fun earlier v later message hvisits hfault => ?_⟩
  · rw [hfollows.problems_eq] at hd
    obtain ⟨v, -, hd⟩ := List.mem_filterMap.mp hd
    obtain ⟨message, -, rfl⟩ := Option.map_eq_some_iff.mp hd
    rfl
  · obtain ⟨inheriting, hopens, hsetting⟩ := Owner.opens_of_mem_visits hv
    exact ⟨inheriting, hopens, hsetting, Visit.isSome_fault? hsetting⟩
  · exact ⟨Visit.render_of_fault hfault, hfollows.split hvisits hfault⟩

end ApiStubs
