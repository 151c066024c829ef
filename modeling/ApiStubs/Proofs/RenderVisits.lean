/-
ApiStubs.Proofs.RenderVisits — the nodes that rendering meets.

Rendering walks over a tree and, at every inherit marker, over the comment
of another method. This module lists the nodes on the way, each after the
nodes inside it, with the declaration whose comment it stands in and the
setting it is rendered in. What is captured instead of written is not on
the way: the descriptions of parameters and results, hidden `throws` tags,
module tags, foreign tags and the inside of elements that close
themselves.

What a visited node adds on its own besides text is a problem
(`Visit.fault?`) or captured tags (`Visit.captures`); `Visit.total` is
what some nodes add together.
-/
import ApiStubs.Proofs.RenderMachineTheorems

namespace ApiStubs

/-! ## Visits -/

/-- A node that is met in rendering. -/
structure Visit where
  /-- The declaration whose comment is being rendered. -/
  owner : Owner
  setting : Setting
  place : Place
  node : DocNode

/-- Where the children of a markup element are rendered, if they are. -/
def childPlace? (place : Place) (name : String) (attributes : List Attribute)
    (selfClosing : Bool) : Option Place :=
  if name = "pre" then some place.fence
  else if name = "p" || name = "ul" then some place
  else if name = "li" then some place.listItem
  else if (emphasis? name attributes).isSome then some place
  else if selfClosing then none
  else some place

/-- Is the content of a block tag rendered? -/
def rendersContent (name : String) : Bool :=
  match Text.after vendorNamespace name with
  | none => false
  | some tag => tag ≠ "module"

mutual

/-- The nodes met inside a node; `inherited` has those of the comment that
an inherit marker stands for. -/
def DocNode.visitsWithin (owner : Owner) (s : Setting) (inherited : Place → List Visit)
    (place : Place) : DocNode → List Visit
  | .link _ label => visitsAll owner s inherited place label
  | .element name attributes children selfClosing =>
    match childPlace? place name attributes selfClosing with
    | some inner => visitsAll owner s inherited inner children
    | none => []
  | .inheritDoc => inherited place
  | .throws description =>
    if leadsWith "(hidden)" description then []
    else visitsAll owner s inherited place description
  | .deprecated body => visitsAll owner s inherited place body
  | .see reference => visitsAll owner s inherited place reference
  | .blockTag name content =>
    if rendersContent name then visitsAll owner s inherited place content else []
  | _ => []

/-- The nodes met in rendering some nodes, each after those inside it. -/
def visitsAll (owner : Owner) (s : Setting) (inherited : Place → List Visit) (place : Place) :
    List DocNode → List Visit
  | [] => []
  | node :: nodes =>
    node.visitsWithin owner s inherited place ++
      ⟨owner, s, place, node⟩ :: visitsAll owner s inherited place nodes

end

theorem visitsAll_append (owner : Owner) (s : Setting) (inherited : Place → List Visit)
    (place : Place) : ∀ nodes more : List DocNode,
      visitsAll owner s inherited place (nodes ++ more)
        = visitsAll owner s inherited place nodes ++ visitsAll owner s inherited place more
  | [], more => by simp [visitsAll]
  | node :: nodes, more => by
    simp [visitsAll, visitsAll_append owner s inherited place nodes more]

/-! ### What visited nodes have in common -/

/-- The nodes directly inside a node, rendered or not. -/
def DocNode.children : DocNode → List DocNode
  | .link _ label => label
  | .element _ _ children _ => children
  | .param _ description => description
  | .returns description => description
  | .throws description => description
  | .deprecated body => body
  | .see target => target
  | .blockTag _ content => content
  | _ => []

/-- Is the node a tag that names a module? Its content is not rendered. -/
def DocNode.isModuleTag : DocNode → Bool
  | .blockTag name _ => name = "cc.module"
  | _ => false

theorem isModuleTag_of_rendersContent {name : String} (h : rendersContent name = true)
    (content : List DocNode) : (DocNode.blockTag name content).isModuleTag = false := by
  refine decide_eq_false fun hname => ?_
  rw [hname] at h
  exact absurd h (by decide)

section Inherited

variable {owner : Owner} {s : Setting} {inherited : Place → List Visit} {Q : DocNode → Prop}
  {v : Visit}

mutual

/-- What holds of a node, and with any node of the nodes inside it, holds
of everything met in it that is not inherited. -/
theorem visitsWithin_cases
    (hinside : ∀ parent, Q parent → parent.isModuleTag = false → ∀ node ∈ parent.children, Q node) :
    ∀ {place : Place} (node : DocNode), Q node → v ∈ node.visitsWithin owner s inherited place →
      (v.owner = owner ∧ v.setting = s ∧ Q v.node) ∨ ∃ inner, v ∈ inherited inner
  | _, .link r label, hQ, h =>
    visitsAll_cases hinside label (hinside _ hQ rfl) (by simpa [DocNode.visitsWithin] using h)
  | place, .element name attributes children selfClosing, hQ, h => by
    simp only [DocNode.visitsWithin] at h
    split at h
    · exact visitsAll_cases hinside children (hinside _ hQ rfl) h
    · cases h
  | place, .inheritDoc, _, h => .inr ⟨place, by simpa [DocNode.visitsWithin] using h⟩
  | _, .throws description, hQ, h => by
    simp only [DocNode.visitsWithin] at h
    split at h
    · cases h
    · exact visitsAll_cases hinside description (hinside _ hQ rfl) h
  | _, .deprecated body, hQ, h =>
    visitsAll_cases hinside body (hinside _ hQ rfl) (by simpa [DocNode.visitsWithin] using h)
  | _, .see target, hQ, h =>
    visitsAll_cases hinside target (hinside _ hQ rfl) (by simpa [DocNode.visitsWithin] using h)
  | _, .blockTag name content, hQ, h => by
    simp only [DocNode.visitsWithin] at h
    split at h
    · next hrenders =>
      exact visitsAll_cases hinside content
        (hinside _ hQ (isModuleTag_of_rendersContent hrenders content)) h
    · cases h
  | _, .text _, _, h => by simp [DocNode.visitsWithin] at h
  | _, .erroneous _, _, h => by simp [DocNode.visitsWithin] at h
  | _, .code _, _, h => by simp [DocNode.visitsWithin] at h
  | _, .literal _, _, h => by simp [DocNode.visitsWithin] at h
  | _, .reference _, _, h => by simp [DocNode.visitsWithin] at h
  | _, .entity _, _, h => by simp [DocNode.visitsWithin] at h
  | _, .hidden, _, h => by simp [DocNode.visitsWithin] at h
  | _, .param _ _, _, h => by simp [DocNode.visitsWithin] at h
  | _, .returns _, _, h => by simp [DocNode.visitsWithin] at h
  | _, .unsupported, _, h => by simp [DocNode.visitsWithin] at h

theorem visitsAll_cases
    (hinside : ∀ parent, Q parent → parent.isModuleTag = false → ∀ node ∈ parent.children, Q node) :
    ∀ {place : Place} (nodes : List DocNode), (∀ node ∈ nodes, Q node) →
      v ∈ visitsAll owner s inherited place nodes →
        (v.owner = owner ∧ v.setting = s ∧ Q v.node) ∨ ∃ inner, v ∈ inherited inner
  | _, [], _, h => by simp [visitsAll] at h
  | place, node :: nodes, hQ, h => by
    obtain ⟨hnode, hnodes⟩ := List.forall_mem_cons.mp hQ
    rw [visitsAll] at h
    rcases List.mem_append.mp h with h | h
    · exact visitsWithin_cases hinside node hnode h
    · rcases List.mem_cons.mp h with rfl | h
      · exact .inl ⟨rfl, rfl, hnode⟩
      · exact visitsAll_cases hinside nodes hnodes h

end

end Inherited

/-- All nodes of a comment. -/
def DocComment.nodes (doc : DocComment) : List DocNode :=
  doc.body ++ doc.tags

/-- The nodes met in the comment that a method inherits, where `chain` is
as in `methodSetting`. -/
def inheritedVisits (p : Program) (resolve : Target → Option String) (m : Method)
    (chain : List MethodId) (place : Place) : List Visit :=
  match _found : p.inheritedDoc m with
  | none => []
  | some (ancestor, doc) =>
    if _known : ancestor.id ∈ chain then []
    else
      visitsAll (.method ancestor) (methodSetting p resolve ancestor (ancestor.id :: chain))
        (inheritedVisits p resolve ancestor (ancestor.id :: chain)) place doc.nodes
termination_by p.unchained chain
decreasing_by exact Program.unchained_cons_lt (Program.mem_methods_of_inheritedDoc _found) _known

theorem inheritedVisits_of_none {p : Program} {resolve : Target → Option String} {m : Method}
    {chain : List MethodId} (h : (methodSetting p resolve m chain).inherited = none)
    (place : Place) : inheritedVisits p resolve m chain place = [] := by
  rw [inherited_methodSetting] at h
  rw [inheritedVisits]
  split
  · rfl
  · next ancestor doc hfound =>
    rw [hfound] at h
    split
    · rfl
    · next hknown => simp [hknown] at h

/-- What a method hands on from the method it inherits from: the rendered
comment, and the nodes met in it. -/
theorem inherited_methodSetting_cases {p : Program} {resolve : Target → Option String}
    {m : Method} {chain : List MethodId} {comment : Place → Fragment}
    (h : (methodSetting p resolve m chain).inherited = some comment) :
    ∃ ancestor doc, p.inheritedDoc m = some (ancestor, doc) ∧ ancestor.id ∉ chain ∧
      (comment = fun place =>
        doc.render (methodSetting p resolve ancestor (ancestor.id :: chain)) place) ∧
      ∀ place, inheritedVisits p resolve m chain place
        = visitsAll (.method ancestor) (methodSetting p resolve ancestor (ancestor.id :: chain))
            (inheritedVisits p resolve ancestor (ancestor.id :: chain)) place doc.nodes := by
  rw [inherited_methodSetting] at h
  cases hfound : p.inheritedDoc m with
  | none => simp [hfound] at h
  | some found =>
    obtain ⟨ancestor, doc⟩ := found
    by_cases hknown : ancestor.id ∈ chain
    · simp [hfound, hknown] at h
    · refine ⟨ancestor, doc, rfl, hknown, ?_, fun place => ?_⟩
      · simpa [hfound, hknown] using h.symm
      · rw [inheritedVisits]
        split
        · next hnone => cases hfound.symm.trans hnone
        · next hsome =>
          cases hfound.symm.trans hsome
          rw [dif_neg hknown]

namespace Owner

/-- The nodes met in what the comment of a declaration inherits. -/
def inheritedVisits (p : Program) (resolve : Target → Option String) :
    Owner → Place → List Visit
  | .type _ => fun _ => []
  | .method m => ApiStubs.inheritedVisits p resolve m [m.id]

/-- The nodes met in rendering some nodes on their own for a declaration. -/
def visits (p : Program) (resolve : Target → Option String) (owner : Owner)
    (nodes : List DocNode) : List Visit :=
  visitsAll owner (owner.setting p resolve) (owner.inheritedVisits p resolve) {} nodes

theorem subject_setting (p : Program) (resolve : Target → Option String) :
    ∀ owner : Owner, (owner.setting p resolve).subject = owner.subject p
  | .type _ => rfl
  | .method m => subject_methodSetting p resolve m [m.id]

end Owner

/-! ## What a node contributes -/

/-- What is wrong with a reference, if anything is. -/
def Setting.referenceFault? (s : Setting) (r : Reference) : Option String :=
  match r.target with
  | none => some "Cannot resolve reference."
  | some target =>
    match s.resolve target with
    | some _ => none
    | none => some ("Cannot convert " ++ r.signature ++ " into a Lua reference.")

namespace Visit

/-- What is wrong with a node itself, if anything is. -/
def fault? (v : Visit) : Option String :=
  match v.node with
  | .reference r => v.setting.referenceFault? r
  | .link r _ => v.setting.referenceFault? r
  | .inheritDoc =>
    if v.setting.inherited.isSome then none else some "Cannot resolve parent doc comment."
  | .blockTag name _ =>
    if (Text.after vendorNamespace name).isSome then none
    else some ("Unsupported block tag @" ++ name)
  | .unsupported => some "Unsupported documentation node"
  | _ => none

/-- The tags that a node itself captures. -/
def captures (v : Visit) : Captures :=
  match v.node with
  | .param name description => { params := [(name, description)] }
  | .returns description => { returns := some description }
  | .blockTag name _ => ((Text.after vendorNamespace name).map tagCaptures).getD {}
  | _ => {}

/-- The problem of a node at fault. -/
def problem (v : Visit) (message : String) : Diagnostic :=
  { level := .error, subject := v.setting.subject, message, node := some v.node.kindName }

/-- What a node itself adds to the output besides text. -/
def own (v : Visit) : Rendered :=
  { captures := v.captures, problems := (v.fault?.map v.problem).toList }

theorem exists_problem {v : Visit} {d : Diagnostic} (h : d ∈ v.own.problems) :
    ∃ message, d = v.problem message := by
  obtain ⟨message, _, rfl⟩ := Option.map_eq_some_iff.mp (Option.mem_toList.mp h)
  exact ⟨message, rfl⟩

/-- What some nodes add, one after the other. -/
def total (vs : List Visit) : Rendered :=
  vs.foldr (fun v rest => v.own.append rest) {}

@[simp] theorem total_nil : total [] = {} := rfl

@[simp] theorem total_cons (v : Visit) (vs : List Visit) :
    total (v :: vs) = v.own.append (total vs) := rfl

@[simp] theorem total_append (vs ws : List Visit) :
    total (vs ++ ws) = (total vs).append (total ws) := by
  induction vs with
  | nil => exact (Rendered.empty_append _).symm
  | cons v vs ih => rw [List.cons_append, total_cons, ih, total_cons, Rendered.append_assoc]

theorem problems_total (vs : List Visit) : (total vs).problems = vs.flatMap (·.own.problems) := by
  induction vs with
  | nil => rfl
  | cons v vs ih => rw [total_cons, List.flatMap_cons, ← ih]; rfl

end Visit

/-- The output without its text. -/
def Rendered.silent (r : Rendered) : Rendered :=
  { r with text := "" }

end ApiStubs
