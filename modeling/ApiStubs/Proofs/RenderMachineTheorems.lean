/-
ApiStubs.Proofs.RenderMachineTheorems — rendering ends, and leaves the
renderer as it was.

Two arguments, both about the machine of `RenderMachine`.

The INVARIANT `Sound` holds of every state of a run: the owner and the
methods on the stack are distinct methods of the program, and the stack
is the list of ways back among the tasks. A step can only break it by
expanding an inherit marker. There the guard keeps the ancestor off the
stack, and it is not the owner because a type is never one of its own
proper supertypes (`Program.owner_ne_of_inheritedDoc`).

The SIMULATION `Runs` says that the machine gets some tasks done, gives
back owner and stack, and has written a given fragment.
`InheritRuns.renderAll` has it of the nodes of a tree, by induction on the
tree, if inherit markers run; `inheritRuns_method` has it of inherit
markers, by induction on the methods that are not being expanded. The two
together are the lexicographic measure on which rendering ends.
-/
import Mathlib.Computability.StateTransition
import ApiStubs.Proofs.ProgramTheorems
import ApiStubs.Proofs.RenderMachine
import ApiStubs.Proofs.Samples

namespace ApiStubs

open StateTransition

/-! ## Output piece by piece -/

namespace Rendered

theorem append_assoc (a b c : Rendered) : (a.append b).append c = a.append (b.append c) := by
  have hreturns : (c.captures.returns <|> (b.captures.returns <|> a.captures.returns))
      = ((c.captures.returns <|> b.captures.returns) <|> a.captures.returns) := by
    cases c.captures.returns <;> rfl
  simp only [append, Captures.merge, String.append_assoc, Bool.or_assoc, List.append_assoc,
    hreturns]

theorem append_empty (a : Rendered) : a.append {} = a := by
  simp [append, Captures.merge]

theorem empty_append (a : Rendered) : ({} : Rendered).append a = a := by
  simp [append, Captures.merge]

theorem append_text (a : Rendered) (s : String) :
    a.append { text := s } = { a with text := a.text ++ s } := by
  simp [append, Captures.merge]

theorem endsFresh_append (a b : Rendered) (fresh : Bool) :
    (a.append b).endsFresh fresh = b.endsFresh (a.endsFresh fresh) := by
  simp only [endsFresh, append, Text.last?, String.toList_append, List.getLast?_append]
  cases b.text.toList.getLast? with
  | none => rfl
  | some c => rfl

theorem push_append (out : Rendered) (f g : Fragment) :
    out.push (f ++ g) = (out.push f).push g := by
  show out.append (Rendered.append _ _) = (out.append _).append (g _)
  rw [append_assoc, push, endsFresh_append]

theorem push_empty (out : Rendered) : out.push Fragment.empty = out :=
  append_empty out

theorem empty_push (f : Fragment) : ({} : Rendered).push f = f.render :=
  empty_append _

end Rendered

theorem Fragment.append_assoc (f g h : Fragment) : f ++ g ++ h = f ++ (g ++ h) := by
  funext fresh
  have hends : ((f ++ g : Fragment) fresh).endsFresh fresh
      = (g ((f fresh).endsFresh fresh)).endsFresh ((f fresh).endsFresh fresh) :=
    Rendered.endsFresh_append _ _ _
  show ((f ++ g : Fragment) fresh).append (h (((f ++ g : Fragment) fresh).endsFresh fresh)) = _
  rw [hends]
  exact Rendered.append_assoc _ _ _

theorem Fragment.append_empty (f : Fragment) : f ++ Fragment.empty = f :=
  funext fun _ => Rendered.append_empty _

theorem Fragment.empty_append (f : Fragment) : Fragment.empty ++ f = f :=
  funext fun _ => Rendered.empty_append _

theorem Fragment.write_append_write (s t : String) :
    Fragment.write s ++ Fragment.write t = Fragment.write (s ++ t) :=
  rfl

namespace RenderMachine

variable {p : Program} {resolve : Target → Option String} {owner : Owner}
  {inheriting : List MethodId} {place : Place}

/-! ## Tasks that run -/

/-- The machine gets the tasks done, whatever comes after them: it has
written `f`, and owner and stack are what they were. -/
def Runs (p : Program) (resolve : Target → Option String) (owner : Owner)
    (inheriting : List MethodId) (tasks : List Task) (f : Fragment) : Prop :=
  ∀ rest out, Reaches (step p resolve) ⟨owner, inheriting, tasks ++ rest, out⟩
    ⟨owner, inheriting, rest, out.push f⟩

theorem runs_nil : Runs p resolve owner inheriting [] Fragment.empty := by
  intro rest out
  rw [Rendered.push_empty]
  exact .refl

theorem Runs.append {ts us : List Task} {f g : Fragment}
    (hts : Runs p resolve owner inheriting ts f) (hus : Runs p resolve owner inheriting us g) :
    Runs p resolve owner inheriting (ts ++ us) (f ++ g) := by
  intro rest out
  rw [List.append_assoc, Rendered.push_append]
  exact (hts (us ++ rest) out).trans (hus rest (out.push f))

theorem runs_emit (f : Fragment) : Runs p resolve owner inheriting [.emit f] f :=
  fun _ _ => .single rfl

theorem runs_report (kind message : String) :
    Runs p resolve owner inheriting [.report kind message]
      ((voice p resolve owner).report kind message) :=
  fun _ _ => .single rfl

theorem runs_reference (kind : String) (r : Reference) :
    Runs p resolve owner inheriting [.reference kind r]
      ((voice p resolve owner).reference kind r) :=
  fun _ _ => .single rfl

theorem Runs.node {node : DocNode} {f : Fragment}
    (h : Runs p resolve owner inheriting (nodeTasks place node) f) :
    Runs p resolve owner inheriting [.node place node] f :=
  fun rest out => .head rfl (h rest out)

theorem runs_walk_nil : Runs p resolve owner inheriting [.walk place []] Fragment.empty :=
  fun rest out => .head rfl (runs_nil rest out)

theorem Runs.walk_cons {node : DocNode} {nodes : List DocNode} {f g : Fragment}
    (hnode : Runs p resolve owner inheriting (nodeTasks place node) f)
    (hnodes : Runs p resolve owner inheriting [.walk place nodes] g) :
    Runs p resolve owner inheriting [.walk place (node :: nodes)] (f ++ g) :=
  fun rest out => .head rfl ((hnode.node.append hnodes) rest out)

/-- A text before and a text after. -/
theorem Runs.between {t : Task} {f : Fragment} (h : Runs p resolve owner inheriting [t] f)
    (before after : String) :
    Runs p resolve owner inheriting [write before, t, write after]
      (Fragment.write before ++ f ++ Fragment.write after) :=
  ((runs_emit _).append h).append (runs_emit _)

/-! ## Settings -/

/-- The setting in which the machine renders: that of the owner, with the
methods on the stack on its chain. -/
def settingIn (p : Program) (resolve : Target → Option String) (owner : Owner)
    (inheriting : List MethodId) : Setting :=
  match owner with
  | .type decl => typeSetting decl resolve
  | .method m => methodSetting p resolve m (m.id :: inheriting)

theorem settingIn_nil : settingIn p resolve owner [] = owner.setting p resolve := by
  cases owner <;> rfl

theorem subject_settingIn : (settingIn p resolve owner inheriting).subject = owner.subject p := by
  cases owner with
  | type decl => rfl
  | method m => exact subject_methodSetting p resolve m _

theorem resolve_settingIn : (settingIn p resolve owner inheriting).resolve = resolve := by
  cases owner with
  | type decl => rfl
  | method m => exact resolve_methodSetting p resolve m _

theorem report_settingIn (kind message : String) :
    (settingIn p resolve owner inheriting).report kind message
      = (voice p resolve owner).report kind message := by
  simp only [Setting.report, subject_settingIn, voice]

theorem reference_settingIn (kind : String) (r : Reference) :
    (settingIn p resolve owner inheriting).reference kind r
      = (voice p resolve owner).reference kind r := by
  simp only [Setting.reference, report_settingIn, resolve_settingIn, voice]

/-! ## Trees run -/

theorem runs_element (name : String) (attributes : List Attribute) (selfClosing : Bool)
    {children : List DocNode} {f : Place → Fragment}
    (hchildren : ∀ inner, Runs p resolve owner inheriting [.walk inner children] (f inner)) :
    Runs p resolve owner inheriting (elementTasks place name attributes selfClosing children)
      (element place name attributes selfClosing f) := by
  unfold elementTasks element
  split
  · exact (((runs_emit _).append (runs_emit _)).append (hchildren _)).append (runs_emit _)
  · split
    · exact hchildren _
    · split
      · exact (runs_emit _).append (hchildren _)
      · cases emphasis? name attributes with
        | some mark => exact (hchildren _).between _ _
        | none =>
          simp only
          split
          · exact runs_emit _
          · exact (hchildren _).between _ _

theorem runs_blockTag (name : String) {content : List DocNode} {f : Fragment}
    (hcontent : Runs p resolve owner inheriting [.walk place content] f) :
    Runs p resolve owner inheriting (blockTagTasks place name content)
      ((settingIn p resolve owner inheriting).blockTag name (leadsWith "[" content) f) := by
  unfold blockTagTasks Setting.blockTag
  cases Text.after vendorNamespace name with
  | none =>
    simp only [report_settingIn]
    exact runs_report _ _
  | some tag =>
    simp only
    split
    · exact runs_nil
    · exact (((runs_emit _).append (runs_emit _)).append hcontent).append (runs_emit _)

/-- A setting in which inherit markers run. -/
def InheritRuns (p : Program) (resolve : Target → Option String) (owner : Owner)
    (inheriting : List MethodId) : Prop :=
  ∀ place, Runs p resolve owner inheriting [.inherit place]
    (DocNode.inheritDoc.render (settingIn p resolve owner inheriting) place)

mutual

theorem InheritRuns.render (h : InheritRuns p resolve owner inheriting) (place : Place) :
    ∀ node : DocNode, Runs p resolve owner inheriting (nodeTasks place node)
      (node.render (settingIn p resolve owner inheriting) place)
  | .text _ => by simp only [DocNode.render]; exact runs_emit _
  | .erroneous _ => by simp only [DocNode.render]; exact runs_emit _
  | .code _ => by simp only [DocNode.render]; exact runs_emit _
  | .literal _ => by simp only [DocNode.render]; exact runs_emit _
  | .reference r => by
    simp only [DocNode.render, reference_settingIn]
    exact runs_reference _ r
  | .link r [] => by
    simp only [DocNode.render, reference_settingIn]
    exact (runs_reference _ r).between _ _
  | .link r (first :: rest) => by
    simp only [DocNode.render, reference_settingIn]
    -- The machine walks the label as one list, the renderer takes its first node apart.
    have hlabel := (runs_emit (Fragment.write "[")).append
      ((h.render place first).walk_cons (h.renderAll place rest))
    rw [← Fragment.append_assoc] at hlabel
    exact (((hlabel.append (runs_emit _)).append (runs_emit _)).append
      (runs_reference _ r)).append (runs_emit _)
  | .element name attributes children selfClosing => by
    simp only [DocNode.render]
    exact runs_element name attributes selfClosing fun inner => h.renderAll inner children
  | .entity _ => by simp only [DocNode.render]; exact runs_emit _
  | .inheritDoc => h place
  | .hidden => by simp only [DocNode.render]; exact runs_emit _
  | .param _ _ => by simp only [DocNode.render]; exact runs_emit _
  | .returns _ => by simp only [DocNode.render]; exact runs_emit _
  | .throws description => by
    simp only [DocNode.render, nodeTasks]
    split
    · exact runs_nil
    · exact (h.renderAll place description).between _ _
  | .deprecated body => by
    simp only [DocNode.render]
    exact (h.renderAll place body).between _ _
  | .see [] => by simp only [DocNode.render]; exact runs_nil
  | .see (first :: rest) => by
    simp only [DocNode.render]
    exact ((((runs_emit _).append (h.render place first).node).append (runs_emit _)).append
      (h.renderAll place rest)).append (runs_emit _)
  | .blockTag name content => by
    simp only [DocNode.render]
    exact runs_blockTag name (h.renderAll place content)
  | .unsupported => by
    simp only [DocNode.render, report_settingIn]
    exact runs_report _ _

theorem InheritRuns.renderAll (h : InheritRuns p resolve owner inheriting) (place : Place) :
    ∀ nodes : List DocNode, Runs p resolve owner inheriting [.walk place nodes]
      (ApiStubs.renderAll (settingIn p resolve owner inheriting) place nodes)
  | [] => by simp only [ApiStubs.renderAll]; exact runs_walk_nil
  | node :: nodes => by
    simp only [ApiStubs.renderAll]
    exact (h.render place node).walk_cons (h.renderAll place nodes)

end

theorem InheritRuns.comment (h : InheritRuns p resolve owner inheriting) (place : Place)
    (doc : DocComment) : Runs p resolve owner inheriting (commentTasks place doc)
      (doc.render (settingIn p resolve owner inheriting) place) :=
  ((h.renderAll place doc.body).append (runs_emit _)).append (h.renderAll place doc.tags)

/-! ## Inherit markers run -/

theorem step_inherit_none (h : expansion? p inheriting owner = none) (rest : List Task)
    (out : Rendered) :
    step p resolve ⟨owner, inheriting, .inherit place :: rest, out⟩
      = some ⟨owner, inheriting,
          .report "inheritDoc" "Cannot resolve parent doc comment." :: rest, out⟩ := by
  simp only [step, h]

theorem step_inherit_some {current ancestor : Method} {doc : DocComment}
    (h : expansion? p inheriting owner = some (current, ancestor, doc)) (rest : List Task)
    (out : Rendered) :
    step p resolve ⟨owner, inheriting, .inherit place :: rest, out⟩
      = some ⟨.method ancestor, current.id :: inheriting,
          commentTasks place doc ++ .leave current :: rest, out⟩ := by
  simp only [step, h]

/-- What an inherit marker of a method can do. The guard of the machine
looks at the stack only, that of the setting at the method as well; they
agree because the ancestor is never the method itself. -/
theorem expansion?_cases (tables : p.Tables) (resolve : Target → Option String) {m : Method}
    (hm : m ∈ p.methods) (inheriting : List MethodId) :
    (expansion? p inheriting (.method m) = none ∧
      (methodSetting p resolve m (m.id :: inheriting)).inherited = none) ∨
    ∃ ancestor doc, ancestor ∈ p.methods ∧ ancestor.id ∉ m.id :: inheriting ∧
      expansion? p inheriting (.method m) = some (m, ancestor, doc) ∧
      (methodSetting p resolve m (m.id :: inheriting)).inherited = some fun place =>
        doc.render (methodSetting p resolve ancestor (ancestor.id :: m.id :: inheriting))
          place := by
  simp only [expansion?, inherited_methodSetting]
  cases hfound : p.inheritedDoc m with
  | none => exact .inl ⟨rfl, rfl⟩
  | some found =>
    obtain ⟨ancestor, doc⟩ := found
    have hmem : ancestor ∈ p.methods := Program.mem_methods_of_inheritedDoc hfound
    have hne : ancestor.id ≠ m.id := by
      intro hid
      have heq : ancestor = m := tables.method_ext hmem hm hid
      exact Program.owner_ne_of_inheritedDoc hfound (congrArg Method.owner heq)
    by_cases hknown : ancestor.id ∈ inheriting
    · exact .inl ⟨by simp [Option.filter, hknown], by simp [hknown]⟩
    · exact .inr ⟨ancestor, doc, hmem, by simp [hne, hknown], by simp [Option.filter, hknown],
        by simp [hne, hknown]⟩

/-- **Inherit markers run**, by induction on the methods that are not yet
being expanded. -/
theorem inheritRuns_method (tables : p.Tables) (m : Method) (hm : m ∈ p.methods)
    (inheriting : List MethodId) : InheritRuns p resolve (.method m) inheriting := by
  intro place rest out
  simp only [DocNode.render, report_settingIn]
  rcases expansion?_cases tables resolve hm inheriting with
    ⟨hnone, hinherited⟩ | ⟨ancestor, doc, hmem, hnew, hsome, hinherited⟩
  · simp only [settingIn, hinherited]
    exact .head (step_inherit_none hnone rest out) (runs_report _ _ rest out)
  · simp only [settingIn, hinherited]
    -- The ancestor renders with `m` on the stack, which leaves fewer methods to expand.
    have hfewer : p.unchained (ancestor.id :: m.id :: inheriting)
        < p.unchained (m.id :: inheriting) := Program.unchained_cons_lt hmem hnew
    have hcomment := (inheritRuns_method tables ancestor hmem (m.id :: inheriting)).comment place doc
    exact .head (step_inherit_some hsome rest out)
      ((hcomment (.leave m :: rest) out).tail rfl)
termination_by p.unchained (m.id :: inheriting)

theorem inheritRuns_type (decl : TypeDecl) :
    InheritRuns p resolve (.type decl) inheriting := by
  intro place rest out
  simp only [DocNode.render, report_settingIn]
  exact .head (step_inherit_none rfl rest out) (runs_report _ _ rest out)

/-! ## What a step can do -/

/-- The method that a task goes back to. -/
def Task.back? : Task → Option Method
  | .leave m => some m
  | _ => none

/-- The ways back among the tasks of a state. -/
def State.frames (s : State) : List Method :=
  s.tasks.filterMap Task.back?

theorem back?_elementTasks (place : Place) (name : String) (attributes : List Attribute)
    (selfClosing : Bool) (children : List DocNode) :
    (elementTasks place name attributes selfClosing children).filterMap Task.back? = [] := by
  unfold elementTasks
  split
  · rfl
  · split
    · rfl
    · split
      · rfl
      · cases emphasis? name attributes with
        | some mark => rfl
        | none => simp only; split <;> rfl

theorem back?_blockTagTasks (place : Place) (name : String) (content : List DocNode) :
    (blockTagTasks place name content).filterMap Task.back? = [] := by
  unfold blockTagTasks
  cases Text.after vendorNamespace name with
  | none => rfl
  | some tag => simp only; split <;> rfl

/-- The tasks of a node have no way back. -/
theorem back?_nodeTasks (place : Place) (node : DocNode) :
    (nodeTasks place node).filterMap Task.back? = [] := by
  cases node with
  | element name attributes children selfClosing => exact back?_elementTasks ..
  | blockTag name content => exact back?_blockTagTasks ..
  | throws description => simp only [nodeTasks]; split <;> rfl
  | link r label => cases label <;> rfl
  | see nodes => cases nodes <;> rfl
  | _ => rfl

/-- Everything that a step can do to owner, stack and ways back: nothing,
expand the comment of an ancestor, or go back. -/
theorem step_cases {s t : State} (h : step p resolve s = some t) :
    (t.owner = s.owner ∧ t.inheriting = s.inheriting ∧ t.frames = s.frames) ∨
    (∃ current ancestor doc, expansion? p s.inheriting s.owner = some (current, ancestor, doc) ∧
      t.owner = .method ancestor ∧ t.inheriting = current.id :: s.inheriting ∧
      t.frames = current :: s.frames) ∨
    (∃ m, t.owner = .method m ∧ t.inheriting = s.inheriting.tail ∧ s.frames = m :: t.frames) := by
  obtain ⟨owner, inheriting, tasks, out⟩ := s
  cases tasks with
  | nil => cases h
  | cons task rest =>
    cases task with
    | emit f => cases h; exact .inl ⟨rfl, rfl, rfl⟩
    | report kind message => cases h; exact .inl ⟨rfl, rfl, rfl⟩
    | reference kind r => cases h; exact .inl ⟨rfl, rfl, rfl⟩
    | node place node =>
      cases h
      refine .inl ⟨rfl, rfl, ?_⟩
      simp only [State.frames, List.filterMap_append, back?_nodeTasks]
      rfl
    | walk place nodes =>
      cases nodes with
      | nil => cases h; exact .inl ⟨rfl, rfl, rfl⟩
      | cons node nodes => cases h; exact .inl ⟨rfl, rfl, rfl⟩
    | inherit place =>
      cases hexpansion : expansion? p inheriting owner with
      | none =>
        rw [step_inherit_none hexpansion] at h
        cases h
        exact .inl ⟨rfl, rfl, rfl⟩
      | some found =>
        obtain ⟨current, ancestor, doc⟩ := found
        rw [step_inherit_some hexpansion] at h
        cases h
        exact .inr (.inl ⟨current, ancestor, doc, rfl, rfl, rfl, rfl⟩)
    | leave m => cases h; exact .inr (.inr ⟨m, rfl, rfl, rfl⟩)

/-! ## The invariant of a run -/

/-- The stack is the list of ways back, and the owner and the methods on
the stack are distinct methods of the program. -/
structure Sound (p : Program) (s : State) : Prop where
  declared : s.owner.Declared p
  framesDeclared : ∀ m ∈ s.frames, m ∈ p.methods
  stack : s.inheriting = s.frames.map (·.id)
  distinct : s.expanding.Nodup

theorem State.inheriting_sublist (s : State) : s.inheriting.Sublist s.expanding := by
  unfold State.expanding
  split
  · exact List.Sublist.refl _
  · exact List.sublist_cons_self _ _

theorem expansion?_eq_some {current : Method} {found : Method × DocComment}
    (h : expansion? p inheriting owner = some (current, found)) : owner = .method current := by
  cases owner with
  | type decl => cases h
  | method m =>
    obtain ⟨_, _, heq⟩ := Option.map_eq_some_iff.mp h
    cases heq
    rfl

/-- What expands is the owner, and what it expands to is a new method. -/
theorem Sound.expansion {s : State} {current ancestor : Method} {doc : DocComment}
    (tables : p.Tables) (sound : Sound p s)
    (h : expansion? p s.inheriting s.owner = some (current, ancestor, doc)) :
    current ∈ p.methods ∧ ancestor ∈ p.methods ∧
      (ancestor.id :: current.id :: s.inheriting).Nodup := by
  have hcurrent : s.owner = .method current := expansion?_eq_some h
  have hdeclared : current ∈ p.methods := by
    simpa only [Owner.Declared, hcurrent] using sound.declared
  have hdistinct : (current.id :: s.inheriting).Nodup := by
    simpa only [State.expanding, hcurrent] using sound.distinct
  rw [hcurrent] at h
  rcases expansion?_cases tables (fun _ => none) hdeclared s.inheriting with
    ⟨hnone, _⟩ | ⟨found, comment, hmem, hnew, hsome, _⟩
  · rw [hnone] at h
    cases h
  · rw [hsome] at h
    cases h
    exact ⟨hdeclared, hmem, List.nodup_cons.mpr ⟨hnew, hdistinct⟩⟩

theorem Sound.step {s t : State} (tables : p.Tables) (sound : Sound p s)
    (h : RenderMachine.step p resolve s = some t) : Sound p t := by
  rcases step_cases h with ⟨howner, hstack, hframes⟩ |
    ⟨current, ancestor, doc, hexpansion, howner, hstack, hframes⟩ | ⟨m, howner, hstack, hframes⟩
  · refine ⟨howner ▸ sound.declared, hframes ▸ sound.framesDeclared, ?_, ?_⟩
    · rw [hstack, hframes, sound.stack]
    · simpa only [State.expanding, howner, hstack] using sound.distinct
  · obtain ⟨hcurrent, hancestor, hnodup⟩ := sound.expansion tables hexpansion
    refine ⟨?_, ?_, ?_, ?_⟩
    · rw [howner]
      exact hancestor
    · rw [hframes]
      exact List.forall_mem_cons.mpr ⟨hcurrent, sound.framesDeclared⟩
    · rw [hstack, hframes, sound.stack]
      rfl
    · simpa only [State.expanding, howner, hstack] using hnodup
  · have hdeclared := sound.framesDeclared
    have hsame := sound.stack
    rw [hframes] at hdeclared hsame
    -- The owner is now the method that was on top of the stack.
    have hback : t.expanding = s.inheriting := by
      simp only [State.expanding, howner, hstack, hsame]
      rfl
    refine ⟨?_, fun m' hm' => hdeclared m' (List.mem_cons_of_mem _ hm'), ?_, ?_⟩
    · rw [howner]
      exact hdeclared m List.mem_cons_self
    · rw [hstack, hsame]
      rfl
    · rw [hback]
      exact sound.distinct.sublist s.inheriting_sublist

theorem Sound.run {s t : State} (tables : p.Tables) (sound : Sound p s)
    (h : Reaches (RenderMachine.step p resolve) s t) : Sound p t := by
  induction h with
  | refl => exact sound
  | tail _ hstep ih => exact ih.step tables hstep

theorem Job.sound_start (job : Job) (howner : owner.Declared p) : Sound p (job.start owner) where
  declared := howner
  framesDeclared := by cases job <;> nofun
  stack := by cases job <;> rfl
  distinct := by
    cases owner with
    | type decl => exact List.nodup_nil
    | method m => exact List.nodup_singleton _

/-- There are no more nested expansions than methods. -/
theorem Sound.length_inheriting_le {s : State} (sound : Sound p s) :
    s.inheriting.length ≤ p.methods.length := by
  have hnodup : s.inheriting.Nodup := sound.distinct.sublist s.inheriting_sublist
  have hsub : s.inheriting ⊆ p.methods.map (·.id) := by
    rw [sound.stack]
    exact List.map_subset _ sound.framesDeclared
  have hle := (hnodup.subperm hsub).length_le
  rwa [List.length_map] at hle

/-! ## A cycle

Two types, each the superclass of the other, whose methods inherit their
comments from one another, twice. -/

namespace Cycle

def doc : DocComment := { body := [.text "see", .inheritDoc, .inheritDoc] }

def decl (id superclass : String) (line : Nat) : TypeDecl :=
  { id, name := id, superclass := some superclass, source := ⟨"src/C.java", line, 0⟩,
    methods := [{ name := "f", doc := some doc, source := ⟨"src/C.java", line + 1, 0⟩ }] }

def sample : Sample where
  models := [{ types := [decl "Left" "Right" 1, decl "Right" "Left" 5] }]

def left : Method :=
  ⟨0, 0, { name := "f", doc := some doc, source := ⟨"src/C.java", 2, 0⟩ }⟩

def right : Method :=
  ⟨1, 1, { name := "f", doc := some doc, source := ⟨"src/C.java", 6, 0⟩ }⟩

theorem left_inherits : sample.program.inheritedDoc left = some (right, doc) := by cbv

theorem right_inherits : sample.program.inheritedDoc right = some (left, doc) := by cbv

end Cycle

/-! ## Rendering -/

theorem inheritRuns (tables : p.Tables) (howner : owner.Declared p)
    (inheriting : List MethodId) : InheritRuns p resolve owner inheriting := by
  cases owner with
  | type decl => exact inheritRuns_type decl
  | method m => exact inheritRuns_method tables m howner inheriting

/-- The machine at the end of a job: nothing is left to do, and owner and
stack are those of the start. -/
def Job.final (p : Program) (resolve : Target → Option String) (owner : Owner) (job : Job) :
    State :=
  { owner, inheriting := [], tasks := [], out := job.rendered (owner.setting p resolve) }

theorem Job.reaches_final (tables : p.Tables) (howner : owner.Declared p) (job : Job) :
    Reaches (step p resolve) (job.start owner) (job.final p resolve owner) := by
  have hruns : InheritRuns p resolve owner [] := inheritRuns tables howner []
  rw [Job.final, ← settingIn_nil]
  cases job with
  | comment doc =>
    have hcomment := hruns.comment {} doc [] {}
    rwa [List.append_nil, Rendered.empty_push] at hcomment
  | fragment nodes =>
    have hnodes := hruns.renderAll {} nodes [] {}
    rwa [List.append_nil, Rendered.empty_push] at hnodes

/-- **Rendering ends and restores the renderer.** The one run of a job
ends with the rendered output, and with owner and stack as at the start.
In each state of the run the owner and the methods on the stack are
distinct, so that the stack is never longer than the list of methods, and
a walk over nodes that begins there comes to an end with the owner and the
stack that it began with. -/
theorem run_ends_and_restores {models : List Model} {p : Program}
    (hbuild : Program.build models = .ok p) (resolve : Target → Option String) {owner : Owner}
    (howner : owner.Declared p) (job : Job) :
    job.final p resolve owner ∈ eval (step p resolve) (job.start owner) ∧
    ∀ s, Reaches (step p resolve) (job.start owner) s →
      Reaches (step p resolve) s (job.final p resolve owner) ∧
      s.expanding.Nodup ∧ s.inheriting.length ≤ p.methods.length ∧
      ∀ place nodes rest, s.tasks = .walk place nodes :: rest →
        Reaches (step p resolve) s
          { s with tasks := rest
                   out := s.out.push
                     (renderAll (settingIn p resolve s.owner s.inheriting) place nodes) } := by
  have tables : p.Tables := Program.tables_of_build hbuild
  have hends : job.final p resolve owner ∈ eval (step p resolve) (job.start owner) :=
    mem_eval.mpr ⟨job.reaches_final tables howner, rfl⟩
  refine ⟨hends, fun s hs => ?_⟩
  have sound : Sound p s := (job.sound_start howner).run tables hs
  refine ⟨?_, sound.distinct, sound.length_inheriting_le, ?_⟩
  · rw [reaches_eval hs] at hends
    exact (mem_eval.mp hends).1
  · intro place nodes rest htasks
    obtain ⟨sowner, sinheriting, stasks, sout⟩ := s
    obtain rfl : stasks = .walk place nodes :: rest := htasks
    exact (inheritRuns tables sound.declared sinheriting).renderAll place nodes rest sout

namespace Cycle

/-- The comment of `left` is rendered although it inherits from one that
inherits from it. -/
theorem left_ends :
    Program.build sample.models = .ok sample.program ∧ (Owner.method left).Declared sample.program ∧
      sample.program.inheritedDoc left = some (right, doc) ∧
      sample.program.inheritedDoc right = some (left, doc) ∧
      (Job.comment doc).final sample.program (fun _ => none) (.method left)
        ∈ eval (step sample.program fun _ => none) ((Job.comment doc).start (.method left)) := by
  have hdeclared : (Owner.method left).Declared sample.program := List.mem_cons_self
  exact ⟨sample.build_models, hdeclared, left_inherits, right_inherits,
    (run_ends_and_restores sample.build_models (fun _ => none) hdeclared (.comment doc)).1⟩

end Cycle

end RenderMachine

end ApiStubs
