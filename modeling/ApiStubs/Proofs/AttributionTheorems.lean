/-
ApiStubs.Proofs.AttributionTheorems — which declaration a problem is
reported for.

A problem about a node is reported for the owner of the moment. While a
comment is rendered, the owner is the declaration whose comment the node
stands in, through any number of inherited comments (`visits_owned`). The
captured descriptions of parameters and results are rendered later and
for the method at hand, wherever they were captured. So a problem in a
description that the method INHERITED is reported for the heir.
`node_problems_attributed` says that this is the only exception.
-/
import ApiStubs.Proofs.OrphanTheorems
import ApiStubs.Proofs.StubVisitTheorems

namespace ApiStubs

/-! ## Nodes at any depth -/

/-- The node is among some nodes or inside of one of them, at any depth. -/
inductive Occurs (node : DocNode) : List DocNode → Prop where
  | here {nodes : List DocNode} (h : node ∈ nodes) : Occurs node nodes
  | inside {parent : DocNode} {nodes : List DocNode} (hp : parent ∈ nodes)
      (h : Occurs node parent.children) : Occurs node nodes

namespace Occurs

variable {node parent : DocNode} {nodes : List DocNode}

theorem trans (h : Occurs node parent.children) (hp : Occurs parent nodes) :
    Occurs node nodes := by
  induction hp with
  | here hmem => exact .inside hmem h
  | inside hmem _ ih => exact .inside hmem ih

end Occurs

/-- Does the declaration's own comment have the node, at any depth? -/
def Owner.Has (owner : Owner) (node : DocNode) : Prop :=
  Occurs node owner.nodes

/-! ## Visited nodes and their owners -/

/-- What is met in some nodes stands in them, unless it was inherited. -/
theorem owned_of_mem_visitsAll {owner : Owner} {s : Setting} {inherited : Place → List Visit}
    {v : Visit} {place : Place} {nodes : List DocNode}
    (h : v ∈ visitsAll owner s inherited place nodes) :
    (v.owner = owner ∧ v.setting = s ∧ Occurs v.node nodes) ∨ ∃ inner, v ∈ inherited inner :=
  visitsAll_cases (Q := (Occurs · nodes))
    (fun _ hparent _ _ hnode => (Occurs.here hnode).trans hparent) nodes (fun _ => .here) h

/-- One method inherits its comment from another. -/
def Program.InheritsFrom (p : Program) (m a : Method) : Prop :=
  ∃ doc, p.inheritedDoc m = some (a, doc)

/-- A node that is met in a method's inherited comment stands in the own
comment of a method that it inherits from, in one or more steps. -/
structure Visit.InheritedBy (v : Visit) (p : Program) (m : Method) (a : Method) : Prop where
  owner : v.owner = .method a
  inherits : Relation.TransGen p.InheritsFrom m a
  declared : a ∈ p.methods
  has : (Owner.method a).Has v.node
  subject : v.setting.subject = p.methodSubject a

/-- By induction on the methods that are not yet on the chain. -/
theorem exists_inheritedBy {p : Program} {resolve : Target → Option String} {m : Method}
    {chain : List MethodId} {place : Place} {v : Visit}
    (h : v ∈ inheritedVisits p resolve m chain place) : ∃ a, v.InheritedBy p m a := by
  cases hinherited : (methodSetting p resolve m chain).inherited with
  | none =>
    rw [inheritedVisits_of_none hinherited] at h
    cases h
  | some comment =>
    obtain ⟨ancestor, doc, hfound, hknown, _, hvisits⟩ :=
      inherited_methodSetting_cases hinherited
    have hfewer : p.unchained (ancestor.id :: chain) < p.unchained chain :=
      Program.unchained_cons_lt (Program.mem_methods_of_inheritedDoc hfound) hknown
    have hstep : p.InheritsFrom m ancestor := ⟨doc, hfound⟩
    rw [hvisits place] at h
    rcases owned_of_mem_visitsAll h with ⟨howner, hs, hoccurs⟩ | ⟨inner, hinner⟩
    · refine ⟨ancestor, howner, .single hstep, Program.mem_methods_of_inheritedDoc hfound, ?_, ?_⟩
      · simpa [Owner.Has, Owner.nodes, Owner.doc, Program.doc_of_inheritedDoc hfound]
          using hoccurs
      · rw [hs, subject_methodSetting]
    · obtain ⟨a, inherited⟩ := exists_inheritedBy hinner
      exact ⟨a, { inherited with inherits := .head hstep inherited.inherits }⟩
termination_by p.unchained chain

/-- **A visited node belongs to the declaration at hand, or to one whose
comment is inherited.** -/
theorem visits_owned {p : Program} {resolve : Target → Option String} {owner : Owner}
    {nodes : List DocNode} {v : Visit} (h : v ∈ owner.visits p resolve nodes) :
    (v.owner = owner ∧ v.setting.subject = owner.subject p ∧ Occurs v.node nodes) ∨
      ∃ m a, owner = .method m ∧ v.InheritedBy p m a := by
  rcases owned_of_mem_visitsAll h with ⟨howner, hs, hoccurs⟩ | ⟨inner, hinner⟩
  · exact .inl ⟨howner, by rw [hs, Owner.subject_setting], hoccurs⟩
  · cases owner with
    | type decl => cases hinner
    | method m =>
      obtain ⟨a, inherited⟩ := exists_inheritedBy hinner
      exact .inr ⟨m, a, rfl, inherited⟩

/-! ## Attribution -/

/-- Is the declaration one of the program's? -/
def Program.Declares (p : Program) : Owner → Prop
  | .type decl => ∃ t ∈ p.types, t.decl = decl
  | .method m => m ∈ p.methods

/-- The node stands in the description of a parameter or a result, in the
comment of a method that `m` inherits from. -/
def Program.InheritsDescription (p : Program) (m : Method) (node : DocNode) : Prop :=
  ∃ a tag, Relation.TransGen p.InheritsFrom m a ∧ (Owner.method a).Has tag ∧
    tag.isCaptured = true ∧ Occurs node tag.children

/-- The subject is a declaration that has the node, or a method that
inherits a description with the node. -/
def Program.Answers (p : Program) (subject : Subject) (node : DocNode) : Prop :=
  ∃ owner, p.Declares owner ∧ subject = owner.subject p ∧
    (owner.Has node ∨ ∃ m, owner = .method m ∧ p.InheritsDescription m node)

theorem Visit.InheritedBy.answers {p : Program} {m a : Method} {v : Visit}
    (h : v.InheritedBy p m a) : p.Answers v.setting.subject v.node :=
  ⟨.method a, h.declared, h.subject, .inl h.has⟩

namespace Project

variable {project : Project} {owner : Option ClassInfo} {v : Visit}

/-- A node of a description that was captured is the method's own if the
tag is, and is inherited if the tag is. -/
theorem answers_of_described {m : Method} (hm : m ∈ project.program.methods)
    {description : List DocNode}
    (hdescribed : description ∈ describedNodes (Visit.total (project.methodVisits owner m
      (Owner.method m).nodes)).captures m.decl owner)
    (hv : v ∈ project.methodVisits owner m description) :
    project.program.Answers v.setting.subject v.node := by
  rcases visits_owned hv with ⟨_, hsubject, hoccurs⟩ | ⟨_, _, _, inherited⟩
  · obtain ⟨tag, htag, hnode⟩ := exists_captured hdescribed
    have hcaptured : tag.node.isCaptured = true ∧ tag.node.children = description := by
      rcases hnode with ⟨_, hnode⟩ | hnode <;> rw [hnode] <;> exact ⟨rfl, rfl⟩
    rw [← hcaptured.2] at hoccurs
    refine ⟨.method m, hm, hsubject, ?_⟩
    rcases visits_owned htag with ⟨_, _, hown⟩ | ⟨m', a, heq, inherited⟩
    · exact .inl (hoccurs.trans hown)
    · cases heq
      exact .inr ⟨m, rfl, a, tag.node, inherited.inherits, inherited.has, hcaptured.1, hoccurs⟩
  · exact inherited.answers

theorem answers_of_functionVisits {m : Method} (hm : m ∈ project.program.methods)
    (hv : v ∈ project.functionVisits owner m) :
    project.program.Answers v.setting.subject v.node := by
  rcases List.mem_append.mp hv with hv | hv
  · rcases visits_owned hv with ⟨_, hsubject, hoccurs⟩ | ⟨_, _, _, inherited⟩
    · exact ⟨.method m, hm, hsubject, .inl hoccurs⟩
    · exact inherited.answers
  · obtain ⟨description, hdescribed, hv⟩ := List.mem_flatMap.mp hv
    exact answers_of_described hm hdescribed hv

theorem answers_of_classVisits {c : ClassInfo}
    (hc : project.program.Declares (.type c.decl)) (hv : v ∈ project.classVisits c) :
    project.program.Answers v.setting.subject v.node := by
  rcases visits_owned hv with ⟨_, hsubject, hoccurs⟩ | ⟨_, _, heq, _⟩
  · exact ⟨.type c.decl, hc, hsubject, .inl hoccurs⟩
  · cases heq

end Project

/-! ## Diagnostics of a run -/

/-- A documented class is a declared type, and it is a module or an
auxiliary type. -/
theorem Surface.classes_cases {p : Program} {caps : Capabilities} {c : ClassInfo}
    (h : c ∈ (Surface.of p caps).classes) : ∃ t ∈ p.types, ∃ hidden,
      (∃ classification name, c = ClassInfo.ofModule t classification hidden name) ∨
      ∃ text kind name, ClassInfo.splitKind? text = some (kind, name) ∧
        c = ClassInfo.ofAuxiliary t hidden kind name := by
  obtain ⟨found, hfound, hc⟩ := List.mem_filterMap.mp (List.mem_mergeSort.mp h)
  obtain ⟨t, ht, rfl⟩ := List.mem_map.mp hfound
  refine ⟨t, ht, ?_⟩
  unfold ClassInfo.ofType at hc
  split at hc
  · cases hc
  · next text htext =>
    simp only at hc
    split at hc
    · cases hc
      exact ⟨_, .inl ⟨_, _, rfl⟩⟩
    · split at hc
      · cases hc
      · next kind name hsplit =>
        cases hc
        exact ⟨_, .inr ⟨text, kind, name, hsplit, rfl⟩⟩

theorem Surface.exists_declared {p : Program} {caps : Capabilities} {c : ClassInfo}
    (h : c ∈ (Surface.of p caps).classes) : ∃ t ∈ p.types, t.decl = c.decl := by
  obtain ⟨t, ht, hidden, ⟨_, _, rfl⟩ | ⟨_, _, _, _, rfl⟩⟩ := Surface.classes_cases h
  · exact ⟨t, ht, rfl⟩
  · exact ⟨t, ht, rfl⟩

theorem node_of_surfaceProblem {p : Program} {caps : Capabilities} {d : Diagnostic}
    (h : d ∈ Surface.problems p caps) : d.node = none := by
  rcases List.mem_append.mp h with h | h
  · obtain ⟨found, hfound, hproblem⟩ := List.mem_filterMap.mp h
    obtain ⟨t, _, rfl⟩ := List.mem_map.mp hfound
    unfold ClassInfo.ofType at hproblem
    split at hproblem
    · cases hproblem
    · simp only at hproblem
      split at hproblem
      · cases hproblem
      · split at hproblem
        · cases hproblem
          rfl
        · cases hproblem
  · obtain ⟨c, _, hproblem⟩ := List.mem_filterMap.mp h
    unfold Surface.dispatchProblem? at hproblem
    simp only at hproblem
    split at hproblem
    · cases hproblem
      rfl
    · cases hproblem
      rfl
    · cases hproblem

theorem node_of_orphanNote {project : Project} {groups : List FunctionGroup}
    {used : List MethodId} {d : Diagnostic}
    (h : d ∈ StubDocument.orphanNotes project groups used) : d.node = none := by
  obtain ⟨f, _, rfl⟩ := List.mem_map.mp h
  rfl

/-- Every problem about a node is that of a node met in composing a
function or a header. -/
theorem Project.exists_visit_of_diagnostic {project : Project} {d : Diagnostic} {kind : String}
    (h : d ∈ project.generate.diagnostics) (hkind : d.node = some kind) :
    (∃ f ∈ project.surface.callables, ∃ owner, ∃ v ∈ project.functionVisits owner f.method,
      d ∈ v.own.problems) ∨
    ∃ c ∈ project.surface.classes, ∃ v ∈ project.classVisits c, d ∈ v.own.problems := by
  rcases List.mem_append.mp h with h | h
  · rcases List.mem_append.mp h with h | h
    · obtain ⟨group, hgroup, h⟩ := List.mem_flatMap.mp h
      obtain ⟨t, _, rfl⟩ := List.mem_map.mp hgroup
      obtain ⟨stub, hstub, h⟩ := List.mem_flatMap.mp h
      obtain ⟨f, hf, rfl⟩ := List.mem_map.mp hstub
      exact .inl ⟨f, List.mem_of_mem_filter hf, _, exists_visit_of_compose h hkind⟩
    · obtain ⟨c, hc, h⟩ := List.mem_flatMap.mp h
      exact .inr ⟨c, hc, exists_visit_of_header h⟩
  · rw [node_of_orphanNote h] at hkind
    cases hkind

/-- **Who a problem about a node is reported for.** Its subject is a
declared type or method whose own comment has a node of that kind, or a
method that inherits a parameter's or a result's description with such a
node. -/
theorem node_problems_attributed {models : List Model} {p : Program}
    (hbuild : Program.build models = .ok p) (currentDir : String) (config : Config) :
    ∃ generated, generate currentDir config models = .ok generated ∧
      ∀ d ∈ generated.diagnostics, ∀ kind, d.node = some kind →
        ∃ node : DocNode, node.kindName = kind ∧ p.Answers d.subject node := by
  refine ⟨_, generate_of_build hbuild currentDir config, fun d hd kind hkind => ?_⟩
  have hanswers : ∀ v : Visit, d ∈ v.own.problems → p.Answers v.setting.subject v.node →
      ∃ node : DocNode, node.kindName = kind ∧ p.Answers d.subject node := by
    intro v hv hanswer
    obtain ⟨message, rfl⟩ := Visit.exists_problem hv
    exact ⟨v.node, Option.some.inj hkind, hanswer⟩
  rcases List.mem_append.mp hd with hd | hd
  · rw [node_of_surfaceProblem hd] at hkind
    cases hkind
  · rcases Project.exists_visit_of_diagnostic hd hkind with
      ⟨f, hf, owner, v, hv, hproblem⟩ | ⟨c, hc, v, hv, hproblem⟩
    · have hm : f.method ∈ p.methods := Project.method_mem_of_callable hf
      exact hanswers v hproblem (Project.answers_of_functionVisits hm hv)
    · obtain ⟨t, ht, hdecl⟩ := Surface.exists_declared hc
      exact hanswers v hproblem (Project.answers_of_classVisits ⟨t, ht, hdecl⟩ hv)

/-! ## A problem that is reported for the heir

`Base` describes the parameter of `add` with a reference to nothing.
`Heir` inherits the comment and is the one that scripts see. -/

namespace Heirloom

def description : List DocNode := [.reference ⟨"Missing", none⟩]

def doc : DocComment := { tags := [.param "x" description] }

def baseAdd : Method :=
  ⟨0, 0, { name := "add", params := [⟨"x", .number .int false⟩],
           source := ⟨"src/A.java", 2, 0⟩, doc := some doc }⟩

def heirAdd : Method :=
  ⟨1, 1, { name := "add", marker := some {}, params := [⟨"x", .number .int false⟩],
           source := ⟨"src/A.java", 6, 0⟩, doc := some { body := [.inheritDoc] } }⟩

def base : TypeDecl :=
  { id := "a.Base", name := "Base", source := ⟨"src/A.java", 1, 0⟩, methods := [baseAdd.decl] }

def heir : TypeDecl :=
  { id := "a.Heir", name := "Heir", superclass := some "a.Base", source := ⟨"src/A.java", 5, 0⟩,
    doc := some { tags := [.blockTag "cc.module" [.text "heir"]] }, methods := [heirAdd.decl] }

def sample : Sample where
  models := [{ types := [base, heir] }]

def report : Diagnostic :=
  { level := .error, subject := ⟨"a.Heir#add", ⟨"src/A.java", 6, 0⟩⟩,
    message := "Cannot resolve reference.", node := some "reference" }

theorem heir_inherits : sample.program.inheritedDoc heirAdd = some (baseAdd, doc) := by cbv

/-- The description is captured through the inherited comment. -/
theorem captures_heir (resolve : Target → Option String) :
    ((Owner.method heirAdd).rendered sample.program resolve).captures
      = { params := [("x", description)] } := by
  have hinherited := inherited_methodSetting sample.program resolve heirAdd [1]
  rw [heir_inherits] at hinherited
  show (renderComment (methodSetting sample.program resolve heirAdd [1])
    { body := [.inheritDoc] }).captures = _
  simp only [renderComment, DocComment.render, renderAll, DocNode.render, hinherited]
  rfl

theorem report_mem_params (names : TypeNames) (resolve : Target → Option String)
    (owner : Option ClassInfo) :
    report ∈ (ParamsDoc.of names ((Owner.method heirAdd).setting sample.program resolve)
      { params := [("x", description)] } heirAdd.decl owner).problems := by
  have hvisible : visibleParams heirAdd.decl owner = [⟨"x", .number .int false⟩] := by
    simp [visibleParams, heirAdd, ValueType.isIrrelevant]
  have hsubject : ((Owner.method heirAdd).setting sample.program resolve).subject
      = report.subject := Owner.subject_setting sample.program resolve (.method heirAdd)
  simp only [ParamsDoc.of, hvisible, List.map_cons, List.map_nil]
  refine List.mem_flatMap.mpr ⟨_, List.mem_cons_self, ?_⟩
  have hparam : Captures.param? { params := [("x", description)] } "x" = some description := rfl
  simp only [ParamDoc.of, ValueType.isAny, Bool.false_eq_true, if_false, hparam]
  refine List.mem_append_right _ ?_
  show report ∈
    [{ report with subject := ((Owner.method heirAdd).setting sample.program resolve).subject }]
  rw [hsubject]
  exact List.mem_singleton_self report

theorem report_mem_generate : report ∈ sample.project.generate.diagnostics := by
  have hcompose : ∀ owner, report ∈
      (FunctionStub.compose sample.project owner ⟨heirAdd, "add", []⟩).problems := by
    intro owner
    have hparams := report_mem_params (sample.project.surface.typeNames sample.program)
      (sample.project.resolver (owner.map (·.id))) owner
    rw [← captures_heir] at hparams
    exact List.mem_append_left _ (List.mem_append_left _ (List.mem_append_right _ hparams))
  have hgroup : FunctionGroup.of sample.project 1 ∈ FunctionGroup.all sample.project :=
    List.mem_map_of_mem (by decide)
  refine List.mem_append_left _ (List.mem_append_left _ (List.mem_flatMap.mpr ⟨_, hgroup, ?_⟩))
  exact List.mem_flatMap.mpr ⟨_, List.mem_cons_self, hcompose _⟩

/-- The own comment of `add` in `Heir` is an inherit marker and no more. -/
theorem heir_has {node : DocNode} (h : (Owner.method heirAdd).Has node) : node = .inheritDoc := by
  obtain hmem | ⟨hparent, hinside⟩ := h
  · exact List.mem_singleton.mp hmem
  · obtain rfl := List.mem_singleton.mp hparent
    obtain hmem | ⟨hparent, _⟩ := hinside
    · cases hmem
    · cases hparent

/-- The report is for a method whose own comment has no reference. -/
theorem reported_for_heir :
    Program.build sample.models = .ok sample.program ∧
      (∃ generated, generate "/" {} sample.models = .ok generated ∧ report ∈ generated.diagnostics ∧
        ∃ node : DocNode,
          node.kindName = "reference" ∧ sample.program.Answers report.subject node) ∧
      ∀ owner, sample.program.Declares owner → owner.subject sample.program = report.subject →
        ∀ node, owner.Has node → node.kindName ≠ "reference" := by
  refine ⟨sample.build_models, ?_, ?_⟩
  · obtain ⟨generated, hgenerate, hattributed⟩ :=
      node_problems_attributed sample.build_models "/" {}
    have hreport : report ∈ generated.diagnostics := by
      cases hgenerate.symm.trans (generate_of_build sample.build_models "/" {})
      exact List.mem_append_right _ report_mem_generate
    exact ⟨generated, hgenerate, hreport, hattributed report hreport "reference" rfl⟩
  · intro owner hdeclares hsubject node hnode
    cases owner with
    | type decl =>
      obtain ⟨t, ht, rfl⟩ := hdeclares
      have hname : t.decl.id = "a.Heir#add" := congrArg Subject.name hsubject
      have ht : t ∈ [⟨0, base⟩, ⟨1, heir⟩] := ht
      obtain rfl | rfl := List.mem_pair.mp ht <;> exact absurd hname (by decide)
    | method m =>
      have hm : m ∈ [baseAdd, heirAdd] := hdeclares
      obtain rfl | rfl := List.mem_pair.mp hm
      · exact absurd hsubject (by decide)
      · rw [heir_has hnode]
        decide

end Heirloom

end ApiStubs
