/-
ApiStubs.Proofs.ReportTheorems — how serious the reported problems are.

Rendering documentation reports the problems of the nodes it meets, and
these are errors (`Owner.level_of_rendered`, `Owner.level_of_description`).
Composing functions adds errors and warnings (`noNotes_compose`). So the
notes of a run are those about functions without a stub, which
`notes_generate` states as an equation.
-/
import ApiStubs.Proofs.PlacementTheorems
import ApiStubs.Proofs.StubVisitTheorems

namespace ApiStubs

/-! ## Rendering -/

theorem Owner.level_of_rendered {p : Program} {resolve : Target → Option String}
    (owner : Owner) : ∀ d ∈ (owner.rendered p resolve).problems, d.level = .error := by
  intro d hd
  rw [Owner.problems_rendered] at hd
  obtain ⟨v, _, hd⟩ := List.mem_flatMap.mp hd
  obtain ⟨message, rfl⟩ := Visit.exists_problem hd
  rfl

theorem Owner.level_of_description {p : Program} {resolve : Target → Option String}
    {owner : Owner} {described : Option (List DocNode)} :
    ∀ d ∈ (renderDescription (owner.setting p resolve) described).problems, d.level = .error := by
  intro d hd
  obtain ⟨_, _, v, _, hd⟩ := Owner.exists_visit_of_description hd
  obtain ⟨message, rfl⟩ := Visit.exists_problem hd
  rfl

/-! ## Functions -/

/-- None of the diagnostics is a note. -/
def NoNotes (ds : List Diagnostic) : Prop :=
  ∀ d ∈ ds, d.level ≠ .note

theorem noNotes_nil : NoNotes [] := by
  intro d hd
  cases hd

theorem NoNotes.append {as bs : List Diagnostic} (ha : NoNotes as) (hb : NoNotes bs) :
    NoNotes (as ++ bs) := by
  intro d hd
  rcases List.mem_append.mp hd with hd | hd
  · exact ha d hd
  · exact hb d hd

theorem noNotes_flatMap {α : Type} {xs : List α} {f : α → List Diagnostic}
    (h : ∀ x ∈ xs, NoNotes (f x)) : NoNotes (xs.flatMap f) := by
  intro d hd
  obtain ⟨x, hx, hd⟩ := List.mem_flatMap.mp hd
  exact h x hx d hd

theorem noNotes_of_errors {ds : List Diagnostic} (h : ∀ d ∈ ds, d.level = .error) :
    NoNotes ds := by
  intro d hd
  rw [h d hd]
  decide

theorem noNotes_typeProblems (subject : Subject) (t : TypeText) :
    NoNotes (typeProblems subject t) := by
  apply noNotes_of_errors
  intro d hd
  obtain ⟨what, _, rfl⟩ := List.mem_map.mp hd
  rfl

section Composed

variable {p : Program} {resolve : Target → Option String} (owner : Owner)

theorem noNotes_paramDoc (names : TypeNames) (captures : Captures) (param : Param) :
    NoNotes (ParamDoc.of names (owner.setting p resolve) captures param).problems := by
  unfold ParamDoc.of
  split
  · intro d hd
    obtain rfl := List.mem_singleton.mp hd
    nofun
  · exact (noNotes_typeProblems _ _).append (noNotes_of_errors Owner.level_of_description)

theorem noNotes_paramsDoc (names : TypeNames) (captures : Captures) (decl : MethodDecl)
    (c : Option ClassInfo) :
    NoNotes (ParamsDoc.of names (owner.setting p resolve) captures decl c).problems := by
  unfold ParamsDoc.of
  split
  · split
    · intro d hd
      obtain rfl := List.mem_singleton.mp hd
      nofun
    · exact noNotes_nil
  · apply noNotes_flatMap
    intro doc hdoc
    obtain ⟨param, _, rfl⟩ := List.mem_map.mp hdoc
    exact noNotes_paramDoc owner names captures param

theorem noNotes_returnWarnings (subject : Subject) (hasReturn : Bool) (type : ValueType) :
    NoNotes (returnWarnings subject hasReturn type) := by
  intro d hd
  unfold returnWarnings at hd
  split at hd
  · obtain rfl := List.mem_singleton.mp hd
    nofun
  · split at hd
    · obtain rfl := List.mem_singleton.mp hd
      nofun
    · cases hd

theorem noNotes_returnLine (names : TypeNames) (captures : Captures) (decl : MethodDecl) :
    NoNotes (returnLine names (owner.setting p resolve) captures decl).problems := by
  unfold returnLine
  split
  · exact noNotes_nil
  · exact (noNotes_typeProblems _ _).append (noNotes_of_errors Owner.level_of_description)

end Composed

theorem noNotes_compose (project : Project) (owner : Option ClassInfo) (c : Callable) :
    NoNotes (FunctionStub.compose project owner c).problems := by
  refine (NoNotes.append (NoNotes.append (NoNotes.append ?_ ?_) ?_) ?_)
  · exact noNotes_of_errors (Owner.method c.method).level_of_rendered
  · exact noNotes_paramsDoc (.method c.method) _ _ _ _
  · exact noNotes_returnWarnings _ _ _
  · exact noNotes_returnLine (.method c.method) _ _ _

/-! ## A whole run -/

theorem noNotes_groups (project : Project) :
    NoNotes ((FunctionGroup.all project).flatMap (·.problems)) := by
  apply noNotes_flatMap
  intro group hgroup
  obtain ⟨t, _, rfl⟩ := List.mem_map.mp hgroup
  apply noNotes_flatMap
  intro f hf
  obtain ⟨c, _, rfl⟩ := List.mem_map.mp hf
  exact noNotes_compose project _ c

theorem noNotes_headers (project : Project) : NoNotes (StubDocument.headerProblems project) := by
  apply noNotes_flatMap
  intro c _
  exact noNotes_of_errors (Owner.type c.decl).level_of_rendered

theorem noNotes_documentation (p : Program) (caps : Capabilities) :
    NoNotes ((Surface.documentation p caps).filterMap Surface.documentationProblem?) := by
  apply noNotes_of_errors
  intro d hd
  obtain ⟨found, hfound, hproblem⟩ := List.mem_filterMap.mp hd
  obtain ⟨t, _, rfl⟩ := List.mem_map.mp hfound
  unfold ClassInfo.ofType at hproblem
  split at hproblem
  · cases hproblem
  · simp only at hproblem
    split at hproblem
    · cases hproblem
    · split at hproblem
      · cases hproblem
        rfl
      · cases hproblem

theorem noNotes_dispatch (s : Surface) (p : Program) :
    NoNotes (s.callables.filterMap (s.dispatchProblem? p)) := by
  apply noNotes_of_errors
  intro d hd
  obtain ⟨c, _, hproblem⟩ := List.mem_filterMap.mp hd
  unfold Surface.dispatchProblem? at hproblem
  simp only at hproblem
  split at hproblem
  · cases hproblem
    rfl
  · cases hproblem
    rfl
  · cases hproblem

/-- The notes among some diagnostics. -/
def notes (ds : List Diagnostic) : List Diagnostic :=
  ds.filter (·.level = .note)

theorem notes_append (as bs : List Diagnostic) : notes (as ++ bs) = notes as ++ notes bs :=
  List.filter_append ..

theorem NoNotes.notes_eq {ds : List Diagnostic} (h : NoNotes ds) : notes ds = [] := by
  rw [notes, List.filter_eq_nil_iff]
  intro d hd
  simpa using h d hd

theorem notes_orphanNotes (project : Project) (groups : List FunctionGroup)
    (used : List MethodId) :
    notes (StubDocument.orphanNotes project groups used)
      = StubDocument.orphanNotes project groups used := by
  rw [notes, List.filter_eq_self]
  intro d hd
  obtain ⟨f, _, rfl⟩ := List.mem_map.mp hd
  rfl

/-- The notes of a run are those about functions that no stub has used. -/
theorem notes_generate {p : Program} {currentDir : String} {config : Config} :
    let project := Project.of currentDir config p
    notes (Surface.problems p config.capabilities ++ project.generate.diagnostics)
      = StubDocument.orphanNotes project (FunctionGroup.all project) project.used := by
  intro project
  have hsurface : NoNotes (Surface.problems p config.capabilities) :=
    (noNotes_documentation p config.capabilities).append (noNotes_dispatch _ p)
  have hproject := (noNotes_groups project).append (noNotes_headers project)
  rw [notes_append, hsurface.notes_eq, List.nil_append, Project.diagnostics_generate, notes_append,
    hproject.notes_eq, List.nil_append, notes_orphanNotes]

end ApiStubs
