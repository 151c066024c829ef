/-
ApiStubs.Proofs.PlacementTheorems — stubs are made one after another.

Making a stub marks the functions of every group that goes into it as
used, and the marks pass from each stub to the next. The stub itself does
not read them (`run_build`), so the stubs of a run are those of its
classes taken one by one (`Project.stubs_generate`). What is marked after
the last stub is what some class has among its groups
(`Project.mem_used`).
-/
import ApiStubs.Stub.Document
import ApiStubs.Proofs.OverrideTheorems

namespace ApiStubs

/-! ## One stub -/

namespace StubDocument

/-- The stub that is made of a class, given all groups of functions. -/
def of (project : Project) (groups : List FunctionGroup) (c : ClassInfo) : StubDocument :=
  ((build project groups c).run []).1

/-- The functions of the groups that go into the stub of a class, in
order. -/
def placed (project : Project) (groups : List FunctionGroup) (c : ClassInfo) :
    List FunctionStub :=
  (FunctionGroup.applicable project.program.graph c groups).flatMap FunctionGroup.inSourceOrder

variable {project : Project} {groups : List FunctionGroup}

theorem run_functionsFor (c : ClassInfo) (used : List MethodId) :
    (FunctionGroup.functionsFor project.program.graph c groups).run used
      = (FunctionGroup.withoutOverridden [] (placed project groups c),
          FunctionGroup.marked used (placed project groups c)) :=
  FunctionGroup.run_place _ _ _

theorem entries_of (c : ClassInfo) :
    (of project groups c).entries
      = (FunctionGroup.withoutOverridden [] (placed project groups c)).map
          (FunctionStub.entry (qualifier c)) := by
  show (((FunctionGroup.functionsFor project.program.graph c groups).run []).1).map _ = _
  rw [run_functionsFor]

/-- The marks have no part in a stub. -/
theorem run_build (c : ClassInfo) (used : List MethodId) :
    (build project groups c).run used
      = (of project groups c, FunctionGroup.marked used (placed project groups c)) := by
  have hrun : ∀ used, (build project groups c).run used
      = ({ name := c.name, hidden := c.hidden, header := headerOf project c,
           entries := ((FunctionGroup.functionsFor project.program.graph c groups).run used).1.map
             (FunctionStub.entry (qualifier c)) },
          ((FunctionGroup.functionsFor project.program.graph c groups).run used).2) :=
    fun _ => rfl
  rw [of, hrun used, hrun [], run_functionsFor, run_functionsFor]

/-! ## One after another -/

theorem run_mapM_build (cs : List ClassInfo) (used : List MethodId) :
    (cs.mapM (build project groups)).run used
      = (cs.map (of project groups),
          FunctionGroup.marked used (cs.flatMap (placed project groups))) := by
  induction cs generalizing used with
  | nil => rfl
  | cons c cs ih =>
    have hmarked : FunctionGroup.marked used ((c :: cs).flatMap (placed project groups))
        = FunctionGroup.marked (FunctionGroup.marked used (placed project groups c))
            (cs.flatMap (placed project groups)) :=
      List.foldl_append
    rw [List.mapM_cons, StateT.run_bind, run_build, hmarked]
    exact congrArg (fun rest => (of project groups c :: rest.1, rest.2))
      (ih (FunctionGroup.marked used (placed project groups c)))

end StubDocument

/-! ## A run -/

namespace Project

variable {project : Project}

/-- The stub of a class. -/
def stub (project : Project) (c : ClassInfo) : StubDocument :=
  StubDocument.of project (FunctionGroup.all project) c

/-- The functions that are used when all stubs are made. -/
def used (project : Project) : List MethodId :=
  ((StubDocument.buildAll project (FunctionGroup.all project)).run []).2

theorem run_buildAll :
    (StubDocument.buildAll project (FunctionGroup.all project)).run []
      = ((project.surface.classes.map project.stub).mergeSort fun a b => a.name ≤ b.name,
          FunctionGroup.marked [] (project.surface.classes.flatMap
            (StubDocument.placed project (FunctionGroup.all project)))) := by
  rw [StubDocument.buildAll, StateT.run_bind, StubDocument.run_mapM_build]
  rfl

theorem stubs_generate_eq (project : Project) :
    project.generate.stubs
      = (project.surface.classes.map project.stub).mergeSort fun a b => a.name ≤ b.name :=
  congrArg Prod.fst run_buildAll

/-- **Every class gets its stub**, whatever the stubs made before it have
used. -/
theorem stubs_generate (project : Project) :
    project.generate.stubs.Perm (project.surface.classes.map project.stub) := by
  rw [stubs_generate_eq]
  exact List.mergeSort_perm _ _

theorem stub_mem_generate {c : ClassInfo} (hc : c ∈ project.surface.classes) :
    project.stub c ∈ project.generate.stubs :=
  project.stubs_generate.mem_iff.mpr (List.mem_map_of_mem hc)

theorem diagnostics_generate (project : Project) :
    project.generate.diagnostics
      = (FunctionGroup.all project).flatMap (·.problems) ++ StubDocument.headerProblems project
          ++ StubDocument.orphanNotes project (FunctionGroup.all project) project.used :=
  rfl

/-- A function is used if a group of some class has it. -/
theorem mem_used {id : MethodId} :
    id ∈ project.used ↔ ∃ c ∈ project.surface.classes,
      ∃ f ∈ StubDocument.placed project (FunctionGroup.all project) c,
        f.callable.method.id = id := by
  rw [used, run_buildAll, FunctionGroup.mem_marked]
  simp only [List.not_mem_nil, false_or, List.mem_flatMap]
  constructor
  · rintro ⟨f, ⟨c, hc, hf⟩, hid⟩
    exact ⟨c, hc, f, hf, hid⟩
  · rintro ⟨c, hc, f, hf, hid⟩
    exact ⟨f, ⟨c, hc, hf⟩, hid⟩

end Project

end ApiStubs
