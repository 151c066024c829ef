/-
ApiStubs.Proofs.Samples — small projects to run the theorems on.

A sample is some models that declare no type twice. That is all its
program needs: building cannot fail (`Sample.build_models`), and the
numbers in the program are those that building gives out. Where only one
class is documented, `ClassSample` has it as well.
-/
import ApiStubs.Stub.Document
import ApiStubs.Proofs.TableTheorems

namespace ApiStubs

/-- Models that build, and what to generate for them. -/
structure Sample where
  models : List Model
  config : Config := {}
  distinct : ((models.flatMap (·.types)).map (·.id)).Nodup := by decide

namespace Sample

/-- The program of a sample. -/
def program (s : Sample) : Program :=
  match Program.build s.models with
  | .ok p => p
  | .error _ => {}

/-- The sample as a project in the top directory. -/
def project (s : Sample) : Project :=
  Project.of "/" s.config s.program

theorem build_models (s : Sample) : Program.build s.models = .ok s.program := by
  obtain ⟨p, hbuild, _⟩ := Program.describes_build s.distinct
  rw [program, hbuild]

end Sample

/-- A sample that documents one class. -/
structure ClassSample extends Sample where
  documented : ClassInfo
  only : (Surface.documentation toSample.program config.capabilities).filterMap
    Surface.documentedClass? = [documented] := by rfl

namespace ClassSample

theorem classes_eq (s : ClassSample) : s.project.surface.classes = [s.documented] := by
  show List.mergeSort _ _ = _
  rw [s.only, List.mergeSort_singleton]

theorem documented_mem (s : ClassSample) : s.documented ∈ s.project.surface.classes := by
  rw [s.classes_eq]
  exact List.mem_singleton_self _

end ClassSample

end ApiStubs
