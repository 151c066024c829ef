/-
ApiStubs.Proofs.FailureTheorems — what a run that fails leaves behind.

A run can fail in every stage: a file cannot be read, does not hold a
model, repeats a type, or cannot be written. The stages are gone through
one after the other, each for all files, so that which failure is reported
depends on the stage first and then on the order of the files. `Fault`
says what is wrong with one file, and `FirstFault` what loading reports of
many (`loadAll_eq_error_iff`); which type is reported as repeated is
`Program.FirstRepeat`.

`run_fails_or_writes` is the statement about a run: up to the first write
a failure leaves everything as it was, and after that only writing fails.
-/
import ApiStubs.Proofs.ArtifactTheorems

namespace ApiStubs

/-! ## One after the other -/

section Traversal

variable {α β γ ε : Type} {f : α → Except ε β} {a : Except ε β} {k : β → Except ε γ} {e : ε}

theorem bind_eq_ok_iff {c : γ} : (a >>= k) = .ok c ↔ ∃ b, a = .ok b ∧ k b = .ok c := by
  cases a <;> simp [bind, Except.bind]

theorem bind_eq_error_iff :
    (a >>= k) = .error e ↔ a = .error e ∨ ∃ b, a = .ok b ∧ k b = .error e := by
  cases a <;> simp [bind, Except.bind]

theorem mapM_eq_ok_iff {xs : List α} {ys : List β} :
    xs.mapM f = .ok ys ↔ List.Forall₂ (fun x y => f x = .ok y) xs ys := by
  induction xs generalizing ys with
  | nil =>
    rw [List.forall₂_nil_left_iff]
    exact ⟨fun h => (Except.ok.inj h).symm, fun h => congrArg Except.ok h.symm⟩
  | cons x xs ih =>
    simp only [List.mapM_cons, bind_eq_ok_iff, ih]
    constructor
    · rintro ⟨y, hx, rest, hxs, hys⟩
      cases hys
      exact .cons hx hxs
    · rintro (_ | ⟨hx, hxs⟩)
      exact ⟨_, hx, _, hxs, rfl⟩

/-- The first failure decides. -/
theorem mapM_eq_error_iff {xs : List α} :
    xs.mapM f = .error e ↔ ∃ before x after, xs = before ++ x :: after ∧
      (∀ b ∈ before, ∃ y, f b = .ok y) ∧ f x = .error e := by
  induction xs with
  | nil => simp [pure, Except.pure]
  | cons first xs ih =>
    rw [List.mapM_cons, bind_eq_error_iff]
    constructor
    · rintro (hfirst | ⟨y, hfirst, hrest⟩)
      · exact ⟨[], first, xs, rfl, nofun, hfirst⟩
      · rcases bind_eq_error_iff.mp hrest with hxs | ⟨ys, -, hpure⟩
        · obtain ⟨before, x, after, rfl, hbefore, hx⟩ := ih.mp hxs
          exact ⟨first :: before, x, after, rfl,
            List.forall_mem_cons.mpr ⟨⟨y, hfirst⟩, hbefore⟩, hx⟩
        · cases hpure
    · rintro ⟨before, x, after, hsplit, hbefore, hx⟩
      match before, hsplit with
      | [], hsplit =>
        cases hsplit
        exact .inl hx
      | b :: before, hsplit =>
        cases hsplit
        obtain ⟨⟨y, hy⟩, hbefore⟩ := List.forall_mem_cons.mp hbefore
        have hxs := ih.mpr ⟨before, x, after, rfl, hbefore, hx⟩
        exact .inr ⟨y, hy, bind_eq_error_iff.mpr (.inl hxs)⟩

end Traversal

/-! ## Loading -/

namespace Inputs

variable {fs : FileSystem} {path : String} {paths : List String} {model : Model}
  {models : List Model} {e : Error}

/-- Does the path lead to a text that is this model? -/
def Holds (fs : FileSystem) (path : String) (model : Model) : Prop :=
  ∃ text, fs.readText? path = some text ∧ Model.parse? text = some model

/-- What is wrong with a path that gives no model. -/
inductive Fault (fs : FileSystem) (path : String) : Error → Prop
  | unreadable : fs.readText? path = none → Fault fs path (.unreadable path)
  | invalid {text : String} : fs.readText? path = some text → Model.parse? text = none →
      Fault fs path (.invalidModel path)

/-- What is wrong with the first path that gives no model. -/
def FirstFault (fs : FileSystem) (paths : List String) (e : Error) : Prop :=
  ∃ before path after, paths = before ++ path :: after ∧
    (∀ earlier ∈ before, ∃ model, Holds fs earlier model) ∧ Fault fs path e

theorem load_eq_ok_iff : load fs path = .ok model ↔ Holds fs path model := by
  unfold load Holds
  cases fs.readText? path with
  | none => simp
  | some text => cases hparse : Model.parse? text <;> simp [hparse]

theorem load_eq_error_iff : load fs path = .error e ↔ Fault fs path e := by
  unfold load
  constructor
  · intro h
    split at h
    · next hread =>
      cases h
      exact .unreadable hread
    · next text hread =>
      split at h
      · cases h
      · next hparse =>
        cases h
        exact .invalid hread hparse
  · rintro (hread | ⟨hread, hparse⟩)
    · rw [hread]
    · simp [hread, hparse]

theorem loadAll_eq_ok_iff :
    loadAll fs paths = .ok models ↔ List.Forall₂ (Holds fs) paths models := by
  rw [loadAll, mapM_eq_ok_iff]
  simp only [load_eq_ok_iff]

theorem loadAll_eq_error_iff : loadAll fs paths = .error e ↔ FirstFault fs paths e := by
  rw [loadAll, mapM_eq_error_iff]
  simp only [load_eq_ok_iff, load_eq_error_iff, FirstFault]

end Inputs

/-! ## Generating -/

section Generating

variable {fs : FileSystem} {reported : List Diagnostic} {config : Config} {paths : List String}
  {models : List Model} {e : Error} {name : String}

theorem exists_firstFault_or_holds (fs : FileSystem) (paths : List String) :
    (∃ e, Inputs.FirstFault fs paths e) ∨
      ∃ models, List.Forall₂ (Inputs.Holds fs) paths models := by
  cases hload : Inputs.loadAll fs paths with
  | error e => exact .inl ⟨e, Inputs.loadAll_eq_error_iff.mp hload⟩
  | ok models => exact .inr ⟨models, Inputs.loadAll_eq_ok_iff.mp hload⟩

theorem runReporting_of_firstFault (h : Inputs.FirstFault fs paths e) :
    runReporting fs reported config paths = (fs, reported, .error e) := by
  have hload := Inputs.loadAll_eq_error_iff.mpr h
  simp [runReporting, generateFrom, hload, bind, Except.bind]

theorem generateFrom_of_holds (h : List.Forall₂ (Inputs.Holds fs) paths models) :
    generateFrom fs config paths = generate fs.currentPath config models := by
  rw [generateFrom, Inputs.loadAll_eq_ok_iff.mpr h]
  rfl

theorem runReporting_of_firstRepeat (h : List.Forall₂ (Inputs.Holds fs) paths models)
    (hrepeat : Program.FirstRepeat (models.flatMap (·.types)) name) :
    runReporting fs reported config paths = (fs, reported, .error (.duplicateType name)) := by
  rw [runReporting, generateFrom_of_holds h, generate, hrepeat.build_eq]
  rfl

/-- Where no type is declared twice, every documented class gets its stub,
and all of them are handed over. -/
theorem runReporting_of_nodup (reported : List Diagnostic) (config : Config)
    (h : List.Forall₂ (Inputs.Holds fs) paths models)
    (hnodup : ((models.flatMap (·.types)).map (·.id)).Nodup) :
    ∃ p generated, Program.build models = .ok p ∧
      generate fs.currentPath config models = .ok generated ∧
      generated.stubs.Perm ((Project.of fs.currentPath config p).surface.classes.map
        (Project.of fs.currentPath config p).stub) ∧
      runReporting fs reported config paths =
        ((writeStubs fs config.output generated.stubs).1, reported ++ generated.diagnostics,
          (writeStubs fs config.output generated.stubs).2) := by
  obtain ⟨p, hbuild, -⟩ := Program.describes_build hnodup
  have hgenerate := generate_of_build hbuild fs.currentPath config
  refine ⟨p, _, hbuild, hgenerate, Project.stubs_generate _, ?_⟩
  rw [runReporting, generateFrom_of_holds h, hgenerate]

end Generating

/-! ## Writing -/

theorem writeEach_result (dir : String) (stubs : List StubDocument) :
    ∀ (fs : FileSystem) (written : Nat),
      (writeEach fs dir written stubs).2 = .ok (written + stubs.length) ∨
        ∃ stub ∈ stubs, (writeEach fs dir written stubs).2
          = .error (.unwritable (Path.join dir stub.fileName)) := by
  induction stubs with
  | nil => exact fun fs written => .inl rfl
  | cons stub stubs ih =>
    intro fs written
    rw [writeEach_cons]
    split
    · next next _ =>
      rcases ih next (written + 1) with hok | ⟨later, hlater, herror⟩
      · left
        rw [hok, List.length_cons]
        congr 1
        omega
      · exact .inr ⟨later, List.mem_cons_of_mem _ hlater, herror⟩
    · exact .inr ⟨stub, List.mem_cons_self, rfl⟩

theorem writeStubs_result (fs : FileSystem) (dir : String) (stubs : List StubDocument) :
    (writeStubs fs dir stubs).2 = .ok (stubs.filter (!·.hidden)).length ∨
      (writeStubs fs dir stubs).2 = .error (.noOutputDirectory dir) ∨
      ∃ stub ∈ stubs.filter (!·.hidden), (writeStubs fs dir stubs).2
        = .error (.unwritable (Path.join dir stub.fileName)) := by
  unfold writeStubs
  split
  · next made _ =>
    rcases writeEach_result dir (stubs.filter (!·.hidden)) made 0 with hok | herror
    · exact .inl (by rw [hok, Nat.zero_add])
    · exact .inr (.inr herror)
  · exact .inr (.inl rfl)

/-! ## Runs -/

/-- **A run fails before it writes, or in writing.** If some path gives no
model, the first such path decides the error; else, if some type is
declared twice, the first repetition does. In both cases the file system
and the report are what they were. Otherwise the stubs of all documented
classes are handed over to be written, whatever was reported about them,
and only the output directory or a visible stub can still fail. -/
theorem run_fails_or_writes (fs : FileSystem) (reported : List Diagnostic) (config : Config)
    (paths : List String) :
    (∃ e, Inputs.FirstFault fs paths e ∧
      runReporting fs reported config paths = (fs, reported, .error e)) ∨
    ∃ models, List.Forall₂ (Inputs.Holds fs) paths models ∧
      ((∃ name, Program.FirstRepeat (models.flatMap (·.types)) name ∧
        runReporting fs reported config paths = (fs, reported, .error (.duplicateType name))) ∨
      (((models.flatMap (·.types)).map (·.id)).Nodup ∧
        ∃ p generated, Program.build models = .ok p ∧
          generate fs.currentPath config models = .ok generated ∧
          generated.stubs.Perm ((Project.of fs.currentPath config p).surface.classes.map
            (Project.of fs.currentPath config p).stub) ∧
          ∃ after result, writeStubs fs config.output generated.stubs = (after, result) ∧
            runReporting fs reported config paths
              = (after, reported ++ generated.diagnostics, result) ∧
            (result = .ok generated.visible.length ∨
              result = .error (.noOutputDirectory config.output) ∨
              ∃ stub ∈ generated.visible,
                result = .error (.unwritable (Path.join config.output stub.fileName))))) := by
  rcases exists_firstFault_or_holds fs paths with ⟨e, hfault⟩ | ⟨models, hmodels⟩
  · exact .inl ⟨e, hfault, runReporting_of_firstFault hfault⟩
  · refine .inr ⟨models, hmodels, ?_⟩
    by_cases hnodup : ((models.flatMap (·.types)).map (·.id)).Nodup
    · obtain ⟨p, generated, hbuild, hgenerate, hstubs, hrun⟩ :=
        runReporting_of_nodup reported config hmodels hnodup
      exact .inr ⟨hnodup, p, generated, hbuild, hgenerate, hstubs, _, _, rfl, hrun,
        writeStubs_result _ _ _⟩
    · obtain ⟨name, hrepeat⟩ := Program.exists_firstRepeat hnodup
      exact .inl ⟨name, hrepeat, runReporting_of_firstRepeat hmodels hrepeat⟩

end ApiStubs
