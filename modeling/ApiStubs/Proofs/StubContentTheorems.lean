/-
ApiStubs.Proofs.StubContentTheorems — what stands in the stub of a class.

The stub of a class has the first versions of the functions that apply to
the class, in order (`stub_shows_first_versions`). Everything else about
the contents of a stub is read off that list: whether a given function is
shown depends on the functions before it alone (`Numbered.mem_shown`), and
what the class declares itself comes before all else
(`Numbered.owner_of_overrides_own`).

A class owns what the undocumented types below it declare, and a type
below the class is higher than what the class inherits. An adopted
function therefore stands BEFORE an inherited one that it overrides, and
the stub shows it instead. `inherited_shown_iff` has the exact condition
under which an inherited function is shown.
-/
import ApiStubs.Proofs.PlacementTheorems
import ApiStubs.Proofs.Samples
import ApiStubs.Proofs.StubOrderTheorems

namespace ApiStubs

namespace Project

/-- The entry of a function in the stub of a class. -/
def entryIn (project : Project) (c : ClassInfo) (f : Callable) : String :=
  (project.composed f).entry (StubDocument.qualifier c)

/-- The functions whose entries stand in the stub of a class. -/
def shown (project : Project) (c : ClassInfo) : List Callable :=
  ((FunctionGroup.functionsFor project.program.graph c (FunctionGroup.all project)).run []).1.map
    (·.callable)

variable {project : Project} {c : ClassInfo}

theorem Numbered.withoutOverridden_placed (numbered : project.Numbered) :
    FunctionGroup.withoutOverridden [] (StubDocument.placed project (FunctionGroup.all project) c)
      = (Callable.firstVersions (project.applicable c)).map project.composed := by
  rw [StubDocument.placed, FunctionGroup.applicable_flatMap numbered,
    FunctionGroup.withoutOverridden_map (composed_callable project)]

theorem Numbered.shown_eq (numbered : project.Numbered) :
    project.shown c = Callable.firstVersions (project.applicable c) := by
  rw [shown, StubDocument.run_functionsFor, numbered.withoutOverridden_placed, List.map_map]
  exact List.map_id _

theorem Numbered.entries_stub (numbered : project.Numbered) :
    (project.stub c).entries = (project.shown c).map (project.entryIn c) := by
  rw [numbered.shown_eq, stub, StubDocument.entries_of, numbered.withoutOverridden_placed,
    List.map_map]
  rfl

/-- A function is shown if it applies and nothing before it overrides it. -/
theorem Numbered.mem_shown (numbered : project.Numbered) {f : Callable} :
    f ∈ project.shown c ↔ f ∈ project.applicable c ∧ ∀ e ∈ project.applicable c,
      project.functionKey c e < project.functionKey c f → e.overrides f = false := by
  rw [numbered.shown_eq]
  exact Callable.mem_firstVersions_iff numbered.pairwise_applicable

theorem Numbered.callable_ext (numbered : project.Numbered) {f g : Callable}
    (hf : f ∈ project.surface.callables) (hg : g ∈ project.surface.callables)
    (hid : f.method.id = g.method.id) : f = g := by
  have hnodup : (project.surface.callables.map (·.method.id)).Nodup :=
    List.pairwise_map.mpr (numbered.increasing.imp Nat.ne_of_lt)
  exact List.inj_on_of_nodup_map hnodup hf hg hid

theorem Numbered.mem_ids (numbered : project.Numbered) {fs : List Callable}
    (hsub : fs ⊆ project.surface.callables) {f : Callable} (hf : f ∈ project.surface.callables) :
    f.method.id ∈ fs.map (·.method.id) ↔ f ∈ fs := by
  constructor
  · intro h
    obtain ⟨g, hg, hid⟩ := List.mem_map.mp h
    rw [← numbered.callable_ext (hsub hg) hf hid]
    exact hg
  · exact List.mem_map_of_mem

/-- In a strictly ordered list, a function occurs once or not at all. -/
theorem Numbered.count_ids {κ : Type} [LinearOrder κ] {key : Callable → κ}
    (numbered : project.Numbered) {fs : List Callable} (hsub : fs ⊆ project.surface.callables)
    (ordered : fs.Pairwise fun a b => key a < key b) {f : Callable}
    (hf : f ∈ project.surface.callables) :
    (fs.map (·.method.id)).count f.method.id = 1 ↔ f ∈ fs := by
  have hnodup : (fs.map (·.method.id)).Nodup := by
    refine List.pairwise_map.mpr (ordered.imp_of_mem fun {a b} ha hb hlt hid => ?_)
    rw [numbered.callable_ext (hsub ha) (hsub hb) hid] at hlt
    exact lt_irrefl _ hlt
  rw [← numbered.mem_ids hsub hf]
  constructor
  · intro hone
    exact List.count_pos_iff.mp (by rw [hone]; exact Nat.one_pos)
  · exact List.count_eq_one_of_mem hnodup

theorem Numbered.shown_subset (numbered : project.Numbered) :
    project.shown c ⊆ project.surface.callables := by
  intro f hf
  exact (mem_applicable.mp (numbered.mem_shown.mp hf).1).1

theorem Numbered.pairwise_shown (numbered : project.Numbered) :
    (project.shown c).Pairwise fun a b =>
      project.functionKey c a < project.functionKey c b := by
  rw [numbered.shown_eq]
  exact numbered.pairwise_applicable.sublist (Callable.firstVersions_sublist _)

/-- What the class declares itself comes before everything else. -/
theorem functionKey_lt_of_own {f g : Callable} (hf : f.method.owner = c.id)
    (hg : g.method.owner ≠ c.id) : project.functionKey c f < project.functionKey c g := by
  refine Prod.Lex.toLex_lt_toLex.mpr (.inl (Prod.Lex.toLex_lt_toLex.mpr (.inl ?_)))
  have hf' : (f.method.owner != c.id) = false := by simpa using hf
  have hg' : (g.method.owner != c.id) = true := by simpa using hg
  simp only [hf', hg']
  decide

theorem mem_applicable_of_own {f : Callable} (hf : f ∈ project.surface.callables)
    (howner : f.method.owner = c.id) : f ∈ project.applicable c := by
  refine mem_applicable.mpr ⟨hf, applies_iff.mpr (.inr ?_)⟩
  simp [TypeGraph.isSubtype, howner]

/-- What is shown for a function of the class itself is of the class. -/
theorem Numbered.owner_of_overrides_own (numbered : project.Numbered) {f g : Callable}
    (hf : f ∈ project.surface.callables) (howner : f.method.owner = c.id)
    (hg : g ∈ project.shown c) (hover : g.overrides f = true) : g.method.owner = c.id := by
  obtain ⟨_, hfirst⟩ := numbered.mem_shown.mp hg
  by_contra hne
  have hnot : f.overrides g = false :=
    hfirst f (mem_applicable_of_own hf howner) (functionKey_lt_of_own howner hne)
  have hfg : f.overrides g = true := MethodDecl.overrides_symm hover
  rw [hnot] at hfg
  cases hfg

end Project

/-! ## A hierarchy with an adopted function

`Shared` declares `f`, the documented `Drive` is below it and inherits
`f`, and the undocumented `Special` is below `Drive` and declares `f`
again, so that `Drive` adopts that one too. -/

namespace Adoption

def shared : TypeDecl :=
  { id := "a.Shared", name := "Shared", kind := .interfaceType, source := ⟨"src/A.java", 1, 0⟩,
    methods := [{ name := "f", marker := some {}, source := ⟨"src/A.java", 2, 0⟩ }] }

def drive : TypeDecl :=
  { id := "a.Drive", name := "Drive", interfaces := ["a.Shared"], source := ⟨"src/A.java", 5, 0⟩,
    doc := some { tags := [.blockTag "cc.module" [.text "drive"]] } }

def special : TypeDecl :=
  { id := "a.Special", name := "Special", superclass := some "a.Drive",
    source := ⟨"src/A.java", 10, 0⟩,
    methods := [{ name := "f", marker := some {}, source := ⟨"src/A.java", 11, 0⟩ }] }

def driveClass : ClassInfo := ClassInfo.ofAuxiliary ⟨1, drive⟩ false none "drive"

set_option maxRecDepth 2000 in
def sample : ClassSample where
  models := [{ types := [shared, drive, special] }]
  documented := driveClass

def inherited : Callable :=
  ⟨⟨0, 0, { name := "f", marker := some {}, source := ⟨"src/A.java", 2, 0⟩ }⟩, "f", []⟩

def adopted : Callable :=
  ⟨⟨1, 2, { name := "f", marker := some {}, source := ⟨"src/A.java", 11, 0⟩ }⟩, "f", []⟩

theorem callables_eq : sample.project.surface.callables = [inherited, adopted] := rfl

theorem drive_below_shared : sample.program.graph.isSubtype 1 0 = true := by cbv

theorem drive_not_below_special : sample.program.graph.isSubtype 1 2 = false := by cbv

theorem owner_special :
    sample.project.surface.owner? sample.program.graph 2 = some driveClass := by
  unfold Surface.owner? Surface.ownerFrom Surface.ownerFrom
  simp only [Surface.class?, sample.classes_eq]
  rfl

end Adoption

/-! ## All of the stubs -/

theorem generate_of_build {models : List Model} {p : Program} (h : Program.build models = .ok p)
    (currentDir : String) (config : Config) :
    generate currentDir config models = .ok
      { (Project.of currentDir config p).generate with
        diagnostics := Surface.problems p config.capabilities
          ++ (Project.of currentDir config p).generate.diagnostics } := by
  unfold generate
  rw [h]
  rfl

/-- **A stub shows the first versions of what applies to its class.** -/
theorem stub_shows_first_versions {models : List Model} {p : Program}
    (hbuild : Program.build models = .ok p) (currentDir : String) (config : Config) :
    let project := Project.of currentDir config p
    ∃ generated, generate currentDir config models = .ok generated ∧
      generated.stubs.Perm (project.surface.classes.map project.stub) ∧
      ∀ c ∈ project.surface.classes,
        let shown := Callable.firstVersions (project.applicable c)
        (project.stub c).entries = shown.map (project.entryIn c) ∧
        shown.Pairwise (fun f g => f.overrides g = false ∧ g.overrides f = false) ∧
        (∀ f ∈ project.applicable c, f.method.decl.isStatic = false →
          shown.countP (·.overrides f) = 1) ∧
        (∀ f ∈ project.applicable c, f.method.decl.isStatic = true → f ∈ shown) ∧
        ∀ f ∈ project.surface.callables, f.method.owner = c.id → f.method.decl.isStatic = false →
          ∃ g ∈ shown, g.overrides f = true ∧ g.method.owner = c.id := by
  intro project
  have numbered : project.Numbered :=
    Project.numbered_of (Program.tables_of_build hbuild) currentDir config
  refine ⟨_, generate_of_build hbuild currentDir config, project.stubs_generate, ?_⟩
  intro c _ shown
  refine ⟨?_, Callable.pairwise_firstVersions _, fun f hf => Callable.countP_firstVersions hf,
    fun f hf => Callable.mem_firstVersions_of_static hf, ?_⟩
  · rw [numbered.entries_stub, numbered.shown_eq]
  · intro f hf howner hstatic
    have hone := Callable.countP_firstVersions (Project.mem_applicable_of_own hf howner) hstatic
    obtain ⟨g, hg, hover⟩ := List.countP_pos_iff.mp (by rw [hone]; exact Nat.one_pos)
    refine ⟨g, hg, hover, ?_⟩
    rw [← numbered.shown_eq] at hg
    exact numbered.owner_of_overrides_own hf howner hg hover

namespace Adoption

theorem inherited_mem : inherited ∈ sample.project.surface.callables := List.mem_cons_self

/-- The inherited and the adopted `f` are one class, of which one is
shown. -/
theorem drive_shows_one_version :
    Program.build sample.models = .ok sample.program ∧
      driveClass ∈ sample.project.surface.classes ∧
      (sample.project.stub driveClass).entries
        = (Callable.firstVersions (sample.project.applicable driveClass)).map
          (sample.project.entryIn driveClass) ∧
      (Callable.firstVersions (sample.project.applicable driveClass)).countP
        (·.overrides inherited) = 1 := by
  obtain ⟨_, _, _, hstubs⟩ := stub_shows_first_versions sample.build_models "/" {}
  obtain ⟨hentries, _, hone, _⟩ := hstubs driveClass sample.documented_mem
  refine ⟨sample.build_models, sample.documented_mem, hentries, hone inherited ?_ rfl⟩
  exact Project.mem_applicable.mpr
    ⟨inherited_mem, Project.applies_iff.mpr (.inr drive_below_shared)⟩

end Adoption

/-! ## Inherited and adopted functions -/

/-- **When an inherited function is shown.** If nothing that the class or a
supertype of it declares overrides the function, it is shown, exactly
once, unless an adopted function that overrides it stands before it. -/
theorem inherited_shown_iff {models : List Model} {p : Program}
    (hbuild : Program.build models = .ok p) (currentDir : String) (config : Config)
    {b : ClassInfo} (hb : b ∈ (Project.of currentDir config p).surface.classes)
    {f : Callable} (hf : f ∈ (Project.of currentDir config p).surface.callables)
    (hsub : p.graph.isSubtype b.id f.method.owner = true)
    (halone : ∀ g ∈ (Project.of currentDir config p).surface.callables, g ≠ f →
      p.graph.isSubtype b.id g.method.owner = true → g.overrides f = false) :
    let project := Project.of currentDir config p
    project.stub b ∈ project.generate.stubs ∧
    (project.stub b).entries = (project.shown b).map (project.entryIn b) ∧
    (((project.shown b).map (·.method.id)).count f.method.id = 1 ↔
      ∀ g ∈ project.surface.callables,
        (project.surface.owner? p.graph g.method.owner).map (·.id) = some b.id →
        p.graph.isSubtype b.id g.method.owner = false →
        project.functionKey b g < project.functionKey b f → g.overrides f = false) := by
  intro project
  have numbered : project.Numbered :=
    Project.numbered_of (Program.tables_of_build hbuild) currentDir config
  have hmem : f ∈ project.applicable b :=
    Project.mem_applicable.mpr ⟨hf, Project.applies_iff.mpr (.inr hsub)⟩
  refine ⟨?_, numbered.entries_stub, ?_⟩
  · exact Project.stub_mem_generate hb
  · rw [numbered.count_ids numbered.shown_subset numbered.pairwise_shown hf, numbered.mem_shown]
    constructor
    · rintro ⟨_, hfirst⟩ g hg howner _ hlt
      exact hfirst g (Project.mem_applicable.mpr ⟨hg, Project.applies_iff.mpr (.inl howner)⟩) hlt
    · intro hadopted
      refine ⟨hmem, fun g hg hlt => ?_⟩
      obtain ⟨hg, happlies⟩ := Project.mem_applicable.mp hg
      cases hbelow : p.graph.isSubtype b.id g.method.owner with
      | true =>
        exact halone g hg (fun heq => absurd hlt (heq ▸ lt_irrefl _)) hbelow
      | false =>
        have howner := (Project.applies_iff.mp happlies).resolve_right fun h => by
          rw [show project.program.graph = p.graph from rfl, hbelow] at h
          cases h
        exact hadopted g hg howner hbelow hlt

namespace Adoption

theorem adopted_before_inherited :
    sample.project.functionKey driveClass adopted
      < sample.project.functionKey driveClass inherited := by
  refine Prod.Lex.toLex_lt_toLex.mpr (.inl (Prod.Lex.toLex_lt_toLex.mpr (.inr ⟨rfl, ?_⟩)))
  refine Prod.Lex.toLex_lt_toLex.mpr (.inl (OrderDual.toDual_lt_toDual.mpr ?_))
  show sample.program.graph.height 0 < sample.program.graph.height 2
  decide

/-- `Drive` does not show the `f` that it inherits, although nothing but the
`f` of the type below overrides it. -/
theorem inherited_displaced :
    Program.build sample.models = .ok sample.program ∧
      driveClass ∈ sample.project.surface.classes ∧
      inherited ∈ sample.project.surface.callables ∧
      sample.program.graph.isSubtype driveClass.id inherited.method.owner = true ∧
      (∀ g ∈ sample.project.surface.callables, g ≠ inherited →
        sample.program.graph.isSubtype driveClass.id g.method.owner = true →
        g.overrides inherited = false) ∧
      ((sample.project.shown driveClass).map (·.method.id)).count inherited.method.id ≠ 1 := by
  have halone : ∀ g ∈ sample.project.surface.callables, g ≠ inherited →
      sample.program.graph.isSubtype driveClass.id g.method.owner = true →
      g.overrides inherited = false := by
    intro g hg hne hbelow
    rw [callables_eq] at hg
    rcases List.mem_cons.mp hg with rfl | hg
    · exact absurd rfl hne
    · obtain rfl := List.mem_singleton.mp hg
      exact absurd (drive_not_below_special.symm.trans hbelow) (by decide)
  refine ⟨sample.build_models, sample.documented_mem, inherited_mem, drive_below_shared, halone, ?_⟩
  obtain ⟨_, _, hiff⟩ := inherited_shown_iff sample.build_models "/" {} sample.documented_mem
    inherited_mem drive_below_shared halone
  intro hone
  have howner : (sample.project.surface.owner? sample.program.graph 2).map (·.id)
      = some driveClass.id := by
    rw [owner_special]; rfl
  have hadopted : adopted.overrides inherited = false :=
    hiff.mp hone adopted (List.mem_cons_of_mem _ List.mem_cons_self) howner
      drive_not_below_special adopted_before_inherited
  exact absurd hadopted (by decide)

end Adoption

end ApiStubs
