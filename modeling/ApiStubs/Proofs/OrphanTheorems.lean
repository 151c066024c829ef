/-
ApiStubs.Proofs.OrphanTheorems — no function is lost.

A marked method applies to some documented class or to none. In the first
case every class that it applies to shows it, or shows another version of
it; in the second there is one note about it and no entry
(`shown_or_noted`). The notes are about the functions that no stub has
used, group by group; `orphans` has the same functions in one sorted list,
as `applicable` has those of a class.
-/
import Mathlib.Logic.Basic
import ApiStubs.Proofs.ReportTheorems
import ApiStubs.Proofs.StubContentTheorems

namespace ApiStubs

namespace Project

/-! ## Functions without a stub -/

/-- Does what a type declares apply to no class? -/
def isStray (project : Project) (t : TypeId) : Bool :=
  !project.surface.classes.any fun c => project.applies c t

/-- The place of a function among those without a stub: by the number of
its type, then the place within that type. -/
def orphanKey (f : Callable) : ℕ ×ₗ (String ×ₗ ℕ ×ₗ ℕ) ×ₗ ℕ :=
  toLex (f.method.owner, f.key)

/-- The functions that apply to no class, in order. -/
def orphans (project : Project) : List Callable :=
  (project.surface.callables.filter fun f => project.isStray f.method.owner).mergeSort
    fun a b => orphanKey a ≤ orphanKey b

variable {project : Project} {c : ClassInfo} {f : Callable}

theorem isStray_iff {t : TypeId} :
    project.isStray t = true ↔ ∀ c ∈ project.surface.classes, project.applies c t = false := by
  simp [isStray]

theorem mem_orphans :
    f ∈ project.orphans ↔
      f ∈ project.surface.callables ∧ project.isStray f.method.owner = true := by
  simp [orphans]

theorem orphans_subset : project.orphans ⊆ project.surface.callables := by
  intro f hf
  exact (mem_orphans.mp hf).1

theorem Numbered.pairwise_orphans (numbered : project.Numbered) :
    project.orphans.Pairwise fun a b => orphanKey a < orphanKey b := by
  refine numbered.pairwise_sorted (fun _ _ => decide_eq_true_iff) (fun a b heq => ?_) _
  exact congrArg (fun k => (ofLex (ofLex k).2).2) heq

/-! ## The notes -/

/-- Used is what applies to some class. -/
theorem Numbered.mem_used_iff (numbered : project.Numbered) (hf : f ∈ project.surface.callables) :
    f.method.id ∈ project.used ↔
      ∃ c ∈ project.surface.classes, project.applies c f.method.owner = true := by
  rw [mem_used]
  refine exists_congr fun c => and_congr_right fun _ => ?_
  simp only [StubDocument.placed, FunctionGroup.mem_flatMap_applicable numbered]
  constructor
  · rintro ⟨_, ⟨g, hg, rfl⟩, hid⟩
    obtain ⟨hg, happlies⟩ := mem_applicable.mp hg
    obtain rfl : g = f := numbered.callable_ext hg hf hid
    exact happlies
  · intro happlies
    exact ⟨_, ⟨f, mem_applicable.mpr ⟨hf, happlies⟩, rfl⟩, rfl⟩

/-- What no stub has used is what applies to no class. -/
theorem Numbered.mem_unused_iff (numbered : project.Numbered) {s : FunctionStub} :
    s ∈ ((FunctionGroup.all project).flatMap (·.inSourceOrder)).filter
        (fun s => s.callable.method.id ∉ project.used) ↔
      ∃ g ∈ project.orphans, project.composed g = s := by
  have hunused : ∀ g ∈ project.surface.callables,
      (decide ((project.composed g).callable.method.id ∉ project.used) = true ↔
        project.isStray g.method.owner = true) := by
    intro g hg
    rw [decide_eq_true_iff, composed_callable, numbered.mem_used_iff hg, isStray_iff]
    simp
  simp only [List.mem_filter, List.mem_flatMap, FunctionGroup.all, List.mem_map, mem_orphans]
  constructor
  · rintro ⟨⟨_, ⟨t, _, rfl⟩, hs⟩, hnot⟩
    obtain ⟨g, hg, _, rfl⟩ := FunctionGroup.mem_inSourceOrder_of.mp hs
    exact ⟨g, ⟨hg, (hunused g hg).mp hnot⟩, rfl⟩
  · rintro ⟨g, ⟨hg, hstray⟩, rfl⟩
    exact ⟨⟨_, ⟨_, FunctionGroup.mem_declaringTypes numbered hg, rfl⟩,
      FunctionGroup.mem_inSourceOrder_of.mpr ⟨g, hg, rfl, rfl⟩⟩, (hunused g hg).mpr hstray⟩

/-- **The notes are those about the orphans, in order.** -/
theorem Numbered.orphanNotes_eq (numbered : project.Numbered) :
    StubDocument.orphanNotes project (FunctionGroup.all project) project.used
      = project.orphans.map project.ownerNote := by
  have hordered : (FunctionGroup.all project).Pairwise fun a b => a.enclosing < b.enclosing :=
    List.pairwise_map.mpr (List.pairwise_lt_range.filter _)
  have hunused := FunctionGroup.eq_map_composed orphanKey
    ((FunctionGroup.pairwise_flatMap_inSourceOrder (fun t : ℕ => t) numbered
      (List.Subset.refl _) hordered).filter _)
    numbered.pairwise_orphans fun _ => numbered.mem_unused_iff
  rw [StubDocument.orphanNotes, hunused, List.map_map]
  rfl

/-! ## Shown or noted -/

/-- Some class has a stub for the function, and every such stub has an
entry for it, its own or that of another version of it. -/
structure Housed (project : Project) (f : Callable) : Prop where
  applies : ∃ c ∈ project.surface.classes, project.applies c f.method.owner = true
  represented : ∀ c ∈ project.surface.classes, project.applies c f.method.owner = true →
    f ∈ project.shown c ∨
      ∃ g ∈ project.shown c, g ∈ project.applicable c ∧ g ≠ f ∧ g.overrides f = true
  notNoted : f.method.id ∉ project.orphans.map (·.method.id)

/-- No class has a stub for the function, no stub has it, and there is one
note about it. -/
structure Noted (project : Project) (f : Callable) : Prop where
  applies : ∀ c ∈ project.surface.classes, project.applies c f.method.owner = false
  notShown : ∀ c ∈ project.surface.classes, f.method.id ∉ (project.shown c).map (·.method.id)
  once : (project.orphans.map (·.method.id)).count f.method.id = 1

/-- A class shows each function that applies to it, or a version of it. -/
theorem Numbered.represented (numbered : project.Numbered) (hf : f ∈ project.applicable c) :
    f ∈ project.shown c ∨
      ∃ g ∈ project.shown c, g ∈ project.applicable c ∧ g ≠ f ∧ g.overrides f = true := by
  rw [numbered.shown_eq]
  by_cases hmem : f ∈ Callable.firstVersions (project.applicable c)
  · exact .inl hmem
  · cases hstatic : f.method.decl.isStatic with
    | true => exact absurd (Callable.mem_firstVersions_of_static hf hstatic) hmem
    | false =>
      have hone := Callable.countP_firstVersions hf hstatic
      obtain ⟨g, hg, hover⟩ := List.countP_pos_iff.mp (by rw [hone]; exact Nat.one_pos)
      refine .inr ⟨g, hg, Callable.mem_of_mem_firstVersions hg, ?_, hover⟩
      rintro rfl
      exact hmem hg

theorem Numbered.housed (numbered : project.Numbered) (hf : f ∈ project.surface.callables)
    (hc : c ∈ project.surface.classes) (happlies : project.applies c f.method.owner = true) :
    project.Housed f where
  applies := ⟨c, hc, happlies⟩
  represented := fun _ _ h => numbered.represented (mem_applicable.mpr ⟨hf, h⟩)
  notNoted := by
    rw [numbered.mem_ids orphans_subset hf, mem_orphans, isStray_iff]
    rintro ⟨_, hstray⟩
    rw [hstray c hc] at happlies
    cases happlies

theorem Numbered.noted (numbered : project.Numbered) (hf : f ∈ project.surface.callables)
    (hstray : ∀ c ∈ project.surface.classes, project.applies c f.method.owner = false) :
    project.Noted f where
  applies := hstray
  notShown := by
    intro c hc
    rw [numbered.mem_ids numbered.shown_subset hf, numbered.mem_shown, mem_applicable,
      hstray c hc]
    rintro ⟨⟨_, happlies⟩, _⟩
    cases happlies
  once := by
    rw [numbered.count_ids orphans_subset numbered.pairwise_orphans hf, mem_orphans]
    exact ⟨hf, isStray_iff.mpr hstray⟩

theorem Numbered.housed_or_noted (numbered : project.Numbered)
    (hf : f ∈ project.surface.callables) : Xor (project.Housed f) (project.Noted f) := by
  by_cases h : ∃ c ∈ project.surface.classes, project.applies c f.method.owner = true
  · obtain ⟨c, hc, happlies⟩ := h
    refine .inl ⟨numbered.housed hf hc happlies, fun noted => ?_⟩
    rw [noted.applies c hc] at happlies
    cases happlies
  · refine .inr ⟨numbered.noted hf ?_, fun housed => h housed.applies⟩
    intro c hc
    exact Bool.eq_false_iff.mpr fun happlies => h ⟨c, hc, happlies⟩

end Project

/-! ## A hierarchy with a stray type

`Stray` stands beside the types of `Adoption` and declares a marked and
an unmarked method. -/

namespace Stray

def stray : TypeDecl :=
  { id := "a.Stray", name := "Stray", source := ⟨"src/B.java", 1, 0⟩,
    methods := [{ name := "g", marker := some { names := some ["grab"] },
                  source := ⟨"src/B.java", 2, 0⟩ },
                { name := "h", source := ⟨"src/B.java", 4, 0⟩ }] }

set_option maxRecDepth 2000 in
def sample : ClassSample where
  models := Adoption.sample.models ++ [{ types := [stray] }]
  documented := Adoption.driveClass

theorem drive_below_shared : sample.program.graph.isSubtype 1 0 = true := by cbv

theorem drive_not_below_stray : sample.program.graph.isSubtype 1 3 = false := by cbv

theorem owner_stray : sample.project.surface.owner? sample.program.graph 3 = none := by
  unfold Surface.owner? Surface.ownerFrom
  simp only [Surface.class?, sample.classes_eq]
  rfl

def grab : Callable :=
  ⟨⟨2, 3, { name := "g", marker := some { names := some ["grab"] },
            source := ⟨"src/B.java", 2, 0⟩ }⟩, "grab", []⟩

theorem not_housed_grab : ¬ sample.project.Housed grab := by
  intro housed
  obtain ⟨c, hc, happlies⟩ := housed.applies
  rw [sample.classes_eq] at hc
  obtain rfl := List.mem_singleton.mp hc
  rcases Project.applies_iff.mp happlies with h | h
  · cases (congrArg (Option.map (·.id)) owner_stray).symm.trans h
  · cases drive_not_below_stray.symm.trans h

theorem not_noted_inherited : ¬ sample.project.Noted Adoption.inherited := by
  intro noted
  have happlies : sample.project.applies Adoption.driveClass 0 = true :=
    Project.applies_iff.mpr (.inr drive_below_shared)
  cases (noted.applies Adoption.driveClass sample.documented_mem).symm.trans happlies

end Stray

/-! ## All methods -/

theorem Callable.ofMethod?_eq_none {m : Method} :
    ofMethod? m = none ↔ m.decl.marker = none := by
  simp [ofMethod?]

theorem Project.mem_callables {p : Program} {currentDir : String} {config : Config}
    {f : Callable} :
    f ∈ (Project.of currentDir config p).surface.callables ↔
      ∃ m ∈ p.methods, Callable.ofMethod? m = some f :=
  List.mem_filterMap

theorem Project.method_mem_of_callable {p : Program} {currentDir : String} {config : Config}
    {f : Callable} (hf : f ∈ (Project.of currentDir config p).surface.callables) :
    f.method ∈ p.methods := by
  obtain ⟨m, hm, hmf⟩ := Project.mem_callables.mp hf
  rw [Callable.method_of_ofMethod? hmf]
  exact hm

/-- A method without the marker is not among the callables. -/
theorem Project.not_mem_ids_of_unmarked {p : Program} (tables : p.Tables) {currentDir : String}
    {config : Config} {m : Method} (hm : m ∈ p.methods) (hmarker : m.decl.marker = none)
    {fs : List Callable} (hsub : fs ⊆ (Project.of currentDir config p).surface.callables) :
    m.id ∉ fs.map (·.method.id) := by
  intro hid
  obtain ⟨g, hg, hid⟩ := List.mem_map.mp hid
  obtain ⟨n, hn, hng⟩ := Project.mem_callables.mp (hsub hg)
  rw [Callable.method_of_ofMethod? hng] at hid
  rw [tables.method_ext hn hm hid, Callable.ofMethod?_eq_none.mpr hmarker] at hng
  cases hng

/-- **No function is lost.** A marked method is represented in the stub of
every class that it applies to, or it applies to no class and is noted
once. Other methods are neither shown nor noted. -/
theorem shown_or_noted {models : List Model} {p : Program}
    (hbuild : Program.build models = .ok p) (currentDir : String) (config : Config) :
    let project := Project.of currentDir config p
    ∃ generated, generate currentDir config models = .ok generated ∧
      generated.stubs.Perm (project.surface.classes.map project.stub) ∧
      (∀ c ∈ project.surface.classes,
        (project.stub c).entries = (project.shown c).map (project.entryIn c)) ∧
      notes generated.diagnostics = project.orphans.map project.ownerNote ∧
      ∀ m ∈ p.methods,
        (m.decl.marker.isSome = true → ∃ f, Callable.ofMethod? m = some f ∧ f.method = m ∧
          Xor (project.Housed f) (project.Noted f)) ∧
        (m.decl.marker = none → m.id ∉ project.orphans.map (·.method.id) ∧
          ∀ c ∈ project.surface.classes, m.id ∉ (project.shown c).map (·.method.id)) := by
  intro project
  have tables : p.Tables := Program.tables_of_build hbuild
  have numbered : project.Numbered := Project.numbered_of tables currentDir config
  refine ⟨_, generate_of_build hbuild currentDir config, project.stubs_generate,
    fun c _ => numbered.entries_stub, ?_, fun m hm => ⟨?_, ?_⟩⟩
  · rw [notes_generate, numbered.orphanNotes_eq]
  · intro hmarker
    cases hf : Callable.ofMethod? m with
    | none =>
      rw [Callable.ofMethod?_eq_none.mp hf] at hmarker
      cases hmarker
    | some f =>
      have hmem : f ∈ project.surface.callables := Project.mem_callables.mpr ⟨m, hm, hf⟩
      exact ⟨f, rfl, Callable.method_of_ofMethod? hf, numbered.housed_or_noted hmem⟩
  · intro hmarker
    exact ⟨Project.not_mem_ids_of_unmarked tables hm hmarker Project.orphans_subset,
      fun c _ => Project.not_mem_ids_of_unmarked tables hm hmarker numbered.shown_subset⟩

namespace Stray

/-- `Drive` has an entry for the `f` that it inherits, there is one note
about `grab`, and `h` is passed over. -/
theorem inherited_housed_grab_noted :
    Program.build sample.models = .ok sample.program ∧ sample.project.Housed Adoption.inherited ∧
      sample.project.Noted grab ∧ 3 ∉ sample.project.orphans.map (·.method.id) := by
  obtain ⟨_, _, _, _, _, hmethods⟩ := shown_or_noted sample.build_models "/" {}
  refine ⟨sample.build_models, ?_, ?_, ?_⟩
  · obtain ⟨f, hf, _, hxor⟩ := (hmethods Adoption.inherited.method List.mem_cons_self).1 rfl
    obtain rfl : Adoption.inherited = f := Option.some.inj hf
    exact (hxor.resolve_right fun h => not_noted_inherited h.1).1
  · obtain ⟨f, hf, _, hxor⟩ :=
      (hmethods grab.method (.tail _ (.tail _ (.head _)))).1 rfl
    obtain rfl : grab = f := Option.some.inj hf
    exact (hxor.resolve_left fun h => not_housed_grab h.1).1
  · have hmem : (⟨3, 3, { name := "h", source := ⟨"src/B.java", 4, 0⟩ }⟩ : Method)
        ∈ sample.program.methods := .tail _ (.tail _ (.tail _ (.head _)))
    exact ((hmethods _ hmem).2 rfl).1

end Stray

end ApiStubs
