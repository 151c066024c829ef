/-
ApiStubs.Proofs.StubLayerTheorems — narrower types come first.

The functions of a stub are in strict order of `functionKey`
(`Numbered.pairwise_shown`), so one of two functions stands before the
other exactly if its key is smaller (`Numbered.place_lt_iff`). What is
left is to read the key. Its first part puts the class itself in front,
its second part is the height of the declaring type, which goes down from
a strict subtype to its supertypes where the hierarchy has no cycle
(`CycleFree.height_lt`), and its last part is the number of that type, so
that functions of one type stand together.
-/
import ApiStubs.Proofs.HierarchyTheorems
import ApiStubs.Proofs.StubContentTheorems

namespace ApiStubs

/-- In a strictly ordered list the order of places is that of keys. -/
theorem index_lt_iff_key_lt {α κ : Type} [LinearOrder κ] {key : α → κ} {l : List α}
    (ordered : l.Pairwise fun a b => key a < key b) {i j : Nat} {a b : α}
    (ha : l[i]? = some a) (hb : l[j]? = some b) : i < j ↔ key a < key b := by
  obtain ⟨hi, rfl⟩ := List.getElem?_eq_some_iff.mp ha
  obtain ⟨hj, rfl⟩ := List.getElem?_eq_some_iff.mp hb
  have hforward := List.pairwise_iff_getElem.mp ordered
  refine ⟨hforward i j hi hj, fun hlt => ?_⟩
  rcases Nat.lt_trichotomy i j with h | rfl | h
  · exact h
  · exact absurd hlt (lt_irrefl _)
  · exact absurd hlt (lt_asymm (hforward j i hj hi h))

namespace Project

variable {project : Project} {c : ClassInfo} {f g : Callable}

/-! ## Reading the key -/

theorem typeKey_injective (project : Project) (c : ClassInfo) :
    Function.Injective (project.typeKey c) := by
  intro s t h
  exact congrArg (fun k => (ofLex (ofLex (ofLex k).2).2).2) h

/-- Among other types than the class, the higher ones come first. -/
theorem functionKey_lt_of_height (hf : f.method.owner ≠ c.id) (hg : g.method.owner ≠ c.id)
    (h : project.program.graph.height g.method.owner
      < project.program.graph.height f.method.owner) :
    project.functionKey c f < project.functionKey c g := by
  have hself : (f.method.owner != c.id) = (g.method.owner != c.id) := by
    simp [bne_iff_ne.mpr hf, bne_iff_ne.mpr hg]
  refine Prod.Lex.toLex_lt_toLex.mpr (.inl (Prod.Lex.toLex_lt_toLex.mpr (.inr ⟨hself, ?_⟩)))
  exact Prod.Lex.toLex_lt_toLex.mpr (.inl (OrderDual.toDual_lt_toDual.mpr h))

theorem functionKey_lt_iff_of_owner (h : f.method.owner = g.method.owner) :
    project.functionKey c f < project.functionKey c g ↔ f.key < g.key := by
  simp only [functionKey, Prod.Lex.toLex_lt_toLex, h, lt_irrefl, false_or, true_and]

theorem typeKey_le_of_functionKey_le (h : project.functionKey c f ≤ project.functionKey c g) :
    project.typeKey c f.method.owner ≤ project.typeKey c g.method.owner := by
  rcases Prod.Lex.toLex_le_toLex.mp h with hlt | ⟨heq, _⟩
  · exact le_of_lt hlt
  · exact le_of_eq heq

/-! ## Layers -/

/-- Is the function the one at this place in the stub of a class? -/
def StandsAt (project : Project) (c : ClassInfo) (f : Callable) (i : Nat) : Prop :=
  (project.shown c)[i]? = some f

theorem Numbered.place_lt_iff (numbered : project.Numbered) {i j : Nat}
    (hf : project.StandsAt c f i) (hg : project.StandsAt c g j) :
    i < j ↔ project.functionKey c f < project.functionKey c g :=
  index_lt_iff_key_lt numbered.pairwise_shown hf hg

theorem Numbered.typeKey_le (numbered : project.Numbered) {i j : Nat}
    (hf : project.StandsAt c f i) (hg : project.StandsAt c g j) (hij : i ≤ j) :
    project.typeKey c f.method.owner ≤ project.typeKey c g.method.owner := by
  refine typeKey_le_of_functionKey_le (not_lt.mp fun hlt => ?_)
  exact absurd ((numbered.place_lt_iff hg hf).mpr hlt) (Nat.not_lt_of_le hij)

/-- The layers of a stub: the class itself, then the other types, each in
one piece and the narrower ones first. -/
structure Layered (project : Project) (c : ClassInfo) : Prop where
  /-- What the class declares stands before everything else. -/
  ownFirst : ∀ {f g : Callable} {i j : Nat}, project.StandsAt c f i → project.StandsAt c g j →
    f.method.owner = c.id → g.method.owner ≠ c.id → i < j
  /-- Of two other types the narrower one stands first. -/
  narrowerFirst : ∀ {f g : Callable} {i j : Nat}, project.StandsAt c f i →
    project.StandsAt c g j → f.method.owner ≠ c.id → g.method.owner ≠ c.id →
    project.program.graph.Below f.method.owner g.method.owner → i < j
  /-- Nothing stands between two functions of one type but functions of
  that type. -/
  together : ∀ {f h g : Callable} {i k j : Nat}, project.StandsAt c f i →
    project.StandsAt c h k → project.StandsAt c g j → i ≤ k → k ≤ j →
    f.method.owner = g.method.owner → h.method.owner = f.method.owner
  /-- Functions of one type are in the order of their sources, then of
  their declarations. -/
  bySource : ∀ {f g : Callable} {i j : Nat}, project.StandsAt c f i → project.StandsAt c g j →
    f.method.owner = g.method.owner → (i < j ↔ f.key < g.key)
  /-- What is shown instead of a function is not of a broader type, unless
  it is of the class. -/
  notBroader : ∀ {f g : Callable}, f ∈ project.applicable c → g ∈ project.shown c →
    g.overrides f = true → project.program.graph.Below f.method.owner g.method.owner →
    g.method.owner = c.id

theorem functionKey_lt_of_below (hacyclic : project.program.graph.Acyclic)
    (hf : f.method.owner ≠ c.id) (hg : g.method.owner ≠ c.id)
    (h : project.program.graph.Below f.method.owner g.method.owner) :
    project.functionKey c f < project.functionKey c g :=
  functionKey_lt_of_height hf hg ((hacyclic.cycleFree _).height_lt (hacyclic.below_iff.mp h))

/-- A broader version of another type than the class comes after the
narrower one, and is left out. -/
theorem Numbered.owner_of_overrides_below (numbered : project.Numbered)
    (hacyclic : project.program.graph.Acyclic) (hf : f ∈ project.applicable c)
    (hg : g ∈ project.shown c) (hover : g.overrides f = true)
    (hbelow : project.program.graph.Below f.method.owner g.method.owner) :
    g.method.owner = c.id := by
  by_cases hown : f.method.owner = c.id
  · exact numbered.owner_of_overrides_own (mem_applicable.mp hf).1 hown hg hover
  · by_contra hne
    have hlt : project.functionKey c f < project.functionKey c g :=
      functionKey_lt_of_below hacyclic hown hne hbelow
    have hnot : f.overrides g = false := (numbered.mem_shown.mp hg).2 f hf hlt
    have hfg : f.overrides g = true := MethodDecl.overrides_symm hover
    rw [hnot] at hfg
    cases hfg

theorem Numbered.layered (numbered : project.Numbered)
    (hacyclic : project.program.graph.Acyclic) : project.Layered c where
  ownFirst := fun hf hg hown hother =>
    (numbered.place_lt_iff hf hg).mpr (functionKey_lt_of_own hown hother)
  narrowerFirst := fun hf hg hfc hgc hbelow =>
    (numbered.place_lt_iff hf hg).mpr (functionKey_lt_of_below hacyclic hfc hgc hbelow)
  together := by
    intro f h g i k j hf hh hg hik hkj hsame
    have hfh := numbered.typeKey_le hf hh hik
    have hhg := numbered.typeKey_le hh hg hkj
    rw [← hsame] at hhg
    exact typeKey_injective project c (le_antisymm hhg hfh)
  bySource := by
    intro f g i j hf hg hsame
    rw [numbered.place_lt_iff hf hg, functionKey_lt_iff_of_owner hsame]
  notBroader := fun hf hg hover hbelow =>
    numbered.owner_of_overrides_below hacyclic hf hg hover hbelow

end Project

/-- **Narrower types come first.** Where the hierarchy has no cycle, the
strict subtypes of a type are those that lead to it along supertypes, and
the stub of every documented class is layered. -/
theorem narrower_types_first {models : List Model} {p : Program}
    (hbuild : Program.build models = .ok p) (hacyclic : p.graph.Acyclic) (currentDir : String)
    (config : Config) {c : ClassInfo}
    (hc : c ∈ (Project.of currentDir config p).surface.classes) :
    let project := Project.of currentDir config p
    ∃ generated, generate currentDir config models = .ok generated ∧
      project.stub c ∈ generated.stubs ∧
      (project.stub c).entries = (project.shown c).map (project.entryIn c) ∧
      (∀ a b, p.graph.Below a b ↔ p.graph.Leads a b) ∧ project.Layered c := by
  intro project
  have numbered : project.Numbered :=
    Project.numbered_of (Program.tables_of_build hbuild) currentDir config
  refine ⟨_, generate_of_build hbuild currentDir config, ?_, numbered.entries_stub,
    fun _ _ => hacyclic.below_iff, numbered.layered hacyclic⟩
  exact Project.stub_mem_generate hc

/-! ## A hierarchy of three layers

`Drive` is below `Base`, which is below `Shared`; each declares a function
of its own, and `Shared` is declared first. -/

namespace Layers

def shared : TypeDecl :=
  { id := "a.Shared", name := "Shared", kind := .interfaceType, source := ⟨"src/A.java", 1, 0⟩,
    methods := [{ name := "shared", marker := some {}, source := ⟨"src/A.java", 2, 0⟩ }] }

def base : TypeDecl :=
  { id := "a.Base", name := "Base", interfaces := ["a.Shared"], source := ⟨"src/A.java", 5, 0⟩,
    methods := [{ name := "base", marker := some {}, source := ⟨"src/A.java", 6, 0⟩ }] }

def drive : TypeDecl :=
  { id := "a.Drive", name := "Drive", superclass := some "a.Base",
    source := ⟨"src/A.java", 10, 0⟩,
    doc := some { tags := [.blockTag "cc.module" [.text "drive"]] },
    methods := [{ name := "own", marker := some {}, source := ⟨"src/A.java", 11, 0⟩ }] }

def driveClass : ClassInfo := ClassInfo.ofAuxiliary ⟨2, drive⟩ false none "drive"

set_option maxRecDepth 2000 in
def sample : ClassSample where
  models := [{ types := [shared, base, drive] }]
  documented := driveClass

def ofShared : Callable :=
  ⟨⟨0, 0, { name := "shared", marker := some {}, source := ⟨"src/A.java", 2, 0⟩ }⟩, "shared", []⟩

def ofBase : Callable :=
  ⟨⟨1, 1, { name := "base", marker := some {}, source := ⟨"src/A.java", 6, 0⟩ }⟩, "base", []⟩

def ofDrive : Callable :=
  ⟨⟨2, 2, { name := "own", marker := some {}, source := ⟨"src/A.java", 11, 0⟩ }⟩, "own", []⟩

theorem callables_eq : sample.project.surface.callables = [ofShared, ofBase, ofDrive] := rfl

theorem acyclic : sample.program.graph.Acyclic := by
  -- Every type is declared after its supertypes.
  refine TypeGraph.acyclic_of_rank (fun id => id) fun id parent hp => ?_
  match id, hp with
  | 0, hp => cases hp
  | 1, hp => obtain rfl : parent = 0 := List.mem_singleton.mp hp
             exact Nat.one_pos
  | 2, hp => obtain rfl : parent = 1 := List.mem_singleton.mp hp
             exact Nat.one_lt_two
  | n + 3, hp => cases hp

theorem base_leads : sample.program.graph.Leads 1 0 := .single (List.mem_singleton.mpr rfl)

theorem drive_leads : sample.program.graph.Leads 2 1 := .single (List.mem_singleton.mpr rfl)

theorem base_below_shared : sample.program.graph.Below 1 0 := acyclic.below_iff.mpr base_leads

/-- All three functions apply to `Drive`, its own first and that of `Shared`
last. -/
theorem applicable_eq :
    sample.project.applicable driveClass = [ofDrive, ofBase, ofShared] := by
  have numbered : sample.project.Numbered :=
    Project.numbered_of (Program.tables_of_build sample.build_models) "/" {}
  have happlies : ∀ t ∈ [0, 1, 2], sample.project.applies driveClass t = true := by
    intro t ht
    refine Project.applies_iff.mpr (.inr (TypeGraph.isSubtype_iff.mpr ?_))
    simp only [List.mem_cons, List.not_mem_nil, or_false] at ht
    obtain rfl | rfl | rfl := ht
    · exact .inr (drive_leads.trans base_leads)
    · exact .inr drive_leads
    · exact .inl rfl
  have hordered : [ofDrive, ofBase, ofShared].Pairwise fun f g =>
      sample.project.functionKey driveClass f < sample.project.functionKey driveClass g := by
    refine .cons ?_ (.cons ?_ (List.pairwise_singleton _ _))
    · intro g hg
      refine Project.functionKey_lt_of_own rfl ?_
      obtain rfl | rfl := List.mem_pair.mp hg <;> decide
    · intro g hg
      obtain rfl := List.mem_singleton.mp hg
      exact Project.functionKey_lt_of_below acyclic (by decide) (by decide) base_below_shared
  refine eq_of_pairwise_key _ numbered.pairwise_applicable hordered fun f => ?_
  rw [Project.mem_applicable, callables_eq]
  constructor
  · rintro ⟨hf, _⟩
    exact (List.reverse_perm [ofDrive, ofBase, ofShared]).mem_iff.mp hf
  · intro hf
    refine ⟨(List.reverse_perm [ofDrive, ofBase, ofShared]).mem_iff.mpr hf, happlies _ ?_⟩
    simp only [List.mem_cons, List.not_mem_nil, or_false] at hf
    obtain rfl | rfl | rfl := hf <;> decide

theorem shown_eq : sample.project.shown driveClass = [ofDrive, ofBase, ofShared] := by
  have numbered : sample.project.Numbered :=
    Project.numbered_of (Program.tables_of_build sample.build_models) "/" {}
  rw [numbered.shown_eq, applicable_eq]
  rfl

/-- In the stub of `Drive` its own function stands first, then that of
`Base`, then that of `Shared`, as the layers say. -/
theorem drive_is_layered :
    Program.build sample.models = .ok sample.program ∧ sample.program.graph.Acyclic ∧
      driveClass ∈ sample.project.surface.classes ∧ sample.program.graph.Below 1 0 ∧
      sample.project.Layered driveClass ∧
      sample.project.StandsAt driveClass ofDrive 0 ∧
      sample.project.StandsAt driveClass ofBase 1 ∧
      sample.project.StandsAt driveClass ofShared 2 ∧
      ∀ {f g : Callable} {i j : Nat}, sample.project.StandsAt driveClass f i →
        sample.project.StandsAt driveClass g j → f.method.owner = 1 → g.method.owner = 0 →
        i < j := by
  obtain ⟨_, _, _, _, _, layered⟩ :=
    narrower_types_first sample.build_models acyclic "/" {} sample.documented_mem
  have hplaces : ∀ {f : Callable} {i : Nat}, [ofDrive, ofBase, ofShared][i]? = some f →
      sample.project.StandsAt driveClass f i := by
    intro f i h
    rw [Project.StandsAt, shown_eq, h]
  refine ⟨sample.build_models, acyclic, sample.documented_mem, base_below_shared, layered,
    hplaces rfl, hplaces rfl, hplaces rfl, ?_⟩
  intro f g i j hf hg hbase hshared
  refine layered.narrowerFirst hf hg ?_ ?_ ?_
  · rw [hbase]; decide
  · rw [hshared]; decide
  · rw [hbase, hshared]; exact base_below_shared

end Layers

end ApiStubs
