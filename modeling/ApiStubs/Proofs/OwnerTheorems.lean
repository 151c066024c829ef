/-
ApiStubs.Proofs.OwnerTheorems — who owns what a type declares.

The owner is looked for along superclasses. `Surface.Nearest` says what is
looked for without the search: so many superclasses up there is a
documented class, none of the types before it is documented, and no type
on the way is an interface or an enumeration. The search finds exactly
that (`owner_is_nearest`).

The search gives up on a type that it has seen, and `Nearest` does not
mention what was seen. Nothing is lost by that: on a chain that returns,
whatever is found after the return was passed before it
(`Nearest.apart`), so a nearest class is always found on the first way
round.
-/
import ApiStubs.Proofs.SurfaceEmbedding

namespace ApiStubs

/-! ## Superclasses of superclasses -/

namespace TypeGraph

variable {g : TypeGraph} {id t : TypeId}

/-- The type so many superclasses up, if there are so many. -/
def superclassAt (g : TypeGraph) : Nat → TypeId → Option TypeId
  | 0, id => some id
  | steps + 1, id => (g.superclass id).bind (g.superclassAt steps)

theorem superclassAt_succ {parent : TypeId} (h : g.superclass id = some parent) (steps : Nat) :
    g.superclassAt (steps + 1) id = g.superclassAt steps parent := by
  rw [superclassAt, h, Option.bind_some]

theorem superclassAt_add (m n : Nat) (id : TypeId) :
    g.superclassAt (m + n) id = (g.superclassAt m id).bind (g.superclassAt n) := by
  induction m generalizing id with
  | zero => simp [superclassAt]
  | succ m ih =>
    rw [Nat.succ_add, superclassAt, superclassAt, Option.bind_assoc]
    exact congrArg _ (funext ih)

/-- After a return the chain goes on as it did before. -/
theorem superclassAt_of_return {i j : Nat} (h : g.superclassAt i id = g.superclassAt j id)
    (rest : Nat) : g.superclassAt (i + rest) id = g.superclassAt (j + rest) id := by
  rw [superclassAt_add, superclassAt_add, h]

theorem isSubtype_of_superclassAt {steps : Nat} (h : g.superclassAt steps id = some t) :
    g.isSubtype id t = true := by
  induction steps generalizing id with
  | zero => exact isSubtype_iff.mpr (.inl (Option.some.inj h))
  | succ steps ih =>
    obtain ⟨parent, hparent, hrest⟩ := Option.bind_eq_some_iff.mp h
    have hedge : g.Leads id parent := .single (mem_supertypes_of_superclass hparent)
    rcases isSubtype_iff.mp (ih hrest) with rfl | hlead
    · exact isSubtype_iff.mpr (.inr hedge)
    · exact isSubtype_iff.mpr (.inr (hedge.trans hlead))

end TypeGraph

/-! ## The nearest documented class -/

namespace Surface

variable {s : Surface} {g : TypeGraph} {id t : TypeId} {c : ClassInfo} {steps : Nat}

/-- Is the type documented? -/
def Documents (s : Surface) (id : TypeId) : Prop :=
  ∃ c ∈ s.classes, c.id = id

/-- The class is the documented one so many superclasses up, with no other
documented type before it, and with no interface and no enumeration on the
way. -/
structure Nearest (s : Surface) (g : TypeGraph) (id : TypeId) (steps : Nat) (c : ClassInfo) :
    Prop where
  documented : c ∈ s.classes
  reached : g.superclassAt steps id = some c.id
  mayOwn : ∀ i ≤ steps, ∀ t ∈ g.superclassAt i id,
    g.kind t ≠ some .interfaceType ∧ g.kind t ≠ some .enumType
  passed : ∀ i < steps, ∀ t ∈ g.superclassAt i id, ¬ s.Documents t

theorem neverOwns_eq_false_iff {kind : Option TypeKind} :
    neverOwns kind = false ↔ kind ≠ some .interfaceType ∧ kind ≠ some .enumType := by
  rcases kind with _ | kind
  · simp [neverOwns]
  · cases kind <;> simp [neverOwns]

theorem class?_eq_none_iff : s.class? id = none ↔ ¬ s.Documents id := by
  simp [class?, Documents]

namespace Nearest

/-- No type is passed twice on the way to the nearest class. -/
theorem apart (h : s.Nearest g id steps c) {i j : Nat} (hij : i < j) (hj : j ≤ steps) :
    g.superclassAt i id ≠ g.superclassAt j id := by
  intro hreturn
  have hearlier : g.superclassAt (i + (steps - j)) id = some c.id := by
    rw [TypeGraph.superclassAt_of_return hreturn, Nat.add_sub_of_le hj, h.reached]
  exact h.passed (i + (steps - j)) (by omega) c.id hearlier ⟨c, h.documented, rfl⟩

theorem here (hc : c ∈ s.classes) (hown : neverOwns (g.kind c.id) = false) :
    s.Nearest g c.id 0 c where
  documented := hc
  reached := rfl
  mayOwn := by
    intro i hi t ht
    obtain rfl := Nat.le_zero.mp hi
    obtain rfl := Option.some.inj ht
    exact neverOwns_eq_false_iff.mp hown
  passed := nofun

/-- The nearest class of the superclass is that of the type, if the type
is passed. -/
theorem up_iff {parent : TypeId} (hparent : g.superclass id = some parent)
    (hown : neverOwns (g.kind id) = false) (hpassed : ¬ s.Documents id) :
    s.Nearest g id (steps + 1) c ↔ s.Nearest g parent steps c := by
  have hstep : ∀ i, g.superclassAt (i + 1) id = g.superclassAt i parent :=
    TypeGraph.superclassAt_succ hparent
  constructor
  · intro h
    refine ⟨h.documented, (hstep _).symm.trans h.reached, fun i hi t ht => ?_, fun i hi t ht => ?_⟩
    · exact h.mayOwn (i + 1) (Nat.succ_le_succ hi) t ((hstep i).trans ht)
    · exact h.passed (i + 1) (Nat.succ_lt_succ hi) t ((hstep i).trans ht)
  · intro h
    refine ⟨h.documented, (hstep _).trans h.reached, fun i hi t ht => ?_, fun i hi t ht => ?_⟩
    · cases i with
      | zero => exact Option.some.inj ht ▸ neverOwns_eq_false_iff.mp hown
      | succ i => exact h.mayOwn i (Nat.le_of_succ_le_succ hi) t ((hstep i).symm.trans ht)
    · cases i with
      | zero => exact Option.some.inj ht ▸ hpassed
      | succ i => exact h.passed i (Nat.lt_of_succ_lt_succ hi) t ((hstep i).symm.trans ht)

end Nearest

/-- A search that has seen some types finds the nearest class, unless it
has seen a type on the way there. -/
theorem ownerFrom_eq_some_iff (hnodup : (s.classes.map (·.id)).Nodup) {seen : List TypeId} :
    s.ownerFrom g seen id = some c ↔
      ∃ steps, s.Nearest g id steps c ∧ ∀ i ≤ steps, ∀ t ∈ g.superclassAt i id, t ∉ seen := by
  have hclass : ∀ {t c}, s.class? t = some c ↔ c ∈ s.classes ∧ c.id = t :=
    Program.find?_eq_some_iff_of_nodup hnodup
  fun_induction ownerFrom s g seen id with
  | case1 seen id hseen =>
    refine iff_of_false (Option.some_ne_none c).symm ?_
    rintro ⟨steps, _, hfresh⟩
    exact hfresh 0 (Nat.zero_le _) id rfl hseen
  | case2 seen id _ hnever =>
    refine iff_of_false (Option.some_ne_none c).symm ?_
    rintro ⟨steps, hnearest, _⟩
    have hown := neverOwns_eq_false_iff.mpr (hnearest.mayOwn 0 (Nat.zero_le _) id rfl)
    rw [hnever] at hown
    cases hown
  | case3 seen id hseen hown found hfound =>
    obtain ⟨hmem, rfl⟩ := hclass.mp hfound
    constructor
    · intro h
      obtain rfl := Option.some.inj h
      refine ⟨0, .here hmem (Bool.eq_false_iff.mpr hown), fun i hi t ht => ?_⟩
      obtain rfl := Nat.le_zero.mp hi
      exact Option.some.inj ht ▸ hseen
    · rintro ⟨steps, hnearest, _⟩
      -- A documented type is not passed.
      cases steps with
      | zero =>
        have hsame : c.id = found.id := (Option.some.inj hnearest.reached).symm
        rw [← hfound]
        exact hclass.mpr ⟨hnearest.documented, hsame⟩
      | succ steps =>
        exact absurd ⟨found, hmem, rfl⟩ (hnearest.passed 0 (Nat.succ_pos _) found.id rfl)
  | case4 seen id hseen hown hnone parent hparent ih =>
    have hown : neverOwns (g.kind id) = false := Bool.eq_false_iff.mpr hown
    have hpassed := class?_eq_none_iff.mp hnone
    have hstep : ∀ i, g.superclassAt (i + 1) id = g.superclassAt i parent :=
      TypeGraph.superclassAt_succ hparent
    refine ih.trans ⟨?_, ?_⟩
    · rintro ⟨steps, hnearest, hfresh⟩
      refine ⟨steps + 1, (Nearest.up_iff hparent hown hpassed).mpr hnearest, fun i hi t ht => ?_⟩
      cases i with
      | zero => exact Option.some.inj ht ▸ hseen
      | succ i =>
        have hnew := hfresh i (Nat.le_of_succ_le_succ hi) t ((hstep i).symm.trans ht)
        exact fun hmem => hnew (List.mem_cons_of_mem _ hmem)
    · rintro ⟨steps, hnearest, hfresh⟩
      cases steps with
      | zero => exact absurd ⟨c, hnearest.documented, (Option.some.inj hnearest.reached).symm⟩ hpassed
      | succ steps =>
        refine ⟨steps, (Nearest.up_iff hparent hown hpassed).mp hnearest, fun i hi t ht => ?_⟩
        have hi : i + 1 ≤ steps + 1 := Nat.succ_le_succ hi
        rw [Option.mem_def, ← hstep i] at ht
        have hne : t ≠ id := by
          rintro rfl
          exact hnearest.apart (Nat.succ_pos i) hi ht.symm
        exact List.not_mem_cons_of_ne_of_not_mem hne (hfresh (i + 1) hi t ht)
  | case5 seen id _ _ hnone htop =>
    refine iff_of_false (Option.some_ne_none c).symm ?_
    rintro ⟨steps, hnearest, _⟩
    cases steps with
    | zero =>
      have hdocumented : s.Documents id :=
        ⟨c, hnearest.documented, (Option.some.inj hnearest.reached).symm⟩
      exact absurd hdocumented (class?_eq_none_iff.mp hnone)
    | succ steps =>
      have hreached := hnearest.reached
      rw [TypeGraph.superclassAt, htop] at hreached
      cases hreached

theorem owner?_eq_some_iff (hnodup : (s.classes.map (·.id)).Nodup) :
    s.owner? g id = some c ↔ ∃ steps, s.Nearest g id steps c := by
  rw [owner?, ownerFrom_eq_some_iff hnodup]
  simp

theorem owner?_eq_none_iff (hnodup : (s.classes.map (·.id)).Nodup) :
    s.owner? g id = none ↔ ∀ steps c, ¬ s.Nearest g id steps c := by
  rw [Option.eq_none_iff_forall_ne_some, forall_comm]
  exact forall_congr' fun c => (not_congr (owner?_eq_some_iff hnodup)).trans not_exists

end Surface

/-! ## Owners in a program -/

/-- **The owner is the nearest documented class** along superclasses, past
no interface and no enumeration; there is none in all other cases, as
where the superclasses first return to a type or come to one that is not
declared. So a type is a subtype of its owner, which owns itself. -/
theorem owner_is_nearest {models : List Model} {p : Program}
    (hbuild : Program.build models = .ok p) (caps : Capabilities) :
    let s := Surface.of p caps
    (∀ id c, s.owner? p.graph id = some c ↔ ∃ steps, s.Nearest p.graph id steps c) ∧
    (∀ id, s.owner? p.graph id = none ↔ ∀ steps c, ¬ s.Nearest p.graph id steps c) ∧
    (∀ id i j t, i < j → p.graph.superclassAt i id = some t → p.graph.superclassAt j id = some t →
      (∀ k < j, ∀ u ∈ p.graph.superclassAt k id, ¬ s.Documents u) → s.owner? p.graph id = none) ∧
    (∀ id k t, p.graph.superclassAt k id = some t → p.type? t = none →
      (∀ i < k, ∀ u ∈ p.graph.superclassAt i id, ¬ s.Documents u) → s.owner? p.graph id = none) ∧
    ∀ id c, s.owner? p.graph id = some c →
      p.graph.isSubtype id c.id = true ∧ s.owner? p.graph c.id = some c := by
  intro s
  have describes := Program.describes_of_build hbuild
  have hnodup : (s.classes.map (·.id)).Nodup := Surface.nodup_classes describes.nodup_ids
  refine ⟨fun id c => Surface.owner?_eq_some_iff hnodup,
    fun id => Surface.owner?_eq_none_iff hnodup, ?_, ?_, ?_⟩
  · intro id i j t hij hi hj hpassed
    refine (Surface.owner?_eq_none_iff hnodup).mpr fun steps c hnearest => ?_
    -- A class that is nearest is found before the return, where there is none.
    have hbefore : steps < j := by
      by_contra hlate
      exact hnearest.apart hij (Nat.le_of_not_lt hlate) (hi.trans hj.symm)
    exact hpassed steps hbefore c.id hnearest.reached ⟨c, hnearest.documented, rfl⟩
  · intro id k t hk hundeclared hpassed
    refine (Surface.owner?_eq_none_iff hnodup).mpr fun steps c hnearest => ?_
    obtain hbefore | rfl | hafter := Nat.lt_trichotomy steps k
    · exact hpassed steps hbefore c.id hnearest.reached ⟨c, hnearest.documented, rfl⟩
    · obtain ⟨declared, hdeclared, hclass⟩ := Surface.mem_classes.mp hnearest.documented
      have hid : declared.id = t := by
        rw [← (Surface.of_classOf? hclass).1]
        exact Option.some.inj (hnearest.reached.symm.trans hk)
      exact Program.type?_eq_none_iff.mp hundeclared declared hdeclared hid
    · have hreached := hnearest.reached
      obtain ⟨rest, rfl⟩ := Nat.exists_eq_add_of_lt hafter
      rw [Nat.add_assoc, TypeGraph.superclassAt_add, hk, Option.bind_some, TypeGraph.superclassAt,
        (describes.of_type?_eq_none hundeclared).2.1] at hreached
      cases hreached
  · intro id c howner
    obtain ⟨steps, hnearest⟩ := (Surface.owner?_eq_some_iff hnodup).mp howner
    refine ⟨TypeGraph.isSubtype_of_superclassAt hnearest.reached, ?_⟩
    have hown := Surface.neverOwns_eq_false_iff.mpr
      (hnearest.mayOwn steps (Nat.le_refl _) c.id hnearest.reached)
    exact (Surface.owner?_eq_some_iff hnodup).mpr ⟨0, .here hnearest.documented hown⟩

/-! ## A chain of each kind

`Impl` is below the documented `Base`, `Ping` and `Pong` are below each
other, and `Stray` is below a type that is not declared. -/

namespace Chains

def base : TypeDecl :=
  { id := "a.Base", name := "Base", source := ⟨"A.java", 1, 0⟩,
    doc := some { tags := [.blockTag "cc.module" [.text "base"]] } }

def impl : TypeDecl :=
  { id := "a.Impl", name := "Impl", superclass := some "a.Base", source := ⟨"A.java", 5, 0⟩ }

def ping : TypeDecl :=
  { id := "a.Ping", name := "Ping", superclass := some "a.Pong", source := ⟨"A.java", 10, 0⟩ }

def pong : TypeDecl :=
  { id := "a.Pong", name := "Pong", superclass := some "a.Ping", source := ⟨"A.java", 15, 0⟩ }

def stray : TypeDecl :=
  { id := "a.Stray", name := "Stray", superclass := some "x.Missing", source := ⟨"A.java", 20, 0⟩ }

def baseClass : ClassInfo := ClassInfo.ofAuxiliary ⟨0, base⟩ false none "base"

def sample : ClassSample where
  models := [{ types := [base, impl, ping, pong, stray] }]
  documented := baseClass

theorem not_documents {id : TypeId} (h : id ≠ 0) : ¬ sample.project.surface.Documents id := by
  rw [Surface.Documents, sample.classes_eq]
  simpa [sample, baseClass, ClassInfo.ofAuxiliary] using h.symm

/-- `Base` owns what `Impl` declares; the other two have no owner. -/
theorem only_impl_is_owned :
    Program.build sample.models = .ok sample.program ∧
      sample.project.surface.owner? sample.program.graph 1 = some baseClass ∧
      sample.program.graph.isSubtype 1 0 = true ∧
      sample.project.surface.owner? sample.program.graph 2 = none ∧
      sample.project.surface.owner? sample.program.graph 4 = none := by
  obtain ⟨hsome, _, hreturn, hundeclared, hsub⟩ := owner_is_nearest sample.build_models {}
  have hping : ∀ k < 2, ∀ u ∈ sample.program.graph.superclassAt k 2, u ≠ 0 := by decide
  have himpl : sample.project.surface.owner? sample.program.graph 1 = some baseClass := by
    refine (hsome 1 baseClass).mpr ⟨1, sample.documented_mem, rfl, by decide, fun i hi t ht => ?_⟩
    obtain rfl := Nat.lt_one_iff.mp hi
    exact Option.some.inj ht ▸ not_documents (by decide)
  refine ⟨sample.build_models, himpl, (hsub 1 baseClass himpl).1, ?_, ?_⟩
  · exact hreturn 2 0 2 2 (by decide) rfl rfl fun k hk u hu => not_documents (hping k hk u hu)
  · refine hundeclared 4 1 5 rfl rfl fun k hk u hu => ?_
    obtain rfl := Nat.lt_one_iff.mp hk
    exact Option.some.inj hu ▸ not_documents (by decide)

end Chains

end ApiStubs
