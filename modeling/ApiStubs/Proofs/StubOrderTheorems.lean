/-
ApiStubs.Proofs.StubOrderTheorems — which functions apply to a class, and
in which order.

The functions for the stub of a class are gathered in groups, one for each
declaring type; the groups are sorted, and then the functions within each.
`Project.applicable` says the same in one go: of all callables those that
apply to the class, sorted by ONE key. The key is a lexicographic product,
so that Mathlib's linear orders carry the comparisons: the class's own
functions first, then by height (greatest first), simple name and number
of the declaring type, then by source and by the number of the function.

`applicable_flatMap` has the two agree. Both lists are strictly ordered by
the key and have the same members, and such lists are equal. That the
groups are strictly ordered too rests on sorting being stable: functions
with the same source stay in the order in which they were declared.
-/
import Mathlib.Data.List.Sort
import Mathlib.Data.Prod.Lex
import Mathlib.Data.String.Basic
import ApiStubs.Proofs.ProgramTheorems
import ApiStubs.Stub.Document

namespace ApiStubs

/-! ## Sorting by a key -/

/-- Sorting is stable: if a list is ordered by `r`, then the list sorted by
a key is ordered by the key and, where keys are the same, by `r`. -/
theorem pairwise_mergeSort_key {α κ : Type} [LinearOrder κ] {key : α → κ} {le : α → α → Bool}
    (hle : ∀ a b, le a b = true ↔ key a ≤ key b) {r : α → α → Prop} {l : List α}
    (hr : l.Pairwise r) :
    (l.mergeSort le).Pairwise fun a b => key a < key b ∨ key a = key b ∧ r a b := by
  have htrans : ∀ a b c, le a b = true → le b c = true → le a c = true := by
    intro a b c hab hbc
    exact (hle a c).mpr (((hle a b).mp hab).trans ((hle b c).mp hbc))
  have htotal : ∀ a b, (le a b || le b a) = true := by
    intro a b
    simp only [Bool.or_eq_true, hle]
    exact le_total _ _
  -- Elements are compared together with their places, which never tie.
  have hplaces : (l.zipIdx.mergeSort (List.zipIdxLE le)).Pairwise
      fun x y => List.zipIdxLE le x y = true ∧ x.2 ≠ y.2 := by
    refine List.Pairwise.and (List.pairwise_mergeSort (List.zipIdxLE_trans htrans)
      (List.zipIdxLE_total htotal) _) ?_
    have hnodup : (l.zipIdx.map (·.2)).Nodup := by
      rw [List.zipIdx_map_snd]; exact List.nodup_range'
    have hperm := (List.mergeSort_perm l.zipIdx (List.zipIdxLE le)).map Prod.snd
    exact List.pairwise_map.mp (hperm.nodup_iff.mpr hnodup)
  rw [← List.mergeSort_zipIdx, List.pairwise_map]
  refine hplaces.imp_of_mem ?_
  rintro ⟨a, i⟩ ⟨b, j⟩ ha hb ⟨hab, hne⟩
  have hi : l[i]? = some a := List.mk_mem_zipIdx_iff_getElem?.mp (List.mem_mergeSort.mp ha)
  have hj : l[j]? = some b := List.mk_mem_zipIdx_iff_getElem?.mp (List.mem_mergeSort.mp hb)
  have hlt : i < j → r a b := by
    intro hij
    obtain ⟨hi', rfl⟩ := List.getElem?_eq_some_iff.mp hi
    obtain ⟨hj', rfl⟩ := List.getElem?_eq_some_iff.mp hj
    exact List.pairwise_iff_getElem.mp hr i j hi' hj' hij
  by_cases hba : key b ≤ key a
  · have hkey : key a ≤ key b := by
      rw [← hle]
      by_contra hnot
      simp [List.zipIdxLE, hnot] at hab
    have hij : i ≤ j := by
      simpa [List.zipIdxLE, (hle a b).mpr hkey, (hle b a).mpr hba] using hab
    exact .inr ⟨le_antisymm hkey hba, hlt (lt_of_le_of_ne hij hne)⟩
  · exact .inl (not_le.mp hba)

/-- A list in strict order of a key is given by what it has. -/
theorem eq_of_pairwise_key {α κ : Type} [LinearOrder κ] (key : α → κ) {l l' : List α}
    (hl : l.Pairwise fun a b => key a < key b) (hl' : l'.Pairwise fun a b => key a < key b)
    (hmem : ∀ a, a ∈ l ↔ a ∈ l') : l = l' := by
  have : Std.Irrefl fun a b => key a < key b := ⟨fun _ => lt_irrefl _⟩
  have : Std.Antisymm fun a b => key a < key b := ⟨fun _ _ hab hba => absurd hba (lt_asymm hab)⟩
  exact hl.eq_of_mem_iff hl' hmem

/-! ## The order of functions -/

/-- Positions are compared by file, then line, then column. -/
def SourcePos.key (pos : SourcePos) : String ×ₗ ℕ ×ₗ ℕ :=
  toLex (pos.file, toLex (pos.line, pos.column))

/-- The place of a function among those of its type: by source, then in the
order of declarations. -/
def Callable.key (f : Callable) : (String ×ₗ ℕ ×ₗ ℕ) ×ₗ ℕ :=
  toLex (f.method.decl.source.key, f.method.id)

namespace Project

/-- The place of a declaring type in the stub of a class: the class itself
first, then the higher types, then by simple name, then by number. -/
def typeKey (project : Project) (c : ClassInfo) (t : TypeId) : Bool ×ₗ ℕᵒᵈ ×ₗ String ×ₗ ℕ :=
  toLex (t != c.id, toLex (OrderDual.toDual (project.program.graph.height t),
    toLex (project.program.simpleName t, t)))

/-- The place of a function in the stub of a class: that of its declaring
type, then the one within that type. -/
def functionKey (project : Project) (c : ClassInfo) (f : Callable) :
    (Bool ×ₗ ℕᵒᵈ ×ₗ String ×ₗ ℕ) ×ₗ (String ×ₗ ℕ ×ₗ ℕ) ×ₗ ℕ :=
  toLex (project.typeKey c f.method.owner, f.key)

/-- Does what a type declares apply to a class? It does if the class owns
it, and if the class is the type or below it. -/
def applies (project : Project) (c : ClassInfo) (t : TypeId) : Bool :=
  (project.surface.owner? project.program.graph t).map (·.id) = some c.id
    || project.program.graph.isSubtype c.id t

/-- The functions that apply to a class, in order. -/
def applicable (project : Project) (c : ClassInfo) : List Callable :=
  (project.surface.callables.filter fun f => project.applies c f.method.owner).mergeSort
    fun a b => project.functionKey c a ≤ project.functionKey c b

/-- A function composed for the class that owns it. -/
def composed (project : Project) (f : Callable) : FunctionStub :=
  FunctionStub.compose project (project.surface.owner? project.program.graph f.method.owner) f

@[simp] theorem composed_callable (project : Project) (f : Callable) :
    (project.composed f).callable = f := rfl

end Project

/-! ## What extraction hands on -/

theorem Callable.method_of_ofMethod? {m : Method} {f : Callable}
    (h : Callable.ofMethod? m = some f) : f.method = m := by
  obtain ⟨marker, _, rfl⟩ := Option.map_eq_some_iff.mp h
  split <;> rfl

/-- The callables of a project are numbered in increasing order, and the
types that declare them are nodes of its graph. -/
structure Project.Numbered (project : Project) : Prop where
  increasing : project.surface.callables.Pairwise fun a b => a.method.id < b.method.id
  ownerKnown : ∀ f ∈ project.surface.callables, f.method.owner < project.program.graph.size

theorem Project.numbered_of {p : Program} (tables : p.Tables) (currentDir : String)
    (config : Config) : (Project.of currentDir config p).Numbered where
  increasing := by
    refine List.pairwise_filterMap.mpr (tables.methods_increasing.imp ?_)
    intro a b hab f hf g hg
    rw [Callable.method_of_ofMethod? hf, Callable.method_of_ofMethod? hg]
    exact hab
  ownerKnown := by
    intro f hf
    obtain ⟨m, hm, hmf⟩ := List.mem_filterMap.mp hf
    rw [Callable.method_of_ofMethod? hmf]
    exact tables.ownerKnown m hm

namespace Project

variable {project : Project} {c : ClassInfo}

theorem applies_iff {t : TypeId} :
    project.applies c t = true ↔
      (project.surface.owner? project.program.graph t).map (·.id) = some c.id ∨
        project.program.graph.isSubtype c.id t = true := by
  simp only [applies, Bool.or_eq_true, decide_eq_true_eq]

@[simp] theorem mem_applicable {f : Callable} :
    f ∈ project.applicable c ↔
      f ∈ project.surface.callables ∧ project.applies c f.method.owner = true := by
  simp [applicable]

/-- Sorting some callables by a key that tells them apart orders them
strictly. -/
theorem Numbered.pairwise_sorted {κ : Type} [LinearOrder κ] {key : Callable → κ}
    {le : Callable → Callable → Bool} (numbered : project.Numbered)
    (hle : ∀ a b, le a b = true ↔ key a ≤ key b)
    (hid : ∀ a b, key a = key b → a.method.id = b.method.id) (q : Callable → Bool) :
    ((project.surface.callables.filter q).mergeSort le).Pairwise fun a b => key a < key b := by
  refine (pairwise_mergeSort_key hle (numbered.increasing.filter q)).imp ?_
  rintro a b (hlt | ⟨heq, hlt⟩)
  · exact hlt
  · exact absurd (hid a b heq) (Nat.ne_of_lt hlt)

/-- The applicable functions are strictly ordered. -/
theorem Numbered.pairwise_applicable (numbered : project.Numbered) :
    (project.applicable c).Pairwise fun a b =>
      project.functionKey c a < project.functionKey c b := by
  refine numbered.pairwise_sorted (fun _ _ => decide_eq_true_iff) (fun a b heq => ?_) _
  exact congrArg (fun k => (ofLex (ofLex k).2).2) heq

end Project

/-! ## Groups in order -/

theorem isLE_compare_then {α : Type} [LinearOrder α] {a b : α} {o : Ordering} :
    ((compare a b).then o).isLE = true ↔ a < b ∨ a = b ∧ o.isLE = true := by
  rw [Ordering.isLE_then_iff_or, compare_lt_iff_lt, compare_eq_iff_eq]

theorem SourcePos.compare_isLE {a b : SourcePos} : (a.compare b).isLE = true ↔ a.key ≤ b.key := by
  rw [SourcePos.compare, Ordering.then_assoc, isLE_compare_then, isLE_compare_then,
    Std.isLE_compare]
  simp only [SourcePos.key, Prod.Lex.toLex_le_toLex]

namespace FunctionGroup

/-- The place of a group in the stub of a class. -/
def key (c : ClassInfo) (group : FunctionGroup) : Bool ×ₗ ℕᵒᵈ ×ₗ String ×ₗ ℕ :=
  toLex (group.enclosing != c.id, toLex (OrderDual.toDual group.height,
    toLex (group.simpleName, group.enclosing)))

theorem compareFor_isLE {c : ClassInfo} {a b : FunctionGroup} :
    (compareFor c a b).isLE = true ↔ a.key c ≤ b.key c := by
  rw [compareFor, Ordering.then_assoc, isLE_compare_then, isLE_compare_then, isLE_compare_then,
    Std.isLE_compare]
  simp only [key, Prod.Lex.toLex_le_toLex, OrderDual.toDual_lt_toDual,
    OrderDual.toDual_inj, eq_comm (a := b.height)]

variable {project : Project} {c : ClassInfo}

theorem functions_of (t : TypeId) :
    (of project t).functions = (callablesOf project.surface t).map project.composed := by
  apply List.map_congr_left
  intro f hf
  obtain rfl : f.method.owner = t := by simpa using (List.mem_filter.mp hf).2
  rfl

theorem mem_inSourceOrder_of {t : TypeId} {f : FunctionStub} :
    f ∈ (of project t).inSourceOrder ↔
      ∃ g ∈ project.surface.callables, g.method.owner = t ∧ project.composed g = f := by
  simp [inSourceOrder, functions_of, callablesOf, and_assoc]

theorem mem_applicable_iff {group : FunctionGroup} :
    group ∈ applicable project.program.graph c (all project) ↔
      ∃ t ∈ declaringTypes project, project.applies c t = true ∧ of project t = group := by
  simp only [applicable, List.mem_mergeSort, List.mem_filter, all, List.mem_map]
  constructor
  · rintro ⟨⟨t, ht, rfl⟩, happlies⟩
    exact ⟨t, ht, happlies, rfl⟩
  · rintro ⟨t, ht, happlies, rfl⟩
    exact ⟨⟨t, ht, rfl⟩, happlies⟩

theorem mem_declaringTypes (numbered : project.Numbered) {f : Callable}
    (hf : f ∈ project.surface.callables) : f.method.owner ∈ declaringTypes project := by
  have hmem : f ∈ callablesOf project.surface f.method.owner :=
    List.mem_filter.mpr ⟨hf, by simp⟩
  refine List.mem_filter.mpr ⟨List.mem_range.mpr (numbered.ownerKnown f hf), ?_⟩
  simpa using List.ne_nil_of_mem hmem

/-- The groups of a class are in the order of their keys. -/
theorem pairwise_applicable :
    (applicable project.program.graph c (all project)).Pairwise fun a b => a.key c < b.key c := by
  have hincreasing : (all project).Pairwise fun a b => a.enclosing < b.enclosing :=
    List.pairwise_map.mpr (List.pairwise_lt_range.filter _)
  have hle : ∀ a b, (compareFor c a b).isLE = true ↔ a.key c ≤ b.key c :=
    fun _ _ => compareFor_isLE
  refine (pairwise_mergeSort_key hle (hincreasing.filter _)).imp ?_
  rintro a b (hlt | ⟨heq, hid⟩)
  · exact hlt
  · have hid' : a.enclosing = b.enclosing :=
      congrArg (fun k => (ofLex (ofLex (ofLex k).2).2).2) heq
    exact absurd hid' (Nat.ne_of_lt hid)

/-- The functions of a group are in the order of their sources, and of
their declarations where the source is the same. -/
theorem pairwise_inSourceOrder (numbered : project.Numbered) (t : TypeId) :
    (of project t).inSourceOrder.Pairwise fun a b => a.callable.key < b.callable.key := by
  have hle : ∀ a b, sourceOrder a b = true ↔ a.decl.source.key ≤ b.decl.source.key :=
    fun _ _ => SourcePos.compare_isLE
  have hincreasing : (of project t).functions.Pairwise fun a b =>
      a.callable.method.id < b.callable.method.id := by
    rw [functions_of]
    exact List.pairwise_map.mpr (numbered.increasing.filter _)
  exact (pairwise_mergeSort_key hle hincreasing).imp Prod.Lex.toLex_lt_toLex.mpr

/-- If groups are ordered by a key of their types, then their functions
are, and those of one type by source. -/
theorem pairwise_flatMap_inSourceOrder {κ : Type} [LinearOrder κ] (key : TypeId → κ)
    (numbered : project.Numbered) {groups : List FunctionGroup} (hsub : groups ⊆ all project)
    (hkey : groups.Pairwise fun a b => key a.enclosing < key b.enclosing) :
    (groups.flatMap inSourceOrder).Pairwise fun a b =>
      toLex (key a.callable.method.owner, a.callable.key)
        < toLex (key b.callable.method.owner, b.callable.key) := by
  have howner : ∀ group ∈ groups, ∀ f ∈ group.inSourceOrder,
      f.callable.method.owner = group.enclosing := by
    intro group hgroup f hf
    obtain ⟨t, _, rfl⟩ := List.mem_map.mp (hsub hgroup)
    obtain ⟨g, _, howner, rfl⟩ := mem_inSourceOrder_of.mp hf
    exact howner
  refine List.pairwise_flatMap.mpr ⟨?_, hkey.imp_of_mem ?_⟩
  · intro group hgroup
    obtain ⟨t, _, rfl⟩ := List.mem_map.mp (hsub hgroup)
    refine (pairwise_inSourceOrder numbered t).imp_of_mem fun {f g} hf hg hlt => ?_
    rw [howner _ hgroup f hf, howner _ hgroup g hg]
    exact Prod.Lex.toLex_lt_toLex.mpr (.inr ⟨rfl, hlt⟩)
  · intro a b ha hb hab f hf g hg
    rw [howner a ha f hf, howner b hb g hg]
    exact Prod.Lex.toLex_lt_toLex.mpr (.inl hab)

/-- Functions in strict order are given by which ones they are. -/
theorem eq_map_composed {κ : Type} [LinearOrder κ] (key : Callable → κ) {fs : List FunctionStub}
    {cs : List Callable} (hfs : fs.Pairwise fun a b => key a.callable < key b.callable)
    (hcs : cs.Pairwise fun a b => key a < key b)
    (hmem : ∀ f, f ∈ fs ↔ ∃ g ∈ cs, project.composed g = f) : fs = cs.map project.composed := by
  refine eq_of_pairwise_key (fun f : FunctionStub => key f.callable) hfs
    (List.pairwise_map.mpr hcs) fun f => ?_
  rw [hmem, List.mem_map]

/-- What the groups of a class hold is what applies to the class. -/
theorem mem_flatMap_applicable (numbered : project.Numbered) {f : FunctionStub} :
    f ∈ (applicable project.program.graph c (all project)).flatMap inSourceOrder ↔
      ∃ g ∈ project.applicable c, project.composed g = f := by
  simp only [List.mem_flatMap, mem_applicable_iff, Project.mem_applicable]
  constructor
  · rintro ⟨_, ⟨t, _, happlies, rfl⟩, hf⟩
    obtain ⟨g, hg, rfl, rfl⟩ := mem_inSourceOrder_of.mp hf
    exact ⟨g, ⟨hg, happlies⟩, rfl⟩
  · rintro ⟨g, ⟨hg, happlies⟩, rfl⟩
    exact ⟨_, ⟨g.method.owner, mem_declaringTypes numbered hg, happlies, rfl⟩,
      mem_inSourceOrder_of.mpr ⟨g, hg, rfl, rfl⟩⟩

/-- **The groups in order are the applicable functions in order.** -/
theorem applicable_flatMap (numbered : project.Numbered) :
    (applicable project.program.graph c (all project)).flatMap inSourceOrder
      = (project.applicable c).map project.composed := by
  refine eq_map_composed (project.functionKey c) ?_ numbered.pairwise_applicable fun _ =>
    mem_flatMap_applicable numbered
  refine pairwise_flatMap_inSourceOrder (project.typeKey c) numbered ?_ ?_
  · intro group hgroup
    exact List.mem_of_mem_filter (List.mem_mergeSort.mp hgroup)
  · refine pairwise_applicable.imp_of_mem fun {a b} ha hb hab => ?_
    obtain ⟨s, _, _, rfl⟩ := mem_applicable_iff.mp ha
    obtain ⟨t, _, _, rfl⟩ := mem_applicable_iff.mp hb
    exact hab

end FunctionGroup

end ApiStubs
