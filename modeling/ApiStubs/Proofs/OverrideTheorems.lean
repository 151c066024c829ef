/-
ApiStubs.Proofs.OverrideTheorems — overriding, and what is left out of a
stub because of it.

A stub is filled by walking a list of functions and leaving out those
that an earlier one overrides. The set of used functions that the walk
carries has no part in that (`run_place`). The walk compares with the
functions KEPT so far; `firstVersions` compares with ALL earlier ones,
kept or not, and does not mention the walk. The two agree
(`withoutOverridden_map`) because overriding is transitive: what overrides
a function that was left out is already overridden by whatever the latter
was left out for.

Among functions that are not static, overriding is an equivalence
(`overrides_self`, `overrides_symm`, `overrides_trans`). So a list of
first versions has exactly one function of every class in the whole list
(`countP_firstVersions`), and no two of the same class
(`pairwise_firstVersions`). A static function overrides nothing and is
overridden by nothing.
-/
import Mathlib.Data.List.Induction
import Mathlib.Data.List.Sort
import ApiStubs.Stub.Group

namespace ApiStubs

/-! ## Types are the same when they are equal -/

namespace ValueType

mutual

theorem same_iff : ∀ (a b : ValueType), a.same b = true ↔ a = b
  | .void, b => by cases b <;> simp [same]
  | .number _ _, b => by cases b <;> simp [same]
  | .boolean _, b => by cases b <;> simp [same]
  | .string _, b => by cases b <;> simp [same]
  | .any, b => by cases b <;> simp [same]
  | .wildcard, b => by cases b <;> simp [same]
  | .array e, b => by cases b <;> simp [same, same_iff e]
  | .map k v, b => by cases b <;> simp [same, sameArgument_iff k, sameArgument_iff v]
  | .list e, b => by cases b <;> simp [same, sameArgument_iff e]
  | .optional t, b => by cases b <;> simp [same, same_iff t]
  | .coerced t, b => by cases b <;> simp [same, same_iff t]
  | .union ts, b => by cases b <;> simp [same, sameAll_iff ts]
  | .multiResult, b => by cases b <;> simp [same]
  | .arguments, b => by cases b <;> simp [same]
  | .context, b => by cases b <;> simp [same]
  | .named _, b => by cases b <;> simp [same]

theorem sameArgument_iff : ∀ a b : Option ValueType, sameArgument a b = true ↔ a = b
  | none, b => by cases b <;> simp [sameArgument]
  | some t, b => by cases b <;> simp [sameArgument, same_iff t]

theorem sameAll_iff : ∀ as bs : List ValueType, sameAll as bs = true ↔ as = bs
  | [], bs => by cases bs <;> simp [sameAll]
  | t :: ts, bs => by cases bs <;> simp [sameAll, same_iff t, sameAll_iff ts]

end

end ValueType

/-! ## Overriding is an equivalence -/

namespace MethodDecl

theorem overrides_iff {a b : MethodDecl} :
    a.overrides b = true ↔ a.isStatic = false ∧ b.isStatic = false ∧ a.name = b.name ∧
      a.params.map (·.type) = b.params.map (·.type) := by
  simp [overrides, ValueType.sameAll_iff, and_assoc]

theorem overrides_self {a : MethodDecl} (h : a.isStatic = false) : a.overrides a = true :=
  overrides_iff.mpr ⟨h, h, rfl, rfl⟩

theorem overrides_symm {a b : MethodDecl} (h : a.overrides b = true) : b.overrides a = true := by
  obtain ⟨ha, hb, hname, hparams⟩ := overrides_iff.mp h
  exact overrides_iff.mpr ⟨hb, ha, hname.symm, hparams.symm⟩

theorem overrides_trans {a b c : MethodDecl} (hab : a.overrides b = true)
    (hbc : b.overrides c = true) : a.overrides c = true := by
  obtain ⟨ha, _, hname, hparams⟩ := overrides_iff.mp hab
  obtain ⟨_, hc, hname', hparams'⟩ := overrides_iff.mp hbc
  exact overrides_iff.mpr ⟨ha, hc, hname.trans hname', hparams.trans hparams'⟩

/-- Nothing overrides a static method. -/
theorem not_overrides_static {a b : MethodDecl} (hb : b.isStatic = true) :
    a.overrides b = false := by
  simp [overrides, hb]

end MethodDecl

/-! ## First versions -/

namespace Callable

/-- Does a function override another? -/
def overrides (a b : Callable) : Bool :=
  a.method.decl.overrides b.method.decl

/-- The functions of a list that no function before them overrides. -/
def firstVersions (fs : List Callable) : List Callable :=
  (fs.zipIdx.filter fun (f, i) => !(fs.take i).any (·.overrides f)).map (·.1)

@[simp] theorem firstVersions_nil : firstVersions [] = [] := rfl

/-- One more function at the end is a first version or it is not; it
changes nothing for those before it. -/
theorem firstVersions_concat (fs : List Callable) (f : Callable) :
    firstVersions (fs ++ [f])
      = firstVersions fs ++ if fs.any (·.overrides f) then [] else [f] := by
  have hbefore : (fs.zipIdx.filter fun (g, i) => !((fs ++ [f]).take i).any (·.overrides g))
      = fs.zipIdx.filter fun (g, i) => !(fs.take i).any (·.overrides g) := by
    apply List.filter_congr
    rintro ⟨g, i⟩ hmem
    have hi : i < fs.length := by simpa using (List.mem_zipIdx hmem).2.1
    simp only [List.take_append_of_le_length (Nat.le_of_lt hi)]
  simp only [firstVersions, List.zipIdx_append, List.filter_append, List.map_append, hbefore]
  congr 1
  cases h : fs.any (·.overrides f) <;> simp [h]

theorem firstVersions_sublist (fs : List Callable) : (firstVersions fs).Sublist fs := by
  have h : (firstVersions fs).Sublist (fs.zipIdx.map (·.1)) := List.filter_sublist.map _
  simpa using h

theorem mem_of_mem_firstVersions {fs : List Callable} {f : Callable} (h : f ∈ firstVersions fs) :
    f ∈ fs :=
  (firstVersions_sublist fs).subset h

/-- First versions override whatever the whole list overrides. What is not
a first version has an earlier function that overrides it, and so
overrides the same. -/
theorem any_firstVersions (fs : List Callable) (f : Callable) :
    (firstVersions fs).any (·.overrides f) = fs.any (·.overrides f) := by
  induction fs using List.reverseRecOn with
  | nil => rfl
  | append_singleton fs g ih =>
    rw [firstVersions_concat, List.any_append, List.any_append, ih]
    cases hg : fs.any (·.overrides g) with
    | false => simp
    | true =>
      obtain ⟨e, he, heg⟩ := List.any_eq_true.mp hg
      cases hgf : g.overrides f with
      | false => simp [hgf]
      | true =>
        have hef : fs.any (·.overrides f) = true :=
          List.any_eq_true.mpr ⟨e, he, MethodDecl.overrides_trans heg hgf⟩
        simp [hef]

/-- No two first versions override each other. -/
theorem pairwise_firstVersions (fs : List Callable) :
    (firstVersions fs).Pairwise fun a b => a.overrides b = false ∧ b.overrides a = false := by
  induction fs using List.reverseRecOn with
  | nil => simp
  | append_singleton fs g ih =>
    rw [firstVersions_concat]
    cases hg : fs.any (·.overrides g) with
    | true => simpa using ih
    | false =>
      refine List.pairwise_append.mpr ⟨ih, by simp, ?_⟩
      intro a ha b hb
      obtain rfl : b = g := by simpa using hb
      have hab : a.overrides b = false := by
        simpa using List.any_eq_false.mp hg a (mem_of_mem_firstVersions ha)
      refine ⟨hab, ?_⟩
      cases hba : b.overrides a with
      | false => rfl
      | true => exact absurd (MethodDecl.overrides_symm hba) (by simpa [overrides] using hab)

/-- Static functions are first versions. -/
theorem mem_firstVersions_of_static {fs : List Callable} {f : Callable} (hf : f ∈ fs)
    (hstatic : f.method.decl.isStatic = true) : f ∈ firstVersions fs := by
  induction fs using List.reverseRecOn with
  | nil => exact hf
  | append_singleton fs g ih =>
    rw [firstVersions_concat]
    rcases List.mem_append.mp hf with hf | hf
    · exact List.mem_append_left _ (ih hf)
    · obtain rfl : f = g := by simpa using hf
      have hnone : fs.any (·.overrides f) = false :=
        List.any_eq_false.mpr fun e _ => by
          simp [overrides, MethodDecl.not_overrides_static hstatic]
      simp [hnone]

/-- Every class of functions that override each other has exactly one first
version. -/
theorem countP_firstVersions {fs : List Callable} {f : Callable} (hf : f ∈ fs)
    (hstatic : f.method.decl.isStatic = false) :
    (firstVersions fs).countP (·.overrides f) = 1 := by
  have hsome : 0 < (firstVersions fs).countP (·.overrides f) := by
    have hany : (firstVersions fs).any (·.overrides f) = true := by
      rw [any_firstVersions]
      exact List.any_eq_true.mpr ⟨f, hf, MethodDecl.overrides_self hstatic⟩
    obtain ⟨g, hg, hgf⟩ := List.any_eq_true.mp hany
    exact List.countP_pos_iff.mpr ⟨g, hg, hgf⟩
  have hpair := (pairwise_firstVersions fs).sublist
    (List.filter_sublist (p := (·.overrides f)))
  -- Two that override `f` override each other, so the second cannot be there.
  match hfilter : (firstVersions fs).filter (·.overrides f) with
  | [] => simp [List.countP_eq_length_filter, hfilter] at hsome
  | [_] => simp [List.countP_eq_length_filter, hfilter]
  | a :: b :: rest =>
    rw [hfilter] at hpair
    have hof : ∀ e ∈ a :: b :: rest, e.overrides f = true := by
      intro e he
      rw [← hfilter] at he
      exact (List.mem_filter.mp he).2
    have ha : a.overrides f = true := hof a (by simp)
    have hb : b.overrides f = true := hof b (by simp)
    have hab := (List.rel_of_pairwise_cons hpair List.mem_cons_self).1
    have hab' : a.overrides b = true :=
      MethodDecl.overrides_trans ha (MethodDecl.overrides_symm hb)
    rw [hab'] at hab
    cases hab

/-- In a list that is strictly ordered by a key, a first version is a
member that no member with a smaller key overrides. -/
theorem mem_firstVersions_iff {κ : Type} [LinearOrder κ] {key : Callable → κ}
    {fs : List Callable} (ordered : fs.Pairwise fun a b => key a < key b) {f : Callable} :
    f ∈ firstVersions fs ↔ f ∈ fs ∧ ∀ e ∈ fs, key e < key f → e.overrides f = false := by
  induction fs using List.reverseRecOn with
  | nil => simp
  | append_singleton fs g ih =>
    obtain ⟨hfs, _, hlast⟩ := List.pairwise_append.mp ordered
    have hlast : ∀ e ∈ fs, key e < key g := fun e he => hlast e he g (by simp)
    rw [firstVersions_concat, List.mem_append, ih hfs]
    constructor
    · rintro (⟨hf, hnone⟩ | hf)
      · refine ⟨List.mem_append_left _ hf, fun e he hef => ?_⟩
        rcases List.mem_append.mp he with he | he
        · exact hnone e he hef
        · obtain rfl : e = g := by simpa using he
          exact absurd hef (lt_asymm (hlast f hf))
      · split at hf
        · cases hf
        · next hany =>
          obtain rfl : f = g := by simpa using hf
          refine ⟨by simp, fun e he hef => ?_⟩
          rcases List.mem_append.mp he with he | he
          · simpa using List.any_eq_false.mp (by simpa using hany) e he
          · obtain rfl : e = f := by simpa using he
            exact absurd hef (lt_irrefl _)
    · rintro ⟨hf, hnone⟩
      rcases List.mem_append.mp hf with hf | hf
      · exact .inl ⟨hf, fun e he => hnone e (List.mem_append_left _ he)⟩
      · obtain rfl : f = g := by simpa using hf
        have hany : fs.any (·.overrides f) = false :=
          List.any_eq_false.mpr fun e he => by
            simpa using hnone e (List.mem_append_left _ he) (hlast e he)
        exact .inr (by simp [hany])

end Callable

/-! ## The walk gives the first versions -/

namespace FunctionGroup

/-- The functions without those that one of `kept`, or one kept before
them, overrides. -/
def withoutOverridden (kept : List MethodDecl) : List FunctionStub → List FunctionStub
  | [] => []
  | f :: fs =>
    if kept.any (·.overrides f.decl) then withoutOverridden kept fs
    else f :: withoutOverridden (kept ++ [f.decl]) fs

/-- The set of used functions after some more are used. -/
def marked (used : List MethodId) (fs : List FunctionStub) : List MethodId :=
  fs.foldl (fun used f => used.insert f.callable.method.id) used

theorem mem_marked {id : MethodId} {fs : List FunctionStub} {used : List MethodId} :
    id ∈ marked used fs ↔ id ∈ used ∨ ∃ f ∈ fs, f.callable.method.id = id := by
  induction fs generalizing used with
  | nil => simp [marked]
  | cons f fs ih =>
    show id ∈ marked (used.insert f.callable.method.id) fs ↔ _
    rw [ih, List.mem_insert_iff, List.exists_mem_cons_iff, ← or_assoc]
    exact or_congr_left (or_comm.trans (or_congr_right eq_comm))

/-- **The walk marks every function and keeps some.** Which ones it keeps
does not depend on what is marked. -/
theorem run_place (fs : List FunctionStub) (kept : List MethodDecl) (used : List MethodId) :
    (place kept fs).run used = (withoutOverridden kept fs, marked used fs) := by
  induction fs generalizing kept used with
  | nil => rfl
  | cons f fs ih =>
    by_cases h : kept.any (·.overrides f.decl) = true
    · rw [place, withoutOverridden, if_pos h, if_pos h]
      exact ih kept (used.insert f.callable.method.id)
    · rw [place, withoutOverridden, if_neg h, if_neg h]
      exact congrArg (fun rest => (f :: rest.1, rest.2))
        (ih (kept ++ [f.decl]) (used.insert f.callable.method.id))

/-- The walk over one more function at the end. -/
theorem withoutOverridden_concat (f : FunctionStub) :
    ∀ (fs : List FunctionStub) (kept : List MethodDecl),
      withoutOverridden kept (fs ++ [f])
        = withoutOverridden kept fs
          ++ if (kept ++ (withoutOverridden kept fs).map (·.decl)).any (·.overrides f.decl)
            then [] else [f]
  | [], kept => by
    by_cases h : kept.any (·.overrides f.decl) <;> simp [withoutOverridden, h]
  | g :: fs, kept => by
    by_cases h : kept.any (·.overrides g.decl)
    · simp [withoutOverridden, h, withoutOverridden_concat f fs kept]
    · simp [withoutOverridden, h, withoutOverridden_concat f fs (kept ++ [g.decl])]

/-- **The walk keeps the first versions**, however the functions are
composed. -/
theorem withoutOverridden_map {compose : Callable → FunctionStub}
    (hcompose : ∀ f, (compose f).callable = f) (fs : List Callable) :
    withoutOverridden [] (fs.map compose) = (Callable.firstVersions fs).map compose := by
  have hdecl : ∀ f, (compose f).decl = f.method.decl := fun f => by
    rw [FunctionStub.decl, hcompose]
  induction fs using List.reverseRecOn with
  | nil => rfl
  | append_singleton fs f ih =>
    have hkept : (((Callable.firstVersions fs).map compose).map (·.decl)).any
        (·.overrides (compose f).decl) = fs.any (·.overrides f) := by
      rw [← Callable.any_firstVersions]
      simp only [List.any_map, Function.comp_def, hdecl, Callable.overrides]
    rw [List.map_append, List.map_singleton, withoutOverridden_concat, ih, List.nil_append, hkept,
      Callable.firstVersions_concat]
    cases fs.any (·.overrides f) <;> simp

end FunctionGroup

end ApiStubs
