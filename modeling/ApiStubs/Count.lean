/-
ApiStubs.Count — counting what is left.

Walks that keep what they have seen end because fewer elements of a fixed
list are left to see at every step.
-/

namespace ApiStubs.Count

/-- How many elements of a list have a key that is not in `seen`. -/
def left {α : Type} (key : α → Nat) (seen : List Nat) (xs : List α) : Nat :=
  xs.countP (key · ∉ seen)

theorem left_le_of_subset {α : Type} (key : α → Nat) {seen more : List Nat} (h : seen ⊆ more)
    (xs : List α) : left key more xs ≤ left key seen xs := by
  apply List.countP_mono_left
  intro x _ hx
  simp only [decide_eq_true_eq] at hx ⊢
  exact fun hmem => hx (h hmem)

theorem left_cons_le {α : Type} (key : α → Nat) (seen : List Nat) (k : Nat) (xs : List α) :
    left key (k :: seen) xs ≤ left key seen xs :=
  left_le_of_subset key (List.subset_cons_self k seen) xs

/-- Seeing the key of one more element leaves fewer. -/
theorem left_cons_lt {α : Type} {key : α → Nat} {seen : List Nat} {x : α} {xs : List α}
    (hx : x ∈ xs) (hseen : key x ∉ seen) : left key (key x :: seen) xs < left key seen xs := by
  obtain ⟨before, rest, rfl⟩ := List.append_of_mem hx
  have hb := left_cons_le key seen (key x) before
  have hr := left_cons_le key seen (key x) rest
  simp only [left, List.countP_append, List.countP_cons, List.mem_cons, true_or, not_true,
    decide_false, hseen, not_false_iff, decide_true, if_true, Bool.false_eq_true, if_false] at *
  omega

end ApiStubs.Count
