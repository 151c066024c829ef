/-
ApiStubs.Proofs.CutTheorems — what texts are taken apart into.

The names of a documented type are cut out of one text: a known start is
dropped, the rest is cut at the first of some character, and the pieces
are trimmed. Each step is characterised by putting the pieces together
again (`after_eq_some_iff`, `cut_eq_some_iff`), and trimming by what it
leaves: a text without blanks at its ends (`Trimmed`), which is empty only
if there was nothing but blanks.
-/
import ApiStubs.Proofs.BracketText
import ApiStubs.Proofs.FenceTheorems

namespace ApiStubs.Text

/-! ## Known starts -/

theorem afterChars_append (start rest : List Char) :
    afterChars start (start ++ rest) = some rest := by
  induction start with
  | nil => rfl
  | cons c start ih => simpa [afterChars] using ih

/-- What follows a start is what has to be put after it. -/
theorem after_eq_some_iff {start s rest : String} :
    after start s = some rest ↔ s = start ++ rest := by
  constructor
  · intro h
    obtain ⟨chars, hchars, rfl⟩ := Option.map_eq_some_iff.mp h
    apply String.toList_inj.mp
    simpa using afterChars_eq_some hchars
  · rintro rfl
    simp [after, afterChars_append]

theorem after_eq_none_iff {start s : String} :
    after start s = none ↔ ∀ rest, s ≠ start ++ rest := by
  rw [Option.eq_none_iff_forall_ne_some]
  exact forall_congr' fun rest => not_congr after_eq_some_iff

/-! ## The first of a character -/

theorem cutChars_append {sep : Char} {cs : List Char} (h : sep ∉ cs) (rest : List Char) :
    cutChars sep (cs ++ sep :: rest) = some (cs, rest) := by
  induction cs with
  | nil => simp [cutChars]
  | cons c cs ih =>
    obtain ⟨hc, hcs⟩ : sep ≠ c ∧ sep ∉ cs := by simpa using h
    simp [cutChars, Ne.symm hc, ih hcs]

/-- Cutting gives what stands around the first separator. -/
theorem cut_eq_some_iff {sep : Char} {s first rest : String} :
    cut sep s = some (first, rest) ↔
      s = first ++ String.ofList [sep] ++ rest ∧ sep ∉ first.toList := by
  constructor
  · intro h
    obtain ⟨heq, hnot⟩ := cut_eq_some h
    refine ⟨String.toList_inj.mp ?_, hnot⟩
    simpa using heq
  · rintro ⟨rfl, hnot⟩
    simp [cut, cutChars_append hnot]

theorem cut_eq_none_iff {sep : Char} {s : String} : cut sep s = none ↔ sep ∉ s.toList := by
  rw [cut, Option.map_eq_none_iff]
  induction s.toList with
  | nil => simp [cutChars]
  | cons c cs ih =>
    by_cases hc : c = sep
    · simp [cutChars, hc]
    · simp [cutChars, hc, Ne.symm hc, ih]

/-! ## Trimming -/

/-- The text has no blank at either end. -/
structure Trimmed (s : String) : Prop where
  first : ∀ c ∈ first? s, isBlank c = false
  last : ∀ c ∈ last? s, isBlank c = false

theorem trimRight_eq_reverse (cs : List Char) :
    (trimRight cs).reverse = trimLeft cs.reverse := by
  rw [trimRight, List.reverse_reverse]

theorem trimmed_trim (s : String) : Trimmed (trim s) where
  first := by
    intro c hc
    rw [first?, trim, String.toList_ofList] at hc
    -- What is trimmed at the end leaves the first character, or nothing.
    have hstart : trimRight (trimLeft s.toList) <+: trimLeft s.toList := by
      rw [← List.reverse_suffix, trimRight_eq_reverse]
      exact List.dropWhile_suffix _
    refine head?_trimLeft s.toList c ?_
    obtain ⟨rest, hrest⟩ := hstart
    rw [← hrest, List.head?_append, Option.mem_def.mp hc]
    rfl
  last := by
    intro c hc
    rw [last?, trim, String.toList_ofList, ← List.head?_reverse, trimRight_eq_reverse] at hc
    exact head?_trimLeft _ c hc

/-- Only blanks are trimmed to nothing. -/
theorem trim_eq_empty_iff {s : String} : trim s = "" ↔ Blank s := by
  constructor
  · intro h
    by_contra hblank
    have hleft : trimLeft s.toList ≠ [] := fun hnil => hblank (List.dropWhile_eq_nil_iff.mp hnil)
    have hright : trimLeft (trimLeft s.toList).reverse = [] := by
      rw [← trimRight_eq_reverse, ← String.toList_ofList (l := trimRight (trimLeft s.toList))]
      show (trim s).toList.reverse = []
      rw [h]
      rfl
    -- The first character that is left is not a blank, so it stays.
    obtain ⟨c, hc⟩ := Option.ne_none_iff_exists'.mp
      (fun hnone => hleft (List.head?_eq_none_iff.mp hnone))
    have hall := List.dropWhile_eq_nil_iff.mp hright c
      (List.mem_reverse.mpr (List.mem_of_mem_head? hc))
    rw [head?_trimLeft _ c hc] at hall
    cases hall
  · intro h
    have hleft : trimLeft s.toList = [] := List.dropWhile_eq_nil_iff.mpr h
    rw [trim, hleft]
    rfl

theorem last?_append (a b : String) : last? (a ++ b) = (last? b).or (last? a) := by
  simp [last?, List.getLast?_append]

theorem last?_eq_none_iff {s : String} : last? s = none ↔ s = "" := by
  simp [last?]

/-- A trimmed text does not end with blanks. -/
theorem Trimmed.eq_empty_of_blank {s rest : String} (h : Trimmed (s ++ rest))
    (hblank : Blank rest) : rest = "" := by
  rw [← last?_eq_none_iff, Option.eq_none_iff_forall_ne_some]
  intro c hc
  have hlast : isBlank c = false := h.last c (by rw [last?_append, hc]; rfl)
  cases (hblank c (List.mem_of_getLast? hc)).symm.trans hlast

end ApiStubs.Text
