/-
ApiStubs.Proofs.BracketText — where closing brackets come from.

A comment block of a stub ends at the first `]]`. Two brackets get next to
each other in one text, or where one text ends and the next begins
(`closing_append`). Most texts have no closing bracket at all
(`Bracketless`), and taking texts apart makes none. Type expressions and
names have some, but none at either end (`Tame`).
-/
import ApiStubs.Path
import ApiStubs.Render.TypeText
import ApiStubs.Text.Blank
import Mathlib.Data.Nat.Digits.Defs
import Mathlib.Data.List.Infix

namespace ApiStubs

namespace Text

/-! ## Two brackets in a row -/

/-- Has the text no closing bracket? -/
def Bracketless (s : String) : Prop := ']' ∉ s.toList

instance (s : String) : Decidable (Bracketless s) :=
  inferInstanceAs (Decidable (']' ∉ s.toList))

/-- Has the text two closing brackets in a row, which end a comment block? -/
def Closing (s : String) : Prop := [']', ']'] <:+: s.toList

instance (s : String) : Decidable (Closing s) :=
  inferInstanceAs (Decidable ([']', ']'] <:+: s.toList))

/-- The first character, if there is one. -/
def first? (s : String) : Option Char := s.toList.head?

theorem first?_append_ne {a b : String} {c : Char} (ha : first? a ≠ some c)
    (hb : first? b ≠ some c) : first? (a ++ b) ≠ some c := by
  unfold first? at *
  rw [String.toList_append, List.head?_append]
  cases hfirst : a.toList.head? with
  | none => exact hb
  | some d => rwa [hfirst] at ha

theorem last?_append_ne {a b : String} {c : Char} (ha : last? a ≠ some c)
    (hb : last? b ≠ some c) : last? (a ++ b) ≠ some c := by
  unfold last? at *
  rw [String.toList_append, List.getLast?_append]
  cases hlast : b.toList.getLast? with
  | none => exact ha
  | some d => rwa [hlast] at hb

theorem last?_eq_some_iff {s : String} {c : Char} : last? s = some c ↔ [c] <:+ s.toList := by
  rw [last?, List.getLast?_eq_some_iff]
  exact exists_congr fun _ => eq_comm

theorem first?_eq_some_iff {s : String} {c : Char} : first? s = some c ↔ [c] <+: s.toList := by
  rw [first?, List.head?_eq_some_iff]
  exact exists_congr fun _ => eq_comm

theorem closing_append (a b : String) :
    Closing (a ++ b) ↔
      Closing a ∨ Closing b ∨ last? a = some ']' ∧ first? b = some ']' := by
  unfold Closing
  rw [String.toList_append, List.infix_append_iff, last?_eq_some_iff, first?_eq_some_iff]
  constructor
  · rintro (h | h | ⟨left, right, heq, hleft, hright⟩)
    · exact .inl h
    · exact .inr (.inl h)
    -- How many of the two brackets stand in the first text?
    · match left, heq with
      | [], heq => exact .inr (.inl (heq ▸ hright.isInfix))
      | [_], heq =>
        obtain ⟨rfl, rfl⟩ := List.cons.inj heq
        exact .inr (.inr ⟨hleft, hright⟩)
      | [_, _], heq =>
        obtain rfl : right = [] := by simpa using congrArg List.length heq
        exact .inl (by simpa [heq] using hleft.isInfix)
      | _ :: _ :: _ :: _, heq => simp at heq
  · rintro (h | h | ⟨hleft, hright⟩)
    · exact .inl h
    · exact .inr (.inl h)
    · exact .inr (.inr ⟨_, _, rfl, hleft, hright⟩)

theorem not_mem_append {c : Char} {s t : String} (hs : c ∉ s.toList) (ht : c ∉ t.toList) :
    c ∉ (s ++ t).toList := by
  rw [String.toList_append]
  exact fun h => (List.mem_append.mp h).elim hs ht

namespace Bracketless

variable {s t : String}

theorem append (hs : Bracketless s) (ht : Bracketless t) : Bracketless (s ++ t) :=
  not_mem_append hs ht

theorem not_closing (h : Bracketless s) : ¬ Closing s :=
  fun hclosing => h (hclosing.mem List.mem_cons_self)

end Bracketless

/-- Closing brackets only apart from one another, and none at either end. -/
structure Tame (s : String) : Prop where
  not_closing : ¬ Closing s
  first : first? s ≠ some ']'
  last : last? s ≠ some ']'

instance (s : String) : Decidable (Tame s) :=
  decidable_of_iff (¬ Closing s ∧ first? s ≠ some ']' ∧ last? s ≠ some ']')
    ⟨fun h => ⟨h.1, h.2.1, h.2.2⟩, fun h => ⟨h.not_closing, h.first, h.last⟩⟩

theorem Bracketless.tame {s : String} (h : Bracketless s) : Tame s where
  not_closing := h.not_closing
  first := fun hfirst => h (List.mem_of_head? hfirst)
  last := fun hlast => h (List.mem_of_getLast? hlast)

theorem Tame.append {s t : String} (hs : Tame s) (ht : Tame t) : Tame (s ++ t) where
  not_closing := by
    rw [closing_append]
    rintro (h | h | ⟨h, -⟩)
    · exact hs.not_closing h
    · exact ht.not_closing h
    · exact hs.last h
  first := first?_append_ne hs.first ht.first
  last := last?_append_ne hs.last ht.last

/-- The text closes a block exactly if `early` holds, and whatever stands
before it makes no difference. -/
structure ClosesIff (s : String) (early : Prop) : Prop where
  first : first? s ≠ some ']'
  closing : Closing s ↔ early

instance (s : String) : Decidable (ClosesIff s False) :=
  decidable_of_iff (first? s ≠ some ']' ∧ ¬ Closing s)
    ⟨fun h => ⟨h.1, iff_false_intro h.2⟩, fun h => ⟨h.first, h.closing.mp⟩⟩

theorem Tame.closesIff {s : String} (h : Tame s) : ClosesIff s False :=
  ⟨h.first, iff_false_intro h.not_closing⟩

theorem ClosesIff.append {s t : String} {early late : Prop} (hs : ClosesIff s early)
    (ht : ClosesIff t late) : ClosesIff (s ++ t) (early ∨ late) where
  first := first?_append_ne hs.first ht.first
  closing := by
    rw [closing_append, hs.closing, ht.closing]
    exact or_congr_right (or_iff_left fun h => ht.first h.2)

/-- Brackets around a text close a block if it does, or if it ends with a
bracket itself. -/
theorem ClosesIff.bracketed {s : String} {early : Prop} (h : ClosesIff s early) :
    ClosesIff ("[" ++ s ++ "]") (early ∨ last? s = some ']') where
  first := by
    rw [String.append_assoc]
    simp [first?]
  closing := by
    have hopened : ClosesIff ("[" ++ s) (False ∨ early) := ClosesIff.append (by decide) h
    have hlast : last? ("[" ++ s) = some ']' ↔ last? s = some ']' := by
      unfold last?
      rw [String.toList_append, List.getLast?_append]
      cases s.toList.getLast? with
      | none => decide
      | some c => rfl
    rw [closing_append, hopened.closing, hlast, false_or]
    refine or_congr_right ⟨?_, fun h => .inr ⟨h, by decide⟩⟩
    rintro (hclosing | ⟨h, -⟩)
    · exact absurd hclosing (by decide)
    · exact h

/-! ## Lines -/

/-- The text is empty, or it ends a line. -/
def WholeLines (s : String) : Prop := ∀ c ∈ last? s, c = '\n'

theorem WholeLines.append {s t : String} (hs : WholeLines s) (ht : WholeLines t) :
    WholeLines (s ++ t) := by
  unfold WholeLines last? at *
  rw [String.toList_append, List.getLast?_append]
  cases hlast : t.toList.getLast? with
  | none => exact hs
  | some c => rwa [hlast] at ht

theorem wholeLines_concat {texts : List String} (h : ∀ s ∈ texts, WholeLines s) :
    WholeLines (concat texts) := by
  induction texts with
  | nil => nofun
  | cons s texts ih =>
    obtain ⟨hs, htexts⟩ := List.forall_mem_cons.mp h
    exact hs.append (ih htexts)

/-- A name at the end of a line closes a block only by itself. -/
theorem not_closing_line {before name : String} (hbefore : ¬ Closing before)
    (hlast : last? before ≠ some ']') (hname : ¬ Closing name) :
    ¬ Closing (before ++ name ++ "\n") := by
  rw [closing_append, closing_append]
  rintro ((h | h | ⟨h, -⟩) | h | ⟨-, h⟩)
  · exact hbefore h
  · exact hname h
  · exact hlast h
  · exact absurd h (by decide)
  · exact absurd h (by decide)

theorem last?_line (s : String) : last? (s ++ "\n") = some '\n' := by
  simp [last?]

theorem wholeLines_line (s : String) : WholeLines (s ++ "\n") := by
  rw [WholeLines, last?_line]
  rintro _ ⟨⟩
  rfl

/-- A line and whole lines after it. -/
theorem last?_append_of_wholeLines {s t : String} (hs : last? s = some '\n')
    (ht : WholeLines t) : last? (s ++ t) = some '\n' := by
  unfold WholeLines last? at *
  rw [String.toList_append, List.getLast?_append]
  cases hlast : t.toList.getLast? with
  | none => exact hs
  | some c => rw [ht c hlast]; rfl

/-! ## Taking texts apart and putting them together -/

theorem bracketless_concat {texts : List String} (h : ∀ s ∈ texts, Bracketless s) :
    Bracketless (concat texts) := by
  induction texts with
  | nil => decide
  | cons s texts ih =>
    obtain ⟨hs, htexts⟩ := List.forall_mem_cons.mp h
    exact hs.append (ih htexts)

theorem bracketless_join {sep : String} (hsep : Bracketless sep) :
    ∀ {texts : List String}, (∀ s ∈ texts, Bracketless s) → Bracketless (join sep texts)
  | [], _ => by
    show Bracketless ""
    decide
  | [s], h => h s List.mem_cons_self
  | s :: t :: rest, h => by
    obtain ⟨hs, hrest⟩ := List.forall_mem_cons.mp h
    exact (hs.append hsep).append (bracketless_join hsep hrest)

theorem bracketless_spaces (n : Nat) : Bracketless (spaces n) := by
  simp [Bracketless, spaces]

theorem bracketless_repr (n : Nat) : Bracketless (Nat.repr n) := by
  intro hmem
  rw [Nat.repr, String.toList_ofList] at hmem
  exact absurd (Nat.isDigit_of_mem_toDigits (by decide) (by decide) hmem) (by decide)

theorem mem_of_mem_splitChars {sep c : Char} :
    ∀ {cs piece : List Char}, piece ∈ splitChars sep cs → c ∈ piece → c ∈ cs
  | [], piece, hpiece, hc => by
    obtain rfl := List.mem_singleton.mp hpiece
    exact hc
  | d :: cs, piece, hpiece, hc => by
    unfold splitChars at hpiece
    split at hpiece
    · rcases List.mem_cons.mp hpiece with rfl | hpiece
      · cases hc
      · exact List.mem_cons_of_mem _ (mem_of_mem_splitChars hpiece hc)
    · split at hpiece
      · obtain rfl := List.mem_singleton.mp hpiece
        exact List.mem_cons.mpr (.inl (List.mem_singleton.mp hc))
      · next first rest hsplit =>
        have hinner : ∀ {other}, other ∈ first :: rest → c ∈ other → c ∈ cs :=
          fun hother => mem_of_mem_splitChars (hsplit ▸ hother)
        rcases List.mem_cons.mp hpiece with rfl | hpiece
        · rcases List.mem_cons.mp hc with rfl | hc
          · exact List.mem_cons_self
          · exact List.mem_cons_of_mem _ (hinner List.mem_cons_self hc)
        · exact List.mem_cons_of_mem _ (hinner (List.mem_cons_of_mem _ hpiece) hc)

theorem not_mem_split {c : Char} {s : String} (h : c ∉ s.toList) (sep : Char) :
    ∀ piece ∈ Text.split sep s, c ∉ piece.toList := by
  intro piece hpiece
  obtain ⟨cs, hcs, rfl⟩ := List.mem_map.mp hpiece
  intro hmem
  rw [String.toList_ofList] at hmem
  exact h (mem_of_mem_splitChars hcs hmem)

theorem Bracketless.split {s : String} (h : Bracketless s) (sep : Char) :
    ∀ piece ∈ Text.split sep s, Bracketless piece :=
  not_mem_split h sep

theorem afterChars_eq_some : ∀ {start cs rest : List Char},
    afterChars start cs = some rest → cs = start ++ rest
  | [], _, _, h => Option.some.inj h
  | _ :: _, [], _, h => by cases h
  | a :: start, c :: cs, rest, h => by
    unfold afterChars at h
    split at h
    · next heq => rw [heq, afterChars_eq_some h, List.cons_append]
    · cases h

theorem Bracketless.after {s t start : String} (h : Bracketless s)
    (hafter : Text.after start s = some t) : Bracketless t := by
  obtain ⟨rest, hrest, rfl⟩ := Option.map_eq_some_iff.mp hafter
  intro hmem
  rw [String.toList_ofList] at hmem
  exact h (afterChars_eq_some hrest ▸ List.mem_append_right _ hmem)

theorem Bracketless.before {s t ending : String} (h : Bracketless s)
    (hbefore : Text.before ending s = some t) : Bracketless t := by
  obtain ⟨rest, hrest, rfl⟩ := Option.map_eq_some_iff.mp hbefore
  intro hmem
  rw [String.toList_ofList] at hmem
  refine h (List.mem_reverse.mp ?_)
  rw [afterChars_eq_some hrest]
  exact List.mem_append_right _ (List.mem_reverse.mp hmem)

theorem cutChars_eq_some {sep : Char} : ∀ {cs : List Char} {parts : List Char × List Char},
    cutChars sep cs = some parts → cs = parts.1 ++ sep :: parts.2 ∧ sep ∉ parts.1
  | [], _, h => by cases h
  | d :: cs, parts, h => by
    unfold cutChars at h
    split at h
    · next heq =>
      cases h
      exact ⟨by rw [heq]; rfl, List.not_mem_nil⟩
    · next hne =>
      obtain ⟨inner, hinner, rfl⟩ := Option.map_eq_some_iff.mp h
      obtain ⟨heq, hnot⟩ := cutChars_eq_some hinner
      refine ⟨by rw [heq]; rfl, ?_⟩
      rintro (_ | ⟨_, hmem⟩)
      · exact hne rfl
      · exact hnot hmem

theorem cut_eq_some {sep : Char} {s : String} {parts : String × String}
    (h : cut sep s = some parts) :
    s.toList = parts.1.toList ++ sep :: parts.2.toList ∧ sep ∉ parts.1.toList := by
  obtain ⟨chars, hchars, rfl⟩ := Option.map_eq_some_iff.mp h
  simpa using cutChars_eq_some hchars

theorem trim_sublist (s : String) : (trim s).toList.Sublist s.toList := by
  rw [trim, String.toList_ofList]
  have hright : ∀ cs, (trimRight cs).Sublist cs := by
    intro cs
    have h := (List.dropWhile_sublist isBlank (l := cs.reverse)).reverse
    rwa [List.reverse_reverse] at h
  exact (hright _).trans (List.dropWhile_sublist isBlank)

theorem Bracketless.trim {s : String} (h : Bracketless s) : Bracketless (Text.trim s) :=
  fun hmem => h ((trim_sublist s).subset hmem)

end Text

/-! ## Paths -/

namespace Path

open Text

/-- Is the character one that paths are put together with? -/
def Joining (x : Char) : Prop := x = '/' ∨ x = '.'

instance (x : Char) : Decidable (Joining x) :=
  inferInstanceAs (Decidable (x = '/' ∨ x = '.'))

section

variable {x : Char} (hx : ¬ Joining x)
include hx

theorem not_mem_slash : x ∉ "/".toList := by
  simpa using fun h : x = '/' => hx (.inl h)

theorem not_mem_up : x ∉ Component.up.text.toList := by
  simpa [Component.text] using fun h : x = '.' => hx (.inr h)

theorem not_mem_piece {s : String} {c : Component} (hs : x ∉ s.toList)
    (h : piece? s = some c) : x ∉ c.text.toList := by
  unfold piece? at h
  split at h
  · cases h
  · split at h
    · cases h
      exact not_mem_up hx
    · cases h
      exact hs

theorem not_mem_components {path : String} (h : x ∉ path.toList) :
    ∀ c ∈ components path, x ∉ c.text.toList := by
  have hpieces := not_mem_split h '/'
  unfold components
  cases hsplit : Text.split '/' path with
  | nil => nofun
  | cons first rest =>
    rw [hsplit] at hpieces
    obtain ⟨hfirst, hrest⟩ := List.forall_mem_cons.mp hpieces
    have hinner : ∀ c ∈ rest.filterMap piece?, x ∉ c.text.toList := by
      intro c hc
      obtain ⟨s, hs, hpiece⟩ := List.mem_filterMap.mp hc
      exact not_mem_piece hx (hrest s hs) hpiece
    simp only
    split
    · exact List.forall_mem_cons.mpr ⟨not_mem_slash hx, hinner⟩
    · split
      · next hhere =>
        subst hhere
        exact List.forall_mem_cons.mpr ⟨hfirst, hinner⟩
      · refine List.forall_mem_append.mpr ⟨fun c hc => ?_, hinner⟩
        exact not_mem_piece hx hfirst (Option.mem_toList.mp hc)

theorem not_mem_join {dir path : String} (hdir : x ∉ dir.toList) (hpath : x ∉ path.toList) :
    x ∉ (join dir path).toList := by
  unfold join
  split
  · exact hpath
  · split
    · exact not_mem_append hdir hpath
    · exact not_mem_append (not_mem_append hdir (not_mem_slash hx)) hpath

theorem not_mem_ofComponents {start : String} {cs : List Component} (hstart : x ∉ start.toList)
    (hcs : ∀ c ∈ cs, x ∉ c.text.toList) : x ∉ (ofComponents start cs).toList := by
  induction cs generalizing start with
  | nil => exact hstart
  | cons c cs ih =>
    obtain ⟨hc, hcs⟩ := List.forall_mem_cons.mp hcs
    exact ih (not_mem_join hx hstart hc) hcs

theorem not_mem_absolute {currentDir path : String} (hdir : x ∉ currentDir.toList)
    (hpath : x ∉ path.toList) : x ∉ (absolute currentDir path).toList := by
  unfold absolute
  split
  · exact List.not_mem_nil
  · have hstart : x ∉ (if isAbsolute path then absoluteStart path else currentDir).toList := by
      have hslash := not_mem_slash hx
      unfold absoluteStart
      split
      · split
        · exact not_mem_append hslash hslash
        · exact hslash
      · exact hdir
    have hplain := not_mem_ofComponents hx hstart fun c hc =>
      not_mem_components hx hpath c
        (List.mem_of_mem_filter (p := fun c => c ≠ .root && c ≠ .here) hc)
    simp only
    split
    · exact not_mem_join hx hplain List.not_mem_nil
    · exact hplain

end

/-- The way from one path to another goes up, and then down the latter. -/
theorem mem_of_mem_stepsFrom {c : Component} : ∀ {path base steps : List Component},
    stepsFrom path base = some steps → c ∈ steps → c ∈ path ∨ c = .up
  | path, [], steps, h, hc => by
    simp only [stepsFrom, Option.some.injEq] at h
    exact .inl (h ▸ hc)
  | [], b :: base, steps, h, hc => by
    simp only [stepsFrom, Option.some.injEq] at h
    subst h
    obtain ⟨_, _, rfl⟩ := List.mem_map.mp hc
    exact .inr rfl
  | a :: path, b :: base, steps, h, hc => by
    simp only [stepsFrom] at h
    split at h
    · exact (mem_of_mem_stepsFrom h hc).imp_left (List.mem_cons_of_mem a)
    · split at h
      · cases h
      · cases h
        rcases List.mem_append.mp hc with hc | hc
        · rcases List.mem_cons.mp hc with rfl | hc
          · exact .inr rfl
          · obtain ⟨_, _, rfl⟩ := List.mem_map.mp hc
            exact .inr rfl
        · exact .inl hc

/-- What is shown of a path, seen from a base, is made of the path alone. -/
theorem not_mem_relative {x : Char} (hx : ¬ Joining x) {path : String} (hpath : x ∉ path.toList)
    (base : String) : x ∉ ((relative? path base).getD path).toList := by
  unfold relative?
  split
  · cases hsteps : stepsFrom (components path) (components base) with
    | none => exact hpath
    | some steps =>
      refine not_mem_ofComponents hx List.not_mem_nil fun c hc => ?_
      rcases mem_of_mem_stepsFrom hsteps hc with hc | rfl
      · exact not_mem_components hx hpath c hc
      · exact not_mem_up hx
  · split <;> exact hpath

/-- **The root makes no difference**: a source is shown without brackets
if it has none. -/
theorem bracketless_fromRoot {currentDir file : String} (hdir : Bracketless currentDir)
    (hfile : Bracketless file) (root : String) :
    Bracketless (fromRoot currentDir root file) := by
  have hbracket : ¬ Joining ']' := by decide
  have hshown := not_mem_relative hbracket (not_mem_absolute hbracket hdir hfile)
    (absolute currentDir root)
  intro hmem
  rw [fromRoot, withSlashes, String.toList_ofList] at hmem
  obtain ⟨c, hc, heq⟩ := List.mem_map.mp hmem
  split at heq
  · exact absurd heq (by decide)
  · exact hshown (heq ▸ hc)

end Path

/-! ## Types -/

/-- Are the names of declared types tame? -/
def TypeNames.Tame (names : TypeNames) : Prop :=
  ∀ id name, names.name? id = some name → Text.Tame name

namespace TypeText

open Text

theorem tame_append {a b : TypeText} (ha : Tame a.text) (hb : Tame b.text) :
    Tame (a ++ b).text :=
  ha.append hb

theorem tame_sequence {element : TypeText} (h : Tame element.text) :
    Tame (sequence element).text :=
  tame_append (tame_append (by decide) h) (by decide)

/-- The brackets of a table stand around its key, which does not end with
one itself. -/
theorem tame_key {key : TypeText} (h : Tame key.text) :
    Tame (plain "\x7b [" ++ key ++ plain "] = ").text where
  not_closing := by
    have hkey : Tame ("\x7b [" ++ key.text) := Tame.append (by decide) h
    show ¬ Closing ("\x7b [" ++ key.text ++ "] = ")
    rw [closing_append]
    rintro (hclosing | hclosing | ⟨hlast, -⟩)
    · exact hkey.not_closing hclosing
    · exact absurd hclosing (by decide)
    · exact hkey.last hlast
  first := by
    show first? ("\x7b [" ++ key.text ++ "] = ") ≠ some ']'
    rw [String.append_assoc]
    simp [first?]
  last := by
    show last? ("\x7b [" ++ key.text ++ "] = ") ≠ some ']'
    rw [last?, String.toList_append, List.getLast?_append]
    exact (by decide : some ' ' ≠ some ']')

theorem tame_table {key value : Option TypeText} (hkey : ∀ k ∈ key, Tame k.text)
    (hvalue : ∀ v ∈ value, Tame v.text) : Tame (table key value).text := by
  have hargument : ∀ argument : Option TypeText, (∀ t ∈ argument, Tame t.text) →
      Tame (argument.getD (plain "any")).text := by
    intro argument h
    cases argument with
    | none => decide
    | some t => exact h t rfl
  unfold table
  split
  · decide
  · exact tame_append (tame_append (tame_key (hargument key hkey)) (hargument value hvalue))
      (by decide)

theorem tame_named {names : TypeNames} (hnames : names.Tame) (id : String) :
    Tame (named names id).text := by
  unfold named
  split
  · decide
  · cases hname : names.name? id with
    | some name => exact hnames id name hname
    | none => exact Bracketless.tame (by decide : Bracketless "")

end TypeText

namespace ValueType

open Text TypeText

mutual

/-- **A type expression is tame if the names in it are.** -/
theorem tame_write {names : TypeNames} (hnames : names.Tame) :
    ∀ t : ValueType, Tame (t.write names).text
  | .void => by simp only [write]; decide
  | .number _ _ => by simp only [write]; decide
  | .boolean _ => by simp only [write]; decide
  | .string _ => by simp only [write]; decide
  | .any => by simp only [write]; decide
  | .wildcard => by simp only [write]; decide
  | .array element => by
    simp only [write]
    split
    · decide
    · exact tame_sequence (tame_write hnames element)
  | .map key value => by
    simp only [write]
    exact tame_table (tame_writeArgument hnames key) (tame_writeArgument hnames value)
  | .list element => by
    have helement := tame_writeArgument hnames element
    simp only [write]
    split
    · next written hwritten => exact tame_sequence (helement written hwritten)
    · decide
  | .optional inner => by simp only [write]; exact tame_write hnames inner
  | .coerced inner => by simp only [write]; exact tame_write hnames inner
  | .union alternatives => by simp only [write]; exact tame_writeAlternatives hnames alternatives
  | .multiResult => by simp only [write]; decide
  | .arguments => by simp only [write]; decide
  | .context => by simp only [write]; decide
  | .named id => by simp only [write]; exact tame_named hnames id

theorem tame_writeArgument {names : TypeNames} (hnames : names.Tame) :
    ∀ t : Option ValueType, ∀ written ∈ writeArgument names t, Tame written.text
  | none, _, h => by simp [writeArgument] at h
  | some t, written, h => by
    unfold writeArgument at h
    split at h
    · cases h
    · cases h
    · next heq =>
      cases heq
      cases h
      exact tame_write hnames t

theorem tame_writeAlternatives {names : TypeNames} (hnames : names.Tame) :
    ∀ ts : List ValueType, Tame (writeAlternatives names ts).text
  | [] => by simp only [writeAlternatives]; decide
  | [t] => by simp only [writeAlternatives]; exact tame_write hnames t
  | t :: u :: ts => by
    simp only [writeAlternatives]
    exact tame_append (tame_append (tame_write hnames t) (by decide))
      (tame_writeAlternatives hnames (u :: ts))

end

end ValueType

end ApiStubs
