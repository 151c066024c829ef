/-
ApiStubs.Text.Cut — taking texts apart at characters.

Splitting at every separator, cutting at the first one, and dropping a
known start or end. All of them are plain recursions on the character
list, so that their laws are inductions on lists.
-/

namespace ApiStubs.Text

/-! ## Splitting at every separator -/

/-- The pieces between the occurrences of `sep`: one more piece than
there are separators, so the empty list has one empty piece. -/
def splitChars (sep : Char) : List Char → List (List Char)
  | [] => [[]]
  | c :: cs =>
    if c = sep then [] :: splitChars sep cs
    else
      match splitChars sep cs with
      | [] => [[c]]
      | piece :: pieces => (c :: piece) :: pieces

/-- The pieces of a text between the occurrences of `sep`. -/
def split (sep : Char) (s : String) : List String :=
  (splitChars sep s.toList).map String.ofList

/-! ## Cutting at the first separator -/

/-- What stands before and after the first `sep`, if there is one. -/
def cutChars (sep : Char) : List Char → Option (List Char × List Char)
  | [] => none
  | c :: cs =>
    if c = sep then some ([], cs)
    else (cutChars sep cs).map fun parts => (c :: parts.1, parts.2)

/-- What follows the first separator is shorter than the whole. -/
theorem length_cutChars_lt {sep : Char} :
    ∀ {cs : List Char} {parts : List Char × List Char},
      cutChars sep cs = some parts → parts.2.length < cs.length
  | [], _, h => by simp [cutChars] at h
  | c :: cs, parts, h => by
    unfold cutChars at h
    split at h
    · cases h; simp
    · obtain ⟨inner, hi, rfl⟩ := Option.map_eq_some_iff.1 h
      have := length_cutChars_lt hi
      simp only [List.length_cons]
      omega

/-- What stands before and after the first `sep` of a text. -/
def cut (sep : Char) (s : String) : Option (String × String) :=
  (cutChars sep s.toList).map fun parts =>
    (String.ofList parts.1, String.ofList parts.2)

/-! ## Known starts and ends -/

/-- What follows `start`, if the list begins with it. -/
def afterChars : List Char → List Char → Option (List Char)
  | [], cs => some cs
  | _ :: _, [] => none
  | a :: start, c :: cs => if a = c then afterChars start cs else none

/-- What follows `start`, if the text begins with it. -/
def after (start s : String) : Option String :=
  (afterChars start.toList s.toList).map String.ofList

/-- What precedes `ending`, if the text ends with it. -/
def before (ending s : String) : Option String :=
  (afterChars ending.toList.reverse s.toList.reverse).map
    fun cs => String.ofList cs.reverse

/-- Does the text begin with `start`? -/
def startsWith (start s : String) : Bool :=
  (afterChars start.toList s.toList).isSome

/-- The last character, if there is one. -/
def last? (s : String) : Option Char :=
  s.toList.getLast?

/-- `n` spaces. -/
def spaces (n : Nat) : String :=
  String.ofList (List.replicate n ' ')

/-- The texts joined by `sep`. -/
def join (sep : String) : List String → String
  | [] => ""
  | [s] => s
  | s :: rest => s ++ sep ++ join sep rest

/-- All texts one after the other. -/
def concat (texts : List String) : String :=
  texts.foldr (· ++ ·) ""

end ApiStubs.Text
