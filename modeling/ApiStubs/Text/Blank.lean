/-
ApiStubs.Text.Blank — blank characters and trimming.

A blank is a character with the Unicode property White_Space; the table
below lists all twenty-five of them as ranges. Module names, kinds and
fenced literals are trimmed of blanks on both ends, so an ASCII test
would not do: a no-break space at the end of a name is dropped too.
-/

namespace ApiStubs.Text

/-! ## The White_Space property -/

/-- The ranges of code points with the property White_Space, in
increasing order. -/
def blankRanges : List (Nat × Nat) :=
  [(0x0009, 0x000D), (0x0020, 0x0020), (0x0085, 0x0085), (0x00A0, 0x00A0),
   (0x1680, 0x1680), (0x2000, 0x200A), (0x2028, 0x2029), (0x202F, 0x202F),
   (0x205F, 0x205F), (0x3000, 0x3000)]

/-- Does the character have the property White_Space? -/
def isBlank (c : Char) : Bool :=
  blankRanges.any fun r => r.1 ≤ c.toNat && c.toNat ≤ r.2

/-! ## Trimming -/

/-- The characters without the blanks at their start. -/
def trimLeft (cs : List Char) : List Char :=
  cs.dropWhile isBlank

/-- The characters without the blanks at their end. -/
def trimRight (cs : List Char) : List Char :=
  (trimLeft cs.reverse).reverse

/-- The text without the blanks at either end. -/
def trim (s : String) : String :=
  String.ofList (trimRight (trimLeft s.toList))

end ApiStubs.Text
