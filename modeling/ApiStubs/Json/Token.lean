/-
ApiStubs.Json.Token — the lexical level of JSON.

A text is cut into tokens. The grammar is strict: four blank characters,
no leading zeros, no raw control characters in strings, no other escapes
than the standard's. An escape that names half of a surrogate pair is
lexically fine; the string is then no Unicode text.

Every scanner returns what is left of the input and is a structural
recursion on it; the token loop ends because a token is never empty.
-/
import ApiStubs.Json.Basic

namespace ApiStubs.Json

/-- A lexical unit of JSON. -/
inductive Token where
  | openArray
  | closeArray
  | openObject
  | closeObject
  | comma
  | colon
  | null
  | bool (value : Bool)
  | number (value : Numeral)
  | text (value : Option String)
  deriving DecidableEq, Repr

/-! ## Numbers -/

/-- The digit that a character is. -/
def digit? (c : Char) : Option Digit :=
  if '0' ≤ c && c ≤ '9' then some (Fin.ofNat 10 (c.toNat - '0'.toNat)) else none

/-- The digits that a text starts with, after those `done`, and the
rest. -/
def takeDigits (done : List Digit) : List Char → List Digit × List Char
  | [] => (done.reverse, [])
  | c :: cs =>
    match digit? c with
    | some d => takeDigits (d :: done) cs
    | none => (done.reverse, c :: cs)

/-- At least one digit. -/
def takeSomeDigits (cs : List Char) : Option (List Digit × List Char) :=
  match takeDigits [] cs with
  | ([], _) => none
  | found => some found

/-- The digits before the point: a single zero, or digits that do not start
with one. -/
def takeWhole (cs : List Char) : Option (List Digit × List Char) :=
  (takeSomeDigits cs).filter fun (digits, _) => digits.head? ≠ some 0 || digits.length = 1

/-- The digits after the point, if there is a point. -/
def takeFraction : List Char → Option (Option (List Digit) × List Char)
  | '.' :: cs => (takeSomeDigits cs).map fun (digits, rest) => (some digits, rest)
  | cs => some (none, cs)

/-- The digits of an exponent. -/
def takeExponentDigits (negative : Bool) (cs : List Char) : Option (Option Int × List Char) :=
  (takeSomeDigits cs).map fun (digits, rest) =>
    let value : Int := (digits.foldl Numeral.push 0 : Nat)
    (some (if negative then -value else value), rest)

/-- The exponent, if there is one. -/
def takeExponent : List Char → Option (Option Int × List Char)
  | [] => some (none, [])
  | c :: cs =>
    if c = 'e' || c = 'E' then
      match cs with
      | '+' :: rest => takeExponentDigits false rest
      | '-' :: rest => takeExponentDigits true rest
      | rest => takeExponentDigits false rest
    else some (none, c :: cs)

/-- A number after its sign. -/
def takeUnsigned (negative : Bool) (cs : List Char) : Option (Numeral × List Char) := do
  let (whole, cs) ← takeWhole cs
  let (fraction, cs) ← takeFraction cs
  let (exponent, cs) ← takeExponent cs
  return (⟨negative, whole, fraction, exponent⟩, cs)

/-- A number. -/
def takeNumber : List Char → Option (Numeral × List Char)
  | '-' :: cs => takeUnsigned true cs
  | cs => takeUnsigned false cs

/-! ## Strings -/

/-- The value of a hexadecimal digit. -/
def hexDigit? (c : Char) : Option Nat :=
  if '0' ≤ c && c ≤ '9' then some (c.toNat - '0'.toNat)
  else if 'a' ≤ c && c ≤ 'f' then some (c.toNat - 'a'.toNat + 10)
  else if 'A' ≤ c && c ≤ 'F' then some (c.toNat - 'A'.toNat + 10)
  else none

/-- The number that four hexadecimal digits write. -/
def hexUnit? (a b c d : Char) : Option Nat := do
  let a ← hexDigit? a
  let b ← hexDigit? b
  let c ← hexDigit? c
  let d ← hexDigit? d
  return ((a * 16 + b) * 16 + c) * 16 + d

/-- The character that a one-letter escape stands for. -/
def shortEscape? (c : Char) : Option Char :=
  match c with
  | '"' => some '"'
  | '\\' => some '\\'
  | '/' => some '/'
  | 'b' => some '\x08'
  | 'f' => some '\x0c'
  | 'n' => some '\n'
  | 'r' => some '\r'
  | 't' => some '\t'
  | _ => none

/-- One unit of a string: a character, or a 16-bit unit written as an
escape. -/
inductive StringUnit where
  | char (c : Char)
  | escaped (unit : Nat)
  deriving DecidableEq, Repr

/-- The units of a string after its opening quote, onto those `done`, and
what follows the closing quote. -/
def takeUnits (done : List StringUnit) : List Char → Option (List StringUnit × List Char)
  | '"' :: cs => some (done.reverse, cs)
  | '\\' :: 'u' :: a :: b :: c :: d :: cs =>
    match hexUnit? a b c d with
    | some unit => takeUnits (.escaped unit :: done) cs
    | none => none
  | '\\' :: e :: cs =>
    match shortEscape? e with
    | some c => takeUnits (.char c :: done) cs
    | none => none
  | c :: cs => if c.toNat < 0x20 then none else takeUnits (.char c :: done) cs
  | [] => none

/-- Is the unit the first half of a surrogate pair? -/
def isHighHalf (unit : Nat) : Bool :=
  0xD800 ≤ unit && unit < 0xDC00

/-- Is the unit the second half of a surrogate pair? -/
def isLowHalf (unit : Nat) : Bool :=
  0xDC00 ≤ unit && unit < 0xE000

/-- The character that two halves of a surrogate pair stand for. -/
def pairChar (high low : Nat) : Char :=
  Char.ofNat (0x10000 + (high - 0xD800) * 0x400 + (low - 0xDC00))

/-- The characters that units stand for, onto those `done`; `none` if half
of a surrogate pair stands alone. -/
def unitsToChars (done : List Char) : List StringUnit → Option (List Char)
  | [] => some done.reverse
  | .char c :: units => unitsToChars (c :: done) units
  | .escaped high :: .escaped low :: units =>
    if isHighHalf high then
      if isLowHalf low then unitsToChars (pairChar high low :: done) units else none
    else if isLowHalf high then none
    else unitsToChars (Char.ofNat high :: done) (.escaped low :: units)
  | .escaped unit :: units =>
    if isHighHalf unit || isLowHalf unit then none
    else unitsToChars (Char.ofNat unit :: done) units

/-- A string after its opening quote. -/
def takeText (cs : List Char) : Option (Option String × List Char) :=
  (takeUnits [] cs).map fun (units, rest) => ((unitsToChars [] units).map String.ofList, rest)

/-! ## Tokens -/

/-- The next token of a text that does not start with a blank. -/
def takeToken : List Char → Option (Token × List Char)
  | '[' :: cs => some (.openArray, cs)
  | ']' :: cs => some (.closeArray, cs)
  | '\x7b' :: cs => some (.openObject, cs)
  | '\x7d' :: cs => some (.closeObject, cs)
  | ',' :: cs => some (.comma, cs)
  | ':' :: cs => some (.colon, cs)
  | '"' :: cs => (takeText cs).map fun (value, rest) => (.text value, rest)
  | 'n' :: 'u' :: 'l' :: 'l' :: cs => some (.null, cs)
  | 't' :: 'r' :: 'u' :: 'e' :: cs => some (.bool true, cs)
  | 'f' :: 'a' :: 'l' :: 's' :: 'e' :: cs => some (.bool false, cs)
  | cs => (takeNumber cs).map fun (value, rest) => (.number value, rest)

/-- Is the character one that may stand between tokens? -/
def isSpace (c : Char) : Bool :=
  c = ' ' || c = '\n' || c = '\r' || c = '\t'

/-- Cuts a text into tokens, in at most `fuel` steps; a step takes one
token or one blank. -/
def tokensWithin : Nat → List Char → List Token → Option (List Token)
  | _, [], done => some done.reverse
  | 0, _ :: _, _ => none
  | fuel + 1, c :: cs, done =>
    if isSpace c then tokensWithin fuel cs done
    else
      match takeToken (c :: cs) with
      | none => none
      | some (token, rest) => tokensWithin fuel rest (token :: done)

/-- The tokens of a text, if it is made of tokens. Every step takes at
least one character, so the length of the text is enough fuel. -/
def tokens (s : String) : Option (List Token) :=
  let cs := s.toList
  tokensWithin cs.length cs []

end ApiStubs.Json
