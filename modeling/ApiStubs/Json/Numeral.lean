/-
ApiStubs.Json.Numeral — number literals, and how large they may be.

A literal is kept digit by digit. Where a number is taken in it becomes a
double, and it may not be too large for one. The double is computed in
two steps: the leading digits are gathered into a 64-bit integer, and the
double nearest to it is multiplied by the double nearest to a power of
ten. The product may be infinite although the literal itself is just
below the limit, and finite although it is just above; what counts is the
product.

All of it is exact arithmetic on natural numbers: the double nearest to a
natural number is one.
-/

namespace ApiStubs

/-- A decimal digit. -/
abbrev Digit := Fin 10

/-- A number literal. -/
structure Numeral where
  negative : Bool
  /-- The digits before the point. -/
  whole : List Digit
  /-- The digits after the point, if there is a point. -/
  fraction : Option (List Digit)
  exponent : Option Int
  deriving DecidableEq, Repr

namespace Numeral

/-! ## Integers -/

/-- A number with one more digit. -/
def push (n : Nat) (d : Digit) : Nat :=
  n * 10 + d.val

/-- The number that an unsigned literal without point and exponent
denotes. -/
def toNat? (n : Numeral) : Option Nat :=
  if n.negative || n.fraction.isSome || n.exponent.isSome then none
  else some (n.whole.foldl push 0)

/-- The largest 64-bit integer. -/
def maxInteger : Nat := 18446744073709551615

/-! ## Doubles -/

/-- Appends digits to a number for as long as it stays a 64-bit integer;
the number, and the digits that found no place. -/
def gather (n : Nat) : List Digit → Nat × List Digit
  | [] => (n, [])
  | d :: ds => if push n d ≤ maxInteger then gather (push n d) ds else (n, d :: ds)

/-- An integer times a power of ten. -/
structure Scaled where
  significand : Nat
  scale : Int
  deriving DecidableEq, Repr

/-- What a literal is computed from. A digit before the point that finds
no place still counts as a power of ten; one after it is dropped. -/
def scaled (n : Numeral) : Scaled :=
  let digits := n.fraction.getD []
  let (whole, left) := gather 0 n.whole
  let (significand, dropped) := gather whole digits
  let places := digits.length - dropped.length
  { significand, scale := n.exponent.getD 0 + (left.length : Int) - (places : Int) }

/-- The double nearest to a natural number, a half going to the even
neighbour, if doubles had no largest exponent: 53 binary digits are
kept. -/
def nearestDouble (n : Nat) : Nat :=
  let unit := Nat.pow 2 (n.log2 - 52)
  let quotient := n / unit
  let twice := 2 * (n % unit)
  if unit < twice || (twice = unit && quotient % 2 = 1) then (quotient + 1) * unit
  else quotient * unit

/-- The least magnitude that rounds to infinity: half a unit above the
largest double. -/
def overflowBound : Nat :=
  Nat.pow 2 1024 - Nat.pow 2 970

/-- The largest power of ten that is a finite double. -/
def maxScale : Nat := 308

/-- Does the literal give a finite double? Dividing by a power of ten
never makes one infinite. -/
def isFinite (n : Numeral) : Bool :=
  let s := n.scaled
  s.significand = 0 || s.scale ≤ 0
    || (s.scale.toNat ≤ maxScale
      && nearestDouble s.significand * nearestDouble (Nat.pow 10 s.scale.toNat) < overflowBound)

end Numeral

end ApiStubs
