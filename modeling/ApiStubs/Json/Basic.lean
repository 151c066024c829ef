/-
ApiStubs.Json.Basic — JSON values as they are written.

The value type keeps what decoding has to see: numbers as literals (an
integer literal is not the same as `1.0`), object members in order and
with repetitions, and texts that are no Unicode text because of an
unpaired surrogate escape as `none`.
-/

import ApiStubs.Json.Numeral

namespace ApiStubs

/-- A JSON value. -/
inductive Json where
  | null
  | bool (value : Bool)
  | number (value : Numeral)
  /-- A string; `none` when an escape names half of a surrogate pair. -/
  | text (value : Option String)
  | array (items : List Json)
  /-- Members in the order written, repeated names included. -/
  | object (members : List (Option String × Json))
  deriving Repr

namespace Json

/-- A member of an object: its name and its value. -/
abbrev Member := Option String × Json

/-- Is the value fit to be taken in as a whole: at most `room` levels of
arrays and objects, every text and name Unicode, every number finite? -/
def fits : Nat → Json → Bool
  | _, .null => true
  | _, .bool _ => true
  | _, .number n => n.isFinite
  | _, .text t => t.isSome
  | 0, .array _ => false
  | 0, .object _ => false
  | room + 1, .array items => items.all (fits room)
  | room + 1, .object members =>
    members.all fun member => member.1.isSome && fits room member.2

end Json

end ApiStubs
