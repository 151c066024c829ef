/-
ApiStubs.Json.Decoder — reading typed data out of JSON values.

A decoder is told how many levels of arrays and objects it may still
open; opening one takes a level. A document has 127 of them.

* A record is an object with its fields in any order, or an array of its
  fields in declared order whose last ones may be missing. Fields that the
  record does not know are ignored, whatever they hold.
* A choice is one of some names.
* A tagged value is an object with a tag and the fields that go with it,
  or an array that starts with the tag. A tag is one of some names too;
  within another tagged value the name's position will do.
-/
import ApiStubs.Json.Reader

namespace ApiStubs.Json

/-- Reads a value, given how many levels of nesting may be opened. -/
abbrev Decoder (α : Type) := Nat → Json → Option α

/-- How many levels of arrays and objects a document may have. -/
def maxLevels : Nat := 127

/-- Reads a whole document. -/
def Decoder.document {α : Type} (decode : Decoder α) (j : Json) : Option α :=
  decode maxLevels j

/-! ## Simple values -/

/-- A Unicode text. -/
def string : Decoder String
  | _, .text t => t
  | _, _ => none

/-- A truth value. -/
def boolean : Decoder Bool
  | _, .bool b => some b
  | _, _ => none

/-- The largest number that a position can have. -/
def maxWord : Nat := 4294967295

/-- An integer literal that fits into 32 bits. -/
def word : Decoder Nat
  | _, .number n => n.toNat?.filter (· ≤ maxWord)
  | _, _ => none

/-- `null`, or a value. -/
def nullable {α : Type} (decode : Decoder α) : Decoder (Option α)
  | _, .null => some none
  | room, j => (decode room j).map some

/-- An array of values. -/
def listOf {α : Type} (decode : Decoder α) : Decoder (List α)
  | room + 1, .array items => items.mapM (decode room)
  | _, _ => none

/-! ## Choices -/

/-- The meaning of a name in a table. -/
def named {α : Type} (table : List (String × α)) (name : String) : Option α :=
  (table.find? (·.1 = name)).map (·.2)

/-- One of the names of a table: the name itself, or an object whose only
member has that name and a value that `isUnit` takes for nothing. -/
def choiceWith {α : Type} (isUnit : Json → Bool) (table : List (String × α)) : Decoder α
  | _, .text (some name) => named table name
  | _ + 1, .object [(some name, value)] => if isUnit value then named table name else none
  | _, _ => none

/-- Is the value `null`? -/
def isNull : Json → Bool
  | .null => true
  | _ => false

/-- Is the value `null` or an empty object? -/
def isNothing : Json → Bool
  | .null => true
  | .object [] => true
  | _ => false

/-- A choice, where nothing is written `null`. -/
def choice {α : Type} (table : List (String × α)) : Decoder α :=
  choiceWith isNull table

/-- A choice within a tagged value, where nothing is written `null` or as
an empty object. -/
def innerChoice {α : Type} (table : List (String × α)) : Decoder α :=
  choiceWith isNothing table

/-! ## Records -/

/-- The fields of a record that are present. -/
abbrev Fields := List (String × Json)

namespace Fields

/-- The value of a field, if it is present. -/
def get? (fields : Fields) (name : String) : Option Json :=
  named fields name

/-- A field that must be present. -/
def required {α : Type} (fields : Fields) (name : String) (read : Json → Option α) : Option α :=
  (fields.get? name).bind read

/-- A field that is `default` when absent. -/
def optional {α : Type} (fields : Fields) (name : String) (default : α)
    (read : Json → Option α) : Option α :=
  match fields.get? name with
  | none => some default
  | some j => read j

end Fields

/-- The values of the members with this name. -/
def membersNamed (members : List Member) (name : String) : List Json :=
  (members.filter (·.1 = some name)).map (·.2)

/-- The known members of an object: every name in it is a text and no
known one is repeated. -/
def knownMembers (names : List String) (members : List Member) : Option Fields :=
  if members.all (·.1.isSome) && names.all fun name => (membersNamed members name).length ≤ 1 then
    some (names.flatMap fun name => (membersNamed members name).map (name, ·))
  else none

/-- The fields of a record with the given field names. -/
def fields (names : List String) : Decoder Fields
  | _ + 1, .object members => knownMembers names members
  | _ + 1, .array items =>
    if items.length ≤ names.length then some (names.zip items) else none
  | _, _ => none

/-! ## Tagged values -/

/-- Where a tagged value stands. -/
inductive Place where
  /-- Within no other tagged value. -/
  | outermost
  /-- Within another tagged value. -/
  | nested
  deriving DecidableEq, Repr

/-- What tags mean: the known ones in order, and what any other tag means,
if it means anything. -/
structure Tags (α : Type) where
  known : List (String × α)
  other : Option α := none

namespace Tags

/-- The meaning of a name. -/
def ofName {α : Type} (tags : Tags α) (name : String) : Option α :=
  (named tags.known name).or tags.other

/-- The meaning of a position among the known names. -/
def ofPosition {α : Type} (tags : Tags α) (n : Nat) : Option α :=
  ((tags.known.map (·.2))[n]?).or tags.other

/-- Reads a tag: a name, or, in a nested value, a position, which is a
64-bit integer. -/
def read {α : Type} (tags : Tags α) : Place → Json → Option α
  | _, .text (some name) => tags.ofName name
  | .nested, .number n => (n.toNat?.filter (· ≤ Numeral.maxInteger)).bind tags.ofPosition
  | _, _ => none

end Tags

/-- A tagged value taken apart: its tag, and the rest as a record of the
same form. -/
def untag (name : String) : Json → Option (Json × Json)
  | .object members =>
    match membersNamed members name with
    | [tag] => some (tag, .object (members.filter (·.1 ≠ some name)))
    | _ => none
  | .array (tag :: items) => some (tag, .array items)
  | _ => none

/-- The rest of a tagged value that has no fields: an object, whose
members are ignored, or an empty array. -/
def noFields : Json → Option Unit
  | .object _ => some ()
  | .array [] => some ()
  | _ => none

end ApiStubs.Json
