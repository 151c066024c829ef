/-
ApiStubs.Render.TypeText — value types in the stub dialect.

A type is written as an expression that scripts understand. Parts of it
that have no counterpart there write nothing and are listed, from left to
right.
-/
import ApiStubs.Model.ValueType

namespace ApiStubs

/-- What declared types are called. -/
structure TypeNames where
  /-- The name of a documented type. -/
  name? : String → Option String
  /-- Is the type an enumeration? Its values are strings. -/
  isEnum : String → Bool

/-- A written type. -/
structure TypeText where
  text : String
  /-- The parts that could not be written. -/
  unknown : List String := []
  deriving DecidableEq, Repr

namespace TypeText

/-- One text after another. -/
def append (a b : TypeText) : TypeText :=
  ⟨a.text ++ b.text, a.unknown ++ b.unknown⟩

instance : Append TypeText := ⟨append⟩

/-- A text without unknown parts. -/
def plain (s : String) : TypeText := ⟨s, []⟩

/-- A part that cannot be written. -/
def missing (what : String) : TypeText := ⟨"", [what]⟩

/-- A sequence of elements. -/
def sequence (element : TypeText) : TypeText :=
  plain "\x7b " ++ element ++ plain "... \x7d"

/-- A table from keys to values; an argument that says nothing is `none`. -/
def table : Option TypeText → Option TypeText → TypeText
  | none, none => plain "table"
  | key, value =>
    plain "\x7b [" ++ key.getD (plain "any") ++ plain "] = " ++ value.getD (plain "any")
      ++ plain " \x7d"

/-- A declared type: a string if it is an enumeration, else its name. -/
def named (names : TypeNames) (id : String) : TypeText :=
  if names.isEnum id then plain "string"
  else
    match names.name? id with
    | some name => plain name
    | none => missing id

end TypeText

namespace ValueType

/-- Is the type the universal one? -/
def isUniversal : ValueType → Bool
  | .any => true
  | _ => false

mutual

/-- The expression for a type. -/
def write (names : TypeNames) : ValueType → TypeText
  | .void => .missing "Void"
  | .number _ _ => .plain "number"
  | .boolean _ => .plain "boolean"
  | .string _ => .plain "string"
  | .any => .plain "any"
  | .wildcard => .plain "any"
  | .array element =>
    if element.isUniversal then .plain "any..." else .sequence (element.write names)
  | .map key value => .table (writeArgument names key) (writeArgument names value)
  | .list element =>
    match writeArgument names element with
    | some element => .sequence element
    | none => .plain "table"
  | .optional inner => inner.write names
  | .coerced inner => inner.write names
  | .union alternatives => writeAlternatives names alternatives
  | .multiResult => .plain "any..."
  | .arguments => .plain "any..."
  | .context => .missing "Context"
  | .named id => .named names id

/-- The expression for a type argument; a wildcard says as little as an
erased argument. -/
def writeArgument (names : TypeNames) : Option ValueType → Option TypeText
  | none => none
  | some .wildcard => none
  | some t => some (t.write names)

/-- Alternatives with bars between them. -/
def writeAlternatives (names : TypeNames) : List ValueType → TypeText
  | [] => .plain ""
  | [t] => t.write names
  | t :: ts => t.write names ++ TypeText.plain "|" ++ writeAlternatives names ts

end

end ValueType

end ApiStubs
