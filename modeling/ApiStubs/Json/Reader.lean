/-
ApiStubs.Json.Reader — from tokens to a JSON value.

The reader goes over the tokens once. The containers that are still open
are kept in a list of frames, so the nesting of a text is limited by
nothing here: how deep a value may be is for those who decode it to say.
-/
import ApiStubs.Json.Token

namespace ApiStubs.Json

/-! ## What is still open -/

/-- A container that waits for the value of its next item or member;
what it holds so far is kept last first. -/
inductive Frame where
  | item (done : List Json)
  | member (done : List Member) (name : Option String)

/-- A container whose last item or member is complete. -/
inductive Filled where
  | array (done : List Json)
  | object (done : List Member)

/-- What the reader expects next. -/
inductive ReadState where
  /-- A value. -/
  | value (outer : List Frame)
  /-- The first item of an array, or its end. -/
  | firstItem (outer : List Frame)
  /-- The first member of an object, or its end. -/
  | firstMember (outer : List Frame)
  /-- The name of a further member. -/
  | memberName (done : List Member) (outer : List Frame)
  /-- The colon after a member's name. -/
  | colon (done : List Member) (name : Option String) (outer : List Frame)
  /-- A comma or the end of the container. -/
  | next (top : Filled) (outer : List Frame)
  /-- Nothing more. -/
  | complete (result : Json)

/-! ## One token -/

/-- The state after a value is complete. -/
def ReadState.give (result : Json) : List Frame → ReadState
  | [] => .complete result
  | .item done :: outer => .next (.array (result :: done)) outer
  | .member done name :: outer => .next (.object ((name, result) :: done)) outer

/-- The state after the first token of a value. -/
def ReadState.opening (outer : List Frame) : Token → Option ReadState
  | .openArray => some (.firstItem outer)
  | .openObject => some (.firstMember outer)
  | .null => some (.give .null outer)
  | .bool b => some (.give (.bool b) outer)
  | .number n => some (.give (.number n) outer)
  | .text t => some (.give (.text t) outer)
  | .closeArray | .closeObject | .comma | .colon => none

/-- The state after one more token. -/
def ReadState.step : ReadState → Token → Option ReadState
  | .value outer, token => opening outer token
  | .firstItem outer, .closeArray => some (.give (.array []) outer)
  | .firstItem outer, token => opening (.item [] :: outer) token
  | .firstMember outer, .closeObject => some (.give (.object []) outer)
  | .firstMember outer, .text name => some (.colon [] name outer)
  | .memberName done outer, .text name => some (.colon done name outer)
  | .colon done name outer, .colon => some (.value (.member done name :: outer))
  | .next (.array done) outer, .comma => some (.value (.item done :: outer))
  | .next (.array done) outer, .closeArray => some (.give (.array done.reverse) outer)
  | .next (.object done) outer, .comma => some (.memberName done outer)
  | .next (.object done) outer, .closeObject => some (.give (.object done.reverse) outer)
  | _, _ => none

/-! ## Whole texts -/

/-- The value that tokens write, if they write exactly one. -/
def ofTokens? (tokens : List Token) : Option Json :=
  match tokens.foldlM ReadState.step (ReadState.value []) with
  | some (.complete result) => some result
  | _ => none

/-- The value that a text writes, if it is a JSON text. -/
def parse? (s : String) : Option Json :=
  (tokens s).bind ofTokens?

end ApiStubs.Json
