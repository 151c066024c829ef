/-
ApiStubs.Model.Decode — declaration models out of JSON.

One decoder reads values in all forms and goes by the table of the format.
It is told how many levels of nesting may be opened, and it recurs on that
number: what stands in an array or an object is read with one level less.

In tagged values everything that is written, ignored members included, must
fit the nesting and number limits. This is checked once, at the outermost
tagged value.
-/
import ApiStubs.Model.Format

namespace ApiStubs

open Json (Decoder Fields)

/-! ## Fields -/

/-- Reads values in all forms. -/
abbrev Form.Reader := (form : Form) → Json → Option form.Value

/-- Reads a field. -/
def Slot.read (inside : Form.Reader) (slot : Slot) (fields : Fields) : Option slot.form.Value :=
  match slot.default with
  | none => fields.required slot.name (inside slot.form)
  | some value => fields.optional slot.name value (inside slot.form)

/-- Reads the fields and puts them together. -/
def Builder.run {α : Type} (inside : Form.Reader) (fields : Fields) :
    {slots : List Slot} → Builder α slots → Option α
  | [], result => result
  | slot :: _, build => (slot.read inside fields).bind fun value => run inside fields (build value)

namespace Layout

/-- The members that are fields. Where there are no fields, nothing is
asked of the members. -/
def fields {α : Type} (layout : Layout α) (room : Nat) (j : Json) : Option Fields :=
  if layout.slots.isEmpty then (Json.noFields j).map fun _ => []
  else Json.fields layout.names room j

/-- Reads a value that is written as a record. -/
def read {α : Type} (layout : Layout α) (inside : Form.Reader) (room : Nat) (j : Json) :
    Option α :=
  (layout.fields room j).bind fun fields => layout.build.run inside fields

end Layout

/-! ## Values -/

namespace Form

/-- Is the form that of a tagged value? -/
def isTagged : Form → Bool
  | .node _ | .valueType _ | .target _ => true
  | _ => false

/-- The value as a record: without its tag, if it has one. -/
def record (form : Form) : Json → Json
  | .object members =>
    if form.isTagged then .object (members.filter (·.1 ≠ some "kind")) else .object members
  | .array items => if form.isTagged then .array (items.drop 1) else .array items
  | j => j

/-- Is the value within the limits, if they are checked here? -/
def admits (form : Form) (room : Nat) (j : Json) : Bool :=
  match form with
  | .node .outermost | .valueType .outermost | .target .outermost => j.fits room
  | _ => true

/-- Reads a value that has fields. -/
def readFields (inside : Reader) (room : Nat) (form : Form) (j : Json) : Option form.Value :=
  if form.admits room j then
    (form.layout? j).bind fun layout => layout.read inside room (form.record j)
  else none

/-- Reads a value in a form, given how values one level further inside are
read. An attribute's value can be an array of its quote style's tag and its
text. -/
def readWith (inside : Reader) (room : Nat) : Reader
  | .text, j => Json.string room j
  | .word, j => Json.word room j
  | .flag, j => Json.boolean room j
  | .typeKind, j => Json.choice TypeKind.table room j
  | .numberRepr, j => Json.innerChoice NumberRepr.table room j
  | .stringRepr, j => Json.innerChoice StringRepr.table room j
  | .quoteStyle, j => Json.innerChoice QuoteStyle.tags.known room j
  | .list items, j => Json.listOf (fun _ => inside items) room j
  | .nullable value, j => Json.nullable (fun _ => readWith inside room value) room j
  | .attrValue, .array [quote, body] => do
    AttrValue.quoted (← QuoteStyle.tags.read .nested quote) (← inside (.nullable .text) body)
  | form, j => readFields inside room form j

/-- Reads a value in a form. -/
def decode (form : Form) : Decoder form.Value
  | 0, j => readWith (fun _ _ => none) 0 form j
  | room + 1, j => readWith (fun inner => decode inner room) (room + 1) form j

end Form

/-! ## Decoders -/

/-- A value type. -/
def ValueType.decode : Decoder ValueType := (Form.valueType .outermost).decode

/-- A reference target. -/
def Target.decode : Decoder Target := (Form.target .outermost).decode

/-- A documentation node. -/
def DocNode.decode : Decoder DocNode := (Form.node .outermost).decode

/-- A documentation comment. -/
def DocComment.decode : Decoder DocComment := Form.comment.decode

/-- A source position. -/
def SourcePos.decode : Decoder SourcePos := Form.source.decode

/-- A method declaration. -/
def MethodDecl.decode : Decoder MethodDecl := Form.methodDecl.decode

/-- A declaration model. -/
def Model.decode : Decoder Model := Form.model.decode

/-- The model that a text holds, if it holds one. -/
def Model.parse? (s : String) : Option Model :=
  (Json.parse? s).bind Model.decode.document

end ApiStubs
