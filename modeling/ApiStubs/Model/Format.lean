/-
ApiStubs.Model.Format — how declaration models are written, as a table.

A document is made of places, and what stands at a place has a form: a
text, a list, a type declaration, a documentation node. The values of most
forms have fields, each with a name, a form of its own and perhaps a
default. A layout lists the fields of a value and says what they make up;
the layout of a tagged value is the one of its kind.

Documentation nodes, value types and reference targets carry their tag in
the member `kind`. It is no field: it comes first in an array and stands
anywhere in an object. An attribute's value is tagged in another way. Its
quote style and its text are read side by side, like fields of a record.
-/
import ApiStubs.Json.Decoder
import ApiStubs.Model.Declaration

namespace ApiStubs

/-! ## Names -/

/-- The names of the kinds of types. -/
def TypeKind.table : List (String × TypeKind) :=
  [("class", .classType), ("interface", .interfaceType), ("enum", .enumType)]

/-- The names of the number representations. -/
def NumberRepr.table : List (String × NumberRepr) :=
  [("int", .int), ("long", .long), ("short", .short), ("byte", .byte), ("float", .float),
   ("double", .double)]

/-- The names of the string representations. -/
def StringRepr.table : List (String × StringRepr) :=
  [("text", .text), ("bytes", .bytes), ("enum", .enum)]

/-- How an attribute's value can be quoted. -/
inductive QuoteStyle where
  | empty | double | single | unquoted
  deriving DecidableEq, Repr

/-- How quote styles are written. -/
def QuoteStyle.tags : Json.Tags QuoteStyle where
  known := [("empty", .empty), ("double", .double), ("single", .single), ("unquoted", .unquoted)]

/-- The kinds of value types. -/
inductive ValueType.Kind where
  | void | number | boolean | string | any | wildcard | array | map | list | optional | coerced
  | union | multiResult | arguments | context | named
  deriving DecidableEq, Repr

/-- How the kinds of value types are written. -/
def ValueType.Kind.tags : Json.Tags ValueType.Kind where
  known :=
    [("void", .void), ("number", .number), ("boolean", .boolean), ("string", .string),
     ("any", .any), ("wildcard", .wildcard), ("array", .array), ("map", .map), ("list", .list),
     ("optional", .optional), ("coerced", .coerced), ("union", .union),
     ("multi_result", .multiResult), ("arguments", .arguments), ("context", .context),
     ("named", .named)]

/-- The kinds of reference targets. -/
inductive Target.Kind where
  | type | method
  deriving DecidableEq, Repr

/-- How the kinds of reference targets are written. -/
def Target.Kind.tags : Json.Tags Target.Kind where
  known := [("type", .type), ("method", .method)]

/-- The kinds of documentation nodes. -/
inductive DocNode.Kind where
  | text | erroneous | code | literal | reference | link | element | entity | inheritDoc
  | hidden | param | returns | throws | deprecated | see | blockTag | unsupported
  deriving DecidableEq, Repr

/-- How the kinds of documentation nodes are written. Any other tag makes an
unsupported node. -/
def DocNode.Kind.tags : Json.Tags DocNode.Kind where
  known :=
    [("text", .text), ("erroneous", .erroneous), ("code", .code), ("literal", .literal),
     ("reference", .reference), ("link", .link), ("element", .element), ("entity", .entity),
     ("inherit_doc", .inheritDoc), ("hidden", .hidden), ("param", .param), ("return", .returns),
     ("throws", .throws), ("deprecated", .deprecated), ("see", .see), ("block_tag", .blockTag)]
  other := some .unsupported

/-! ## Forms -/

/-- What stands at a place of a document. -/
inductive Form where
  | text | word | flag
  | typeKind | numberRepr | stringRepr | quoteStyle
  | list (items : Form)
  | nullable (value : Form)
  | model | typeDecl | methodDecl | marker | param | source | comment
  | node (place : Json.Place)
  | valueType (place : Json.Place)
  | target (place : Json.Place)
  | reference | attr | attrValue
  deriving DecidableEq, Repr

namespace Form

/-- The values that are written in a form. -/
def Value : Form → Type
  | .text => String
  | .word => Nat
  | .flag => Bool
  | .typeKind => TypeKind
  | .numberRepr => NumberRepr
  | .stringRepr => StringRepr
  | .quoteStyle => QuoteStyle
  | .list items => List items.Value
  | .nullable value => Option value.Value
  | .model => Model
  | .typeDecl => TypeDecl
  | .methodDecl => MethodDecl
  | .marker => Marker
  | .param => Param
  | .source => SourcePos
  | .comment => DocComment
  | .node _ => DocNode
  | .valueType _ => ValueType
  | .target _ => Target
  | .reference => Reference
  | .attr => Attribute
  | .attrValue => AttrValue

end Form

/-- A field: its name, the form of its value, and, unless it is required,
the value that it has when it is absent. -/
structure Slot where
  name : String
  form : Form
  default : Option form.Value

namespace Slot

/-- A field that must be present. -/
abbrev required (name : String) (form : Form) : Slot :=
  ⟨name, form, none⟩

/-- A field with a default. -/
abbrev optional (name : String) (form : Form) (value : form.Value) : Slot :=
  ⟨name, form, some value⟩

/-- A list, empty by default. -/
abbrev list (name : String) (items : Form) : Slot :=
  optional name (.list items) []

/-- A value or `null`, which is the default. -/
abbrev nullable (name : String) (value : Form) : Slot :=
  optional name (.nullable value) none

/-- A truth value, false by default. -/
abbrev flag (name : String) : Slot :=
  optional name .flag false

end Slot

/-- Makes something of one value for each field, or refuses to. -/
def Builder (α : Type) : List Slot → Type
  | [] => Option α
  | slot :: slots => slot.form.Value → Builder α slots

/-- The fields of a record or of one case of a tagged value, and what they
make up. -/
structure Layout (α : Type) where
  slots : List Slot
  build : Builder α slots

/-- The names of the fields. -/
def Layout.names {α : Type} (layout : Layout α) : List String :=
  layout.slots.map (·.name)

/-! ## Records -/

def Model.layout : Layout Model where
  slots := [.list "types" .typeDecl]
  build := fun types => some { types }

def TypeDecl.layout : Layout TypeDecl where
  slots :=
    [.required "id" .text, .required "name" .text, .optional "kind" .typeKind .classType,
     .nullable "superclass" .text, .list "interfaces" .text, .required "source" .source,
     .nullable "doc" .comment, .list "methods" .methodDecl]
  build := fun id name kind superclass interfaces source doc methods =>
    some { id, name, kind, superclass, interfaces, source, doc, methods }

def MethodDecl.layout : Layout MethodDecl where
  slots :=
    [.required "name" .text, .flag "static", .nullable "lua_function" .marker,
     .list "params" .param, .optional "returns" (.valueType .outermost) .void,
     .flag "nullable", .required "source" .source, .nullable "doc" .comment]
  build := fun name isStatic marker params returns nullable source doc =>
    some { name, isStatic, marker, params, returns, nullable, source, doc }

def Marker.layout : Layout Marker where
  slots := [.nullable "names" (.list .text)]
  build := fun names => some { names }

def Param.layout : Layout Param where
  slots := [.required "name" .text, .required "type" (.valueType .outermost)]
  build := fun name type => some { name, type }

def SourcePos.layout : Layout SourcePos where
  slots := [.required "file" .text, .required "line" .word, .optional "column" .word Nat.zero]
  build := fun file line column => some { file, line, column }

def DocComment.layout : Layout DocComment where
  slots := [.list "body" (.node .outermost), .list "tags" (.node .outermost)]
  build := fun body tags => some { body, tags }

/-- A reference has the same fields on its own and as a node. -/
def Reference.slots : List Slot :=
  [.required "signature" .text, .nullable "target" (.target .nested)]

def Reference.layout : Layout Reference where
  slots := Reference.slots
  build := fun signature target => some { signature, target }

def Attribute.layout : Layout Attribute where
  slots := [.required "name" .text, .optional "value" .attrValue .empty]
  build := fun name value => some { name, value }

/-- The attribute value with this quote style and this text: all but the
empty one have a text. -/
def AttrValue.quoted : QuoteStyle → Option String → Option AttrValue
  | .empty, none => some .empty
  | .double, some text => some (.double text)
  | .single, some text => some (.single text)
  | .unquoted, some text => some (.unquoted text)
  | _, _ => none

def AttrValue.layout : Layout AttrValue where
  slots := [.required "quote" .quoteStyle, .nullable "text" .text]
  build := AttrValue.quoted

/-! ## Tagged values -/

def Target.Kind.layout : Target.Kind → Layout Target
  | .type => ⟨[.required "id" .text], fun id => some (.type id)⟩
  | .method =>
    ⟨[.required "owner" .text, .required "name" .text], fun owner name => some (.method owner name)⟩

def ValueType.Kind.layout : ValueType.Kind → Layout ValueType
  | .void => ⟨[], some .void⟩
  | .number =>
    ⟨[.optional "repr" .numberRepr .int, .flag "boxed"],
      fun repr boxed => some (.number repr boxed)⟩
  | .boolean => ⟨[.flag "boxed"], fun boxed => some (.boolean boxed)⟩
  | .string => ⟨[.optional "repr" .stringRepr .text], fun repr => some (.string repr)⟩
  | .any => ⟨[], some .any⟩
  | .wildcard => ⟨[], some .wildcard⟩
  | .array => ⟨[.required "element" (.valueType .nested)], fun element => some (.array element)⟩
  | .map =>
    ⟨[.nullable "key" (.valueType .nested), .nullable "value" (.valueType .nested)],
      fun key value => some (.map key value)⟩
  | .list => ⟨[.nullable "element" (.valueType .nested)], fun element => some (.list element)⟩
  | .optional => ⟨[.required "inner" (.valueType .nested)], fun inner => some (.optional inner)⟩
  | .coerced => ⟨[.required "inner" (.valueType .nested)], fun inner => some (.coerced inner)⟩
  | .union =>
    ⟨[.required "alternatives" (.list (.valueType .nested))],
      fun alternatives => some (.union alternatives)⟩
  | .multiResult => ⟨[], some .multiResult⟩
  | .arguments => ⟨[], some .arguments⟩
  | .context => ⟨[], some .context⟩
  | .named => ⟨[.required "id" .text], fun id => some (.named id)⟩

def DocNode.Kind.layout : DocNode.Kind → Layout DocNode
  | .text => ⟨[.required "body" .text], fun body => some (.text body)⟩
  | .erroneous => ⟨[.required "body" .text], fun body => some (.erroneous body)⟩
  | .code => ⟨[.required "body" .text], fun body => some (.code body)⟩
  | .literal => ⟨[.required "body" .text], fun body => some (.literal body)⟩
  | .reference =>
    ⟨Reference.slots, fun signature target => some (.reference { signature, target })⟩
  | .link =>
    ⟨[.required "reference" .reference, .list "label" (.node .nested)],
      fun reference label => some (.link reference label)⟩
  | .element =>
    ⟨[.required "name" .text, .list "attributes" .attr, .list "children" (.node .nested),
      .flag "self_closing"],
      fun name attributes children selfClosing =>
        some (.element name attributes children selfClosing)⟩
  | .entity => ⟨[.required "name" .text], fun name => some (.entity name)⟩
  | .inheritDoc => ⟨[], some .inheritDoc⟩
  | .hidden => ⟨[], some .hidden⟩
  | .param =>
    ⟨[.required "name" .text, .list "description" (.node .nested)],
      fun name description => some (.param name description)⟩
  | .returns =>
    ⟨[.list "description" (.node .nested)], fun description => some (.returns description)⟩
  | .throws =>
    ⟨[.list "description" (.node .nested)], fun description => some (.throws description)⟩
  | .deprecated => ⟨[.list "body" (.node .nested)], fun body => some (.deprecated body)⟩
  | .see => ⟨[.list "reference" (.node .nested)], fun reference => some (.see reference)⟩
  | .blockTag =>
    ⟨[.required "name" .text, .list "content" (.node .nested)],
      fun name content => some (.blockTag name content)⟩
  | .unsupported => ⟨[], some .unsupported⟩

/-- The kind that the tag of a value names. -/
def Json.kind? {α : Type} (tags : Json.Tags α) (place : Json.Place) (j : Json) : Option α :=
  (Json.untag "kind" j).bind fun (tag, _) => tags.read place tag

/-- The fields of the value at a place, which depend on its tag if it is a
tagged one. An attribute's value that is an array is not like a record. -/
def Form.layout? : (form : Form) → Json → Option (Layout form.Value)
  | .model, _ => some Model.layout
  | .typeDecl, _ => some TypeDecl.layout
  | .methodDecl, _ => some MethodDecl.layout
  | .marker, _ => some Marker.layout
  | .param, _ => some Param.layout
  | .source, _ => some SourcePos.layout
  | .comment, _ => some DocComment.layout
  | .node place, j => (Json.kind? DocNode.Kind.tags place j).map DocNode.Kind.layout
  | .valueType place, j => (Json.kind? ValueType.Kind.tags place j).map ValueType.Kind.layout
  | .target place, j => (Json.kind? Target.Kind.tags place j).map Target.Kind.layout
  | .reference, _ => some Reference.layout
  | .attr, _ => some Attribute.layout
  | .attrValue, .object _ => some AttrValue.layout
  | _, _ => none

end ApiStubs
