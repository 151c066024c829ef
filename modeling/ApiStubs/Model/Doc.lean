/-
ApiStubs.Model.Doc — documentation comments as trees.

A comment is a body and a list of block tags. Its nodes are what the host
compiler found in the source: text, inline tags, markup elements and
block tags; a node of a kind that this library does not know is kept as
`unsupported`.
-/

namespace ApiStubs

/-! ## References -/

/-- The declaration that a reference resolved to. -/
inductive Target where
  | type (id : String)
  | method (owner name : String)
  deriving DecidableEq, Repr

/-- A symbol reference: as written, and as the host resolved it. -/
structure Reference where
  signature : String
  /-- `none` when the host could not resolve the symbol. -/
  target : Option Target
  deriving DecidableEq, Repr

/-! ## Attributes of markup elements -/

/-- The value of an attribute and how it was quoted. -/
inductive AttrValue where
  | empty
  | double (text : String)
  | single (text : String)
  | unquoted (text : String)
  deriving DecidableEq, Repr

/-- The text of an attribute's value, if it has one. -/
def AttrValue.text? : AttrValue → Option String
  | .empty => none
  | .double text | .single text | .unquoted text => some text

/-- An attribute of a markup element. -/
structure Attribute where
  name : String
  value : AttrValue
  deriving DecidableEq, Repr

/-! ## Nodes and comments -/

/-- A node of a documentation tree. -/
inductive DocNode where
  | text (body : String)
  /-- Text that the host could not make sense of, kept as it is. -/
  | erroneous (body : String)
  | code (body : String)
  | literal (body : String)
  | reference (reference : Reference)
  | link (reference : Reference) (label : List DocNode)
  /-- A markup element. -/
  | element (name : String) (attributes : List Attribute) (children : List DocNode)
      (selfClosing : Bool)
  /-- A character entity such as `&amp;`. -/
  | entity (name : String)
  /-- Stands for the comment of the overridden method. -/
  | inheritDoc
  | hidden
  | param (name : String) (description : List DocNode)
  | returns (description : List DocNode)
  | throws (description : List DocNode)
  | deprecated (body : List DocNode)
  /-- A pointer elsewhere; the first node is the reference. -/
  | see (reference : List DocNode)
  /-- A block tag that the host does not know itself. -/
  | blockTag (name : String) (content : List DocNode)
  /-- A node of an unknown kind. -/
  | unsupported
  deriving Repr

/-- The name of a node's kind, which diagnostics carry. -/
def DocNode.kindName : DocNode → String
  | .text _ => "text"
  | .erroneous _ => "erroneous"
  | .code _ => "code"
  | .literal _ => "literal"
  | .reference _ => "reference"
  | .link _ _ => "link"
  | .element _ _ _ _ => "element"
  | .entity _ => "entity"
  | .inheritDoc => "inheritDoc"
  | .hidden => "hidden"
  | .param _ _ => "param"
  | .returns _ => "return"
  | .throws _ => "throws"
  | .deprecated _ => "deprecated"
  | .see _ => "see"
  | .blockTag _ _ => "block tag"
  | .unsupported => "unsupported"

/-- The body of a text node. -/
def DocNode.text? : DocNode → Option String
  | .text body => some body
  | _ => none

/-- The bodies of the text nodes among `nodes`, one after the other. -/
def plainText (nodes : List DocNode) : String :=
  (nodes.filterMap DocNode.text?).foldr (· ++ ·) ""

/-- A documentation comment. -/
structure DocComment where
  body : List DocNode := []
  tags : List DocNode := []
  deriving Repr

namespace DocComment

/-- Has the comment neither body nor tags? -/
def isEmpty (doc : DocComment) : Bool :=
  doc.body.isEmpty && doc.tags.isEmpty

/-- The content of the first block tag with this name. -/
def blockTag? (doc : DocComment) (name : String) : Option (List DocNode) :=
  doc.tags.findSome? fun
    | .blockTag n content => if n = name then some content else none
    | _ => none

/-- Is one of the tags the hidden marker? -/
def isHidden (doc : DocComment) : Bool :=
  doc.tags.any fun
    | .hidden => true
    | _ => false

end DocComment

end ApiStubs
