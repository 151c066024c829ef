/-
ApiStubs.Render.Comment — documentation comments in the stub dialect.

Inline markup becomes markdown, block tags of the vendor namespace become
tags of the dialect. Parameter and return tags are captured: whoever
composes a function's comment puts them next to the types.

The walk over a tree is a structural recursion. What an inherited comment
renders to is given to it from outside, by `methodSetting`, which follows
the chain of overridden methods and ends because every method on the
chain is a new one.
-/
import ApiStubs.Program
import ApiStubs.Render.Fragment
import ApiStubs.Text.Blank

namespace ApiStubs

/-! ## Where a node stands -/

/-- The surroundings of a node. -/
structure Place where
  /-- How far continuation lines are indented. -/
  indent : Nat := 0
  /-- Inside a fenced block of code. -/
  inFence : Bool := false
  deriving DecidableEq, Repr

/-- The inside of a list item. -/
def Place.listItem (place : Place) : Place :=
  { place with indent := place.indent + 3 }

/-- The inside of a fence. -/
def Place.fence (place : Place) : Place :=
  { place with inFence := true }

/-- What the walk has to know about the declaration it renders for. -/
structure Setting where
  /-- Where problems are reported. -/
  subject : Subject
  /-- The name to use for a reference's target. -/
  resolve : Target → Option String
  /-- The rendered comment of the overridden method, if there is one. -/
  inherited : Option (Place → Fragment)

/-- Reports a problem with a node of the given kind. -/
def Setting.report (s : Setting) (kind message : String) : Fragment :=
  Fragment.report { level := .error, subject := s.subject, message, node := some kind }

/-! ## Text -/

/-- A continuation line: the one space that follows the comment marker is
dropped, and a line that is not empty is indented. -/
def continuation (indent : Nat) (line : String) : String :=
  let line := (Text.after " " line).getD line
  if line.isEmpty then "\n" else "\n" ++ Text.spaces indent ++ line

/-- Text with its continuation lines set to the indentation of a place. -/
def reindent (indent : Nat) (body : String) : String :=
  match Text.split '\n' body with
  | [] => ""
  | first :: rest => first ++ Text.concat (rest.map (continuation indent))

/-- Inline code, or a literal. Inside a fence the body stands alone; the
three constants are links to their documentation. -/
def inlineLiteral (place : Place) (isCode : Bool) (body : String) : String :=
  if place.inFence then reindent place.indent (Text.trim body)
  else if body = "nil" || body = "true" || body = "false" then "[`" ++ body ++ "`]"
  else if isCode then "`" ++ body ++ "`"
  else body

/-! ## Markup elements -/

/-- An attribute of a fence, after its opening line. -/
def fenceAttribute (a : Attribute) : String :=
  match a.value.text? with
  | some value => a.name ++ "=" ++ value
  | none => a.name

/-- The attributes of a fence. -/
def fenceAttributes (attributes : List Attribute) : String :=
  if attributes.isEmpty then ""
  else " \x7b" ++ Text.join " " (attributes.map fenceAttribute) ++ "\x7d"

/-- An attribute of a markup element, quoted as it was. -/
def markupAttribute (a : Attribute) : String :=
  " " ++ a.name ++
    match a.value with
    | .empty => ""
    | .double value => "=\"" ++ value ++ "\""
    | .single value => "='" ++ value ++ "'"
    | .unquoted value => "=" ++ value

/-- The opening of a markup element, up to its end. -/
def openingTag (name : String) (attributes : List Attribute) : String :=
  "<" ++ name ++ Text.concat (attributes.map markupAttribute)

/-- The markdown delimiter that stands for a plain markup element. -/
def emphasis? (name : String) (attributes : List Attribute) : Option String :=
  if attributes.isEmpty then
    if name = "em" then some "*" else if name = "strong" then some "**" else none
  else none

/-- A markup element around its rendered children; what they render to may
depend on the place they get. -/
def element (place : Place) (name : String) (attributes : List Attribute) (selfClosing : Bool)
    (children : Place → Fragment) : Fragment :=
  if name = "pre" then
    let indent := Text.spaces place.indent
    Fragment.writeIfFresh indent
      ++ Fragment.write ("```lua" ++ fenceAttributes attributes ++ "\n" ++ indent)
      ++ children place.fence
      ++ Fragment.write ("\n" ++ indent ++ "```")
  else if name = "p" || name = "ul" then children place
  else if name = "li" then Fragment.write " - " ++ children place.listItem
  else
    match emphasis? name attributes with
    | some mark => Fragment.write mark ++ children place ++ Fragment.write mark
    | none =>
      if selfClosing then Fragment.write (openingTag name attributes ++ " />")
      else
        Fragment.write (openingTag name attributes ++ ">") ++ children place
          ++ Fragment.write ("</" ++ name ++ ">")

/-! ## References and tags -/

/-- A reference, in a node of the given kind. One that cannot be named is
reported and left as it was written. -/
def Setting.reference (s : Setting) (kind : String) (r : Reference) : Fragment :=
  match r.target with
  | none => s.report kind "Cannot resolve reference." ++ Fragment.write r.signature
  | some target =>
    match s.resolve target with
    | some name => Fragment.write name
    | none =>
      s.report kind ("Cannot convert " ++ r.signature ++ " into a Lua reference.")
        ++ Fragment.write r.signature

/-- The namespace of the block tags that belong to the dialect. -/
def vendorNamespace : String := "cc."

/-- What a tag of the dialect says about the comment it stands in. -/
def tagCaptures (tag : String) : Captures where
  hasParam := tag = "param" || tag = "tparam"
  hasReturn := tag = "return" || tag = "treturn"

/-- Does the first node begin with this text? -/
def leadsWith (start : String) : List DocNode → Bool
  | .text body :: _ => Text.startsWith start body
  | _ => false

/-- A block tag around its rendered content. A tag that names the module
is left out; a modifier in brackets stays attached to its tag. -/
def Setting.blockTag (s : Setting) (name : String) (attached : Bool) (content : Fragment) :
    Fragment :=
  match Text.after vendorNamespace name with
  | none => s.report "block tag" ("Unsupported block tag @" ++ name)
  | some tag =>
    if tag = "module" then Fragment.empty
    else
      Fragment.capture (tagCaptures tag)
        ++ Fragment.write ("@" ++ tag ++ if attached then "" else " ")
        ++ content ++ Fragment.write "\n"

/-! ## The walk -/

mutual

/-- One node. -/
def DocNode.render (s : Setting) (place : Place) : DocNode → Fragment
  | .text body => Fragment.write (reindent place.indent body)
  | .erroneous body => Fragment.write (reindent place.indent body)
  | .code body => Fragment.write (inlineLiteral place true body)
  | .literal body => Fragment.write (inlineLiteral place false body)
  | .reference r => s.reference "reference" r
  | .link r [] => Fragment.write "[`" ++ s.reference "link" r ++ Fragment.write "`]"
  | .link r (first :: rest) =>
    Fragment.write "[" ++ first.render s place ++ renderAll s place rest ++ Fragment.write "]"
      ++ Fragment.write "[`" ++ s.reference "link" r ++ Fragment.write "`]"
  | .element name attributes children selfClosing =>
    element place name attributes selfClosing fun inner => renderAll s inner children
  | .entity name => Fragment.write ("&" ++ name ++ ";")
  | .inheritDoc =>
    match s.inherited with
    | some comment => comment place
    | none => s.report "inheritDoc" "Cannot resolve parent doc comment."
  | .hidden => Fragment.write "@local\n"
  | .param name description => Fragment.capture { params := [(name, description)] }
  | .returns description => Fragment.capture { returns := some description }
  | .throws description =>
    if leadsWith "(hidden)" description then Fragment.empty
    else Fragment.write "@throws " ++ renderAll s place description ++ Fragment.write "\n"
  | .deprecated body =>
    Fragment.write "@deprecated " ++ renderAll s place body ++ Fragment.write "\n"
  | .see [] => Fragment.empty
  | .see (first :: rest) =>
    Fragment.write "@see " ++ first.render s place ++ Fragment.write " "
      ++ renderAll s place rest ++ Fragment.write "\n"
  | .blockTag name content =>
    s.blockTag name (leadsWith "[" content) (renderAll s place content)
  | .unsupported => s.report "unsupported" "Unsupported documentation node"

/-- Nodes one after the other. -/
def renderAll (s : Setting) (place : Place) : List DocNode → Fragment
  | [] => Fragment.empty
  | node :: nodes => node.render s place ++ renderAll s place nodes

end

/-- A whole comment: its body, a new line, its tags. -/
def DocComment.render (s : Setting) (place : Place) (doc : DocComment) : Fragment :=
  renderAll s place doc.body ++ Fragment.write "\n" ++ renderAll s place doc.tags

/-! ## Settings -/

/-- The setting for a type's comment, which inherits from nothing. -/
def typeSetting (decl : TypeDecl) (resolve : Target → Option String) : Setting :=
  { subject := Program.typeSubject decl, resolve, inherited := none }

/-- How many methods of the program are not in `chain`. -/
def Program.unchained (p : Program) (chain : List MethodId) : Nat :=
  Count.left Method.id chain p.methods

theorem Program.unchained_cons_lt {p : Program} {chain : List MethodId} {m : Method}
    (hm : m ∈ p.methods) (hc : m.id ∉ chain) : p.unchained (m.id :: chain) < p.unchained chain :=
  Count.left_cons_lt hm hc

/-- The setting for a method's comment, where `chain` holds the methods
whose comments are being expanded, `m` itself first. A method that is
already on the chain is not expanded again. -/
def methodSetting (p : Program) (resolve : Target → Option String) (m : Method)
    (chain : List MethodId) : Setting :=
  { subject := p.methodSubject m
    resolve
    inherited :=
      match _found : p.inheritedDoc m with
      | none => none
      | some (ancestor, doc) =>
        if _known : ancestor.id ∈ chain then none
        else some fun place =>
          doc.render (methodSetting p resolve ancestor (ancestor.id :: chain)) place }
termination_by p.unchained chain
decreasing_by exact Program.unchained_cons_lt (Program.mem_methods_of_inheritedDoc _found) _known

@[simp] theorem subject_methodSetting (p : Program) (resolve : Target → Option String) (m : Method)
    (chain : List MethodId) : (methodSetting p resolve m chain).subject = p.methodSubject m := by
  rw [methodSetting]

@[simp] theorem resolve_methodSetting (p : Program) (resolve : Target → Option String) (m : Method)
    (chain : List MethodId) : (methodSetting p resolve m chain).resolve = resolve := by
  rw [methodSetting]

theorem inherited_methodSetting (p : Program) (resolve : Target → Option String) (m : Method)
    (chain : List MethodId) :
    (methodSetting p resolve m chain).inherited =
      match p.inheritedDoc m with
      | none => none
      | some (ancestor, doc) =>
        if ancestor.id ∈ chain then none
        else some fun place =>
          doc.render (methodSetting p resolve ancestor (ancestor.id :: chain)) place := by
  rw [methodSetting]
  simp only
  split
  · next hnone => rw [hnone]
  · next hsome => rw [hsome]; simp only [dite_eq_ite]

/-- The declaration that documentation belongs to. -/
inductive Owner where
  | type (decl : TypeDecl)
  | method (m : Method)
  deriving Repr

/-- The setting for the documentation of a declaration. -/
def Owner.setting (p : Program) (resolve : Target → Option String) : Owner → Setting
  | .type decl => typeSetting decl resolve
  | .method m => methodSetting p resolve m [m.id]

/-! ## Rendering -/

/-- A comment rendered on its own. -/
def renderComment (s : Setting) (doc : DocComment) : Rendered :=
  (doc.render s {}).render

/-- Nodes rendered on their own, such as a captured description. -/
def renderNodes (s : Setting) (nodes : List DocNode) : Rendered :=
  (renderAll s {} nodes).render

end ApiStubs
