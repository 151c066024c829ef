/-
ApiStubs.Stub.Function — one function of a stub.

The comment of a function is its rendered documentation, the place of its
source and a line for each parameter and for the result. A comment that
describes parameters or the result in the dialect's own tags is left
alone: no lines are added for what it describes itself.
-/
import ApiStubs.Names
import ApiStubs.Path
import ApiStubs.Render.Comment

namespace ApiStubs

/-! ## The project at hand -/

/-- What stubs are made from. -/
structure Project where
  program : Program
  surface : Surface
  /-- The current directory, where relative paths start. -/
  currentDir : String
  /-- The directory that source positions are shown relative to. -/
  root : String

namespace Project

/-- The line that says where a declaration stands. -/
def sourceTag (project : Project) (pos : SourcePos) : String :=
  "@source " ++ Path.fromRoot project.currentDir project.root pos.file ++ ":"
    ++ Nat.repr pos.line ++ "\n"

/-- The names of references in the documentation of a class. -/
def resolver (project : Project) (context : Option TypeId) : Target → Option String :=
  project.surface.termName? project.program context

end Project

/-! ## Parameters -/

/-- The name of a parameter in the signature: without the `Arg` or `A`
that keeps it from shadowing another name, unless nothing would be left. -/
def displayName (name : String) : String :=
  ((Text.before "Arg" name <|> Text.before "A" name).filter (!·.isEmpty)).getD name

/-- The problems of a written type. -/
def typeProblems (subject : Subject) (t : TypeText) : List Diagnostic :=
  t.unknown.map fun what =>
    { level := .error, subject, message := "Cannot handle type " ++ what }

/-- A captured description after a space, or nothing. -/
def renderDescription (s : Setting) : Option (List DocNode) → Rendered
  | none => {}
  | some nodes =>
    let r := renderNodes s nodes
    { r with text := " " ++ r.text }

/-- What is written for a parameter. -/
structure ParamDoc where
  /-- Its place in the signature. -/
  item : String
  /-- Its line in the comment; a dynamic parameter has none. -/
  line : String := ""
  problems : List Diagnostic := []
  deriving Repr

/-- What is written for a parameter that scripts see. -/
def ParamDoc.of (names : TypeNames) (s : Setting) (captures : Captures) (p : Param) : ParamDoc :=
  if p.type.isAny then
    { item := "..."
      problems := [{ level := .warning, subject := s.subject,
                     message := "Method has a dynamic argument but has no @cc.param tag." }] }
  else
    let written := p.type.write names
    let description := renderDescription s (captures.param? p.name)
    let tag := if p.type.isOptional then "@tparam[opt] " else "@tparam "
    { item := displayName p.name
      line := tag ++ written.text ++ " " ++ displayName p.name ++ description.text ++ "\n"
      problems := typeProblems s.subject written ++ description.problems }

/-- The parameters that scripts pass. A static function of a generic source
is called on the object that is its first parameter; what the runtime
supplies is left out. -/
def visibleParams (decl : MethodDecl) (owner : Option ClassInfo) : List Param :=
  let passed := if Surface.isGeneric owner && decl.isStatic then decl.params.drop 1 else decl.params
  passed.filter (!·.type.isIrrelevant)

/-- What is written for all parameters. -/
structure ParamsDoc where
  signature : String := ""
  lines : String := ""
  problems : List Diagnostic := []
  deriving Repr

/-- Is every parameter fully described by its type, or not seen by scripts
at all? -/
def describedByTypes (params : List Param) : Bool :=
  params.all fun p => p.type.isIrrelevant || p.type.isKnown

/-- The parameters of a function whose comment has captured these tags. -/
def ParamsDoc.of (names : TypeNames) (s : Setting) (captures : Captures) (decl : MethodDecl)
    (owner : Option ClassInfo) : ParamsDoc :=
  if captures.hasParam then
    { problems :=
        if describedByTypes decl.params then
          [{ level := .warning, subject := s.subject,
             message := "Method uses @cc.tparam, but has no arbitrary arguments." }]
        else [] }
  else
    let docs := (visibleParams decl owner).map (ParamDoc.of names s captures)
    { signature := Text.join ", " (docs.map (·.item))
      lines := Text.concat (docs.map (·.line))
      problems := docs.flatMap (·.problems) }

/-! ## Results -/

/-- A result that is not described where it should be, or described where
its type says everything. -/
def returnWarnings (subject : Subject) (hasReturn : Bool) (type : ValueType) : List Diagnostic :=
  if !hasReturn && type.isAny then
    [{ level := .warning, subject,
       message := "Method returns an arbitrary object but has no @cc.return tag." }]
  else if hasReturn && type.isKnown then
    [{ level := .warning, subject,
       message := "Method has a @cc.return but returns a known type." }]
  else []

/-- The line for the result, unless the comment has one or there is no
result. -/
def returnLine (names : TypeNames) (s : Setting) (captures : Captures) (decl : MethodDecl) :
    Rendered :=
  if captures.hasReturn || decl.returns.isVoid then {}
  else
    let written := decl.returns.write names
    let absent := if decl.nullable || decl.returns.isOptional then "|nil" else ""
    let description := renderDescription s captures.returns
    { text := "@treturn " ++ written.text ++ absent ++ description.text ++ "\n"
      problems := typeProblems s.subject written ++ description.problems }

/-! ## Functions -/

/-- A function, ready to be put into every stub it applies to. -/
structure FunctionStub where
  callable : Callable
  /-- The whole comment block. -/
  comment : String
  /-- The parameters between the parentheses. -/
  signature : String
  /-- What was found wrong while composing it. -/
  problems : List Diagnostic
  deriving Repr

namespace FunctionStub

/-- The declaration behind a function. -/
def decl (f : FunctionStub) : MethodDecl :=
  f.callable.method.decl

/-- Composes the function for a callable that `owner` owns. -/
def compose (project : Project) (owner : Option ClassInfo) (c : Callable) : FunctionStub :=
  let m := c.method
  let names := project.surface.typeNames project.program
  let s := (Owner.method m).setting project.program (project.resolver (owner.map (·.id)))
  let documentation : Rendered :=
    match m.decl.doc with
    | some doc => renderComment s doc
    | none => {}
  let captures := documentation.captures
  let params := ParamsDoc.of names s captures m.decl owner
  let result := returnLine names s captures m.decl
  { callable := c
    comment :=
      "--[[- " ++ documentation.text ++ "\n" ++ project.sourceTag m.decl.source ++ params.lines
        ++ result.text ++ "]]\n"
    signature := params.signature
    problems :=
      documentation.problems ++ params.problems
        ++ returnWarnings s.subject captures.hasReturn m.decl.returns ++ result.problems }

/-- The entry of a function in a stub whose names have this qualifier: the
comment, the function, and a line for each of its other names. -/
def entry (qualifier : String) (f : FunctionStub) : String :=
  let name := qualifier ++ f.callable.name
  "\n" ++ f.comment ++ "function " ++ name ++ "(" ++ f.signature ++ ") end\n"
    ++ Text.concat (f.callable.aliases.map fun other => qualifier ++ other ++ " = " ++ name ++ "\n")

end FunctionStub

end ApiStubs
