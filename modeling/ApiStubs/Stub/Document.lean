/-
ApiStubs.Stub.Document — stubs, one for each documented class.

A stub is a header with the documentation of the class and one entry for
each function. Hidden classes have stubs as well, so that their functions
have a home; they are only never written out.
-/
import ApiStubs.Config
import ApiStubs.Stub.Group

namespace ApiStubs

/-- The generated source for one documented class. -/
structure StubDocument where
  /-- The name of the class, which the file is named after. -/
  name : String
  /-- Hidden stubs are not written out. -/
  hidden : Bool
  header : String
  /-- One text for each function, which begins with an empty line. -/
  entries : List String
  deriving DecidableEq, Repr

/-- The note about a function that no stub has. -/
def Project.ownerNote (project : Project) (f : Callable) : Diagnostic where
  level := .note
  subject := project.program.methodSubject f.method
  message := "Cannot find owner for " ++ f.name

namespace StubDocument

/-- The name of a stub's file. -/
def fileName (stub : StubDocument) : String :=
  stub.name ++ ".lua"

/-- The contents of a stub's file. -/
def text (stub : StubDocument) : String :=
  stub.header ++ Text.concat stub.entries

/-! ## Headers -/

/-- The tag that names the module of a class. -/
def moduleTag (c : ClassInfo) : String :=
  match c.kind with
  | some kind => "@module[kind=" ++ kind ++ "] " ++ c.moduleName
  | none => "@module " ++ c.moduleName

/-- The rendered documentation of a class. -/
def classDocumentation (project : Project) (c : ClassInfo) : Rendered :=
  match c.decl.doc with
  | some doc =>
    renderComment
      ((Owner.type c.decl).setting project.program (project.resolver (some c.id))) doc
  | none => {}

/-- The header of a class's stub. An auxiliary type names its module first
and then opens a table for its functions. -/
def headerOf (project : Project) (c : ClassInfo) : String :=
  let comment :=
    "--[[- " ++ (classDocumentation project c).text ++ project.sourceTag c.decl.source
  match c.typeName with
  | some name =>
    "--- " ++ moduleTag c ++ "\n\n" ++ comment ++ "@type " ++ name ++ "\n]]\n"
      ++ "local " ++ name ++ " = \x7b\x7d\n"
  | none => comment ++ moduleTag c ++ "\n]]\n"

/-! ## Stubs -/

/-- What stands before the names of a class's functions. -/
def qualifier (c : ClassInfo) : String :=
  match c.typeName with
  | some name => name ++ "."
  | none => ""

/-- Makes the stub of a class, given all groups of functions. -/
def build (project : Project) (groups : List FunctionGroup) (c : ClassInfo) :
    StateM (List MethodId) StubDocument := do
  let functions ← FunctionGroup.functionsFor project.program.graph c groups
  return { name := c.name
           hidden := c.hidden
           header := headerOf project c
           entries := functions.map (FunctionStub.entry (qualifier c)) }

/-- Makes the stubs of all documented classes, and gives them by name. -/
def buildAll (project : Project) (groups : List FunctionGroup) :
    StateM (List MethodId) (List StubDocument) := do
  let stubs ← project.surface.classes.mapM (build project groups)
  return stubs.mergeSort fun a b => a.name ≤ b.name

/-! ## What there is to report -/

/-- Notes about the functions that no stub has used. -/
def orphanNotes (project : Project) (groups : List FunctionGroup) (used : List MethodId) :
    List Diagnostic :=
  ((groups.flatMap (·.inSourceOrder)).filter fun f => f.callable.method.id ∉ used).map fun f =>
    project.ownerNote f.callable

/-- The problems found in the documentation of classes. -/
def headerProblems (project : Project) : List Diagnostic :=
  project.surface.classes.flatMap fun c => (classDocumentation project c).problems

end StubDocument

/-! ## Generation -/

/-- What generation gives. -/
structure Generated where
  stubs : List StubDocument
  diagnostics : List Diagnostic
  deriving Repr

/-- The project that some declarations make up under a configuration. -/
def Project.of (currentDir : String) (config : Config) (p : Program) : Project where
  program := p
  surface := Surface.of p config.capabilities
  currentDir := currentDir
  root := config.projectRoot

/-- The stubs of a project, and everything there is to report about them:
the functions, the classes, and the functions that no stub has used. -/
def Project.generate (project : Project) : Generated :=
  let groups := FunctionGroup.all project
  let (stubs, used) := (StubDocument.buildAll project groups).run []
  { stubs
    diagnostics :=
      groups.flatMap (·.problems) ++ StubDocument.headerProblems project
        ++ StubDocument.orphanNotes project groups used }

/-- The stubs for some models, and everything there is to report, about the
surface first. -/
def generate (currentDir : String) (config : Config) (models : List Model) :
    Except Error Generated := do
  let p ← Program.build models
  let generated := (Project.of currentDir config p).generate
  return { generated with
           diagnostics := Surface.problems p config.capabilities ++ generated.diagnostics }

end ApiStubs
