/-
ApiStubs.Stub.Group — functions by the type that declares them.

The functions that a type declares stay together. A group goes into the
stub of the class that owns it and into the stub of every documented
subtype of its type, where narrower types come before broader ones and
what a function overrides is left out.
-/
import ApiStubs.Stub.Function
import ApiStubs.TypeGraph.Height

namespace ApiStubs

/-- The functions that one type declares. -/
structure FunctionGroup where
  /-- The documented class that owns the functions. -/
  owner : Option TypeId
  /-- The type that declares the functions. -/
  enclosing : TypeId
  height : Nat
  /-- The unqualified name of the declaring type. -/
  simpleName : String
  /-- The functions in declaration order. -/
  functions : List FunctionStub
  deriving Repr

namespace FunctionGroup

/-! ## Composing -/

/-- The callables that a type declares. -/
def callablesOf (s : Surface) (enclosing : TypeId) : List Callable :=
  s.callables.filter (·.method.owner = enclosing)

/-- The group of a type's functions, each composed for the class that owns
them. -/
def of (project : Project) (enclosing : TypeId) : FunctionGroup :=
  let p := project.program
  let owner := project.surface.owner? p.graph enclosing
  { owner := owner.map (·.id)
    enclosing
    height := p.graph.height enclosing
    simpleName := p.simpleName enclosing
    functions :=
      (callablesOf project.surface enclosing).map (FunctionStub.compose project owner) }

/-- The types that declare functions, by their numbers. -/
def declaringTypes (project : Project) : List TypeId :=
  (List.range project.program.graph.size).filter fun id =>
    !(callablesOf project.surface id).isEmpty

/-- All groups of a project. -/
def all (project : Project) : List FunctionGroup :=
  (declaringTypes project).map (of project)

/-- The problems found while composing the functions of a group. -/
def problems (group : FunctionGroup) : List Diagnostic :=
  group.functions.flatMap (·.problems)

/-! ## Source order -/

/-- Does the source of one function come before that of another, or at the
same place? -/
def sourceOrder (a b : FunctionStub) : Bool :=
  (a.decl.source.compare b.decl.source).isLE

/-- The functions of a group in the order of their sources. -/
def inSourceOrder (group : FunctionGroup) : List FunctionStub :=
  group.functions.mergeSort sourceOrder

/-! ## In the stub of a class -/

/-- Does the group go into the stub of this class? -/
def appearsIn (g : TypeGraph) (c : ClassInfo) (group : FunctionGroup) : Bool :=
  group.owner = some c.id || g.isSubtype c.id group.enclosing

/-- The order of groups in the stub of a class: its own first, then the
higher ones, then by name. -/
def compareFor (c : ClassInfo) (a b : FunctionGroup) : Ordering :=
  ((compare (a.enclosing != c.id) (b.enclosing != c.id)).then (compare b.height a.height)).then
    ((compare a.simpleName b.simpleName).then (compare a.enclosing b.enclosing))

/-- The groups in the stub of a class, in order. -/
def applicable (g : TypeGraph) (c : ClassInfo) (groups : List FunctionGroup) :
    List FunctionGroup :=
  (groups.filter (appearsIn g c)).mergeSort fun a b => (compareFor c a b).isLE

/-- Gives the functions without those that one of `kept`, or one given
before them, overrides. All of them count as used from then on, also those
that are left out. -/
def place (kept : List MethodDecl) :
    List FunctionStub → StateM (List MethodId) (List FunctionStub)
  | [] => return []
  | f :: fs => do
    modify (·.insert f.callable.method.id)
    if kept.any (·.overrides f.decl) then place kept fs
    else
      let rest ← place (kept ++ [f.decl]) fs
      return f :: rest

/-- The functions in the stub of a class. -/
def functionsFor (g : TypeGraph) (c : ClassInfo) (groups : List FunctionGroup) :
    StateM (List MethodId) (List FunctionStub) :=
  place [] ((applicable g c groups).flatMap inSourceOrder)

end FunctionGroup

end ApiStubs
