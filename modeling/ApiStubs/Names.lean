/-
ApiStubs.Names — what declarations are called in documentation.

A documented type has its reference name; a function is called by its
primary name, qualified by its owner unless the documentation at hand is
that owner's.
-/
import ApiStubs.Render.TypeText
import ApiStubs.Surface

namespace ApiStubs.Surface

/-- The name of a documented type. -/
def typeName? (s : Surface) (p : Program) (id : String) : Option String := do
  let id ← p.graph.lookup id
  let c ← s.class? id
  return c.referenceName

/-- Is the type declared as an enumeration? -/
def isEnum (p : Program) (id : String) : Bool :=
  match p.graph.lookup id with
  | some id => p.graph.kind id = some .enumType
  | none => false

/-- The first callable among the methods of a type with this name. -/
def callableNamed? (s : Surface) (p : Program) (owner : TypeId) (name : String) :
    Option Callable :=
  ((p.methodsOf owner).filter (·.decl.name = name)).findSome? fun m => s.callable? m.id

/-- The name of a function, seen from the documentation of `context`. -/
def functionName? (s : Surface) (p : Program) (context : Option TypeId) (owner name : String) :
    Option String := do
  let owner ← p.graph.lookup owner
  let f ← s.callableNamed? p owner name
  let c ← s.owner? p.graph owner
  if some c.id = context then return f.name
  else return c.referenceName ++ "." ++ f.name

/-- The name of a reference's target, seen from the documentation of
`context`. -/
def termName? (s : Surface) (p : Program) (context : Option TypeId) : Target → Option String
  | .type id => s.typeName? p id
  | .method owner name => s.functionName? p context owner name

/-- The names of declared types in type expressions. -/
def typeNames (s : Surface) (p : Program) : TypeNames where
  name? := s.typeName? p
  isEnum := isEnum p

end ApiStubs.Surface
