/-
ApiStubs.Model.Declaration — declared types and methods.

One model file holds the types that the host compiler saw, each with its
supertypes by name, its documentation and its methods.
-/
import ApiStubs.Model.Doc
import ApiStubs.Model.ValueType

namespace ApiStubs

/-- Where a declaration stands. -/
structure SourcePos where
  file : String
  line : Nat
  column : Nat := 0
  deriving DecidableEq, Repr

/-- Positions are ordered by file, then line, then column. -/
def SourcePos.compare (a b : SourcePos) : Ordering :=
  ((Ord.compare a.file b.file).then (Ord.compare a.line b.line)).then
    (Ord.compare a.column b.column)

/-- What sort of type was declared. -/
inductive TypeKind where
  | classType | interfaceType | enumType
  deriving DecidableEq, Repr

/-- The name of a kind of types. -/
def TypeKind.name : TypeKind → String
  | .classType => "class"
  | .interfaceType => "interface"
  | .enumType => "enum"

/-- The callable marker of a method. -/
structure Marker where
  /-- Names that replace the method's own; the first is the primary one. -/
  names : Option (List String) := none
  deriving DecidableEq, Repr

/-- A parameter. -/
structure Param where
  name : String
  type : ValueType
  deriving Repr

/-- A declared method. -/
structure MethodDecl where
  name : String
  isStatic : Bool := false
  /-- Only marked methods can be called by scripts. -/
  marker : Option Marker := none
  params : List Param := []
  returns : ValueType := .void
  /-- The result may be absent. -/
  nullable : Bool := false
  source : SourcePos
  doc : Option DocComment := none
  deriving Repr

/-- Does a method override another: same name, same parameter types, and
neither of them static? -/
def MethodDecl.overrides (a b : MethodDecl) : Bool :=
  !a.isStatic && !b.isStatic && a.name == b.name
    && ValueType.sameAll (a.params.map (·.type)) (b.params.map (·.type))

/-- A declared type. -/
structure TypeDecl where
  /-- The qualified name, which no other type has. -/
  id : String
  /-- The unqualified name. -/
  name : String
  kind : TypeKind := .classType
  superclass : Option String := none
  interfaces : List String := []
  source : SourcePos
  doc : Option DocComment := none
  methods : List MethodDecl := []
  deriving Repr

/-- One model file. -/
structure Model where
  types : List TypeDecl := []
  deriving Repr

end ApiStubs
