/-
ApiStubs.Surface — the part of a program that scripts see.

Documented types and callable methods make up the surface. A method
belongs to the nearest documented class on the superclass chain of the
type that declares it; the declaration is checked against what that class
is.
-/
import ApiStubs.Surface.Callable
import ApiStubs.Surface.Class

namespace ApiStubs

/-- The documented types and the callable methods of a program. -/
structure Surface where
  /-- Documented types by their numbers. -/
  classes : List ClassInfo := []
  /-- Callable methods by their numbers. -/
  callables : List Callable := []
  deriving Repr

namespace Surface

/-- The documentation of a type, if it has one. -/
def class? (s : Surface) (id : TypeId) : Option ClassInfo :=
  s.classes.find? (·.id = id)

/-- The callable of a method, if it is one. -/
def callable? (s : Surface) (id : MethodId) : Option Callable :=
  s.callables.find? (·.method.id = id)

/-! ## Owners -/

/-- Can a type of this kind not own functions? -/
def neverOwns : Option TypeKind → Bool
  | some .interfaceType => true
  | some .enumType => true
  | _ => false

/-- The nearest documented class on the superclass chain from `id` on,
where `seen` holds the types already passed. Interfaces and enumerations
end the chain, and so does a type that comes up again. -/
def ownerFrom (s : Surface) (g : TypeGraph) (seen : List TypeId) (id : TypeId) :
    Option ClassInfo :=
  if _fresh : id ∈ seen then none
  else if neverOwns (g.kind id) then none
  else
    match s.class? id with
    | some c => some c
    | none =>
      match _parent : g.superclass id with
      | some parent => s.ownerFrom g (id :: seen) parent
      | none => none
termination_by g.unseen seen
decreasing_by
  exact TypeGraph.unseen_cons_lt
    (TypeGraph.lt_size_of_mem_supertypes (TypeGraph.mem_supertypes_of_superclass _parent)) _fresh

/-- The documented class that owns what a type declares. -/
def owner? (s : Surface) (g : TypeGraph) (id : TypeId) : Option ClassInfo :=
  s.ownerFrom g [] id

/-! ## Extraction -/

/-- Is the class a generic source? -/
def isGeneric (c : Option ClassInfo) : Bool :=
  c.any (·.classification = .genericSource)

/-- A generic source has static functions only, and nothing else has
any. -/
def dispatchProblem? (s : Surface) (p : Program) (c : Callable) : Option Diagnostic :=
  let problem := fun message =>
    some { level := .error, subject := p.methodSubject c.method, message : Diagnostic }
  match c.method.decl.isStatic, isGeneric (s.owner? p.graph c.method.owner) with
  | true, false => problem "Cannot have static methods on non-generic sources"
  | false, true => problem "Generic sources can only have static methods"
  | _, _ => none

/-- What each type documents, in declaration order. -/
def documentation (p : Program) (caps : Capabilities) :
    List (Except Diagnostic (Option ClassInfo)) :=
  p.types.map (ClassInfo.ofType caps p.graph)

/-- The class that a type documents, if it documents one. -/
def documentedClass? : Except Diagnostic (Option ClassInfo) → Option ClassInfo
  | .ok c => c
  | .error _ => none

/-- The problem with what a type documents, if there is one. -/
def documentationProblem? : Except Diagnostic (Option ClassInfo) → Option Diagnostic
  | .ok _ => none
  | .error d => some d

/-- The surface of a program. -/
def of (p : Program) (caps : Capabilities) : Surface where
  classes := ((documentation p caps).filterMap documentedClass?).mergeSort fun a b => a.id ≤ b.id
  callables := p.methods.filterMap Callable.ofMethod?

/-- The problems found in the surface of a program: malformed module tags,
then functions that do not go with their owner. -/
def problems (p : Program) (caps : Capabilities) : List Diagnostic :=
  let s := of p caps
  (documentation p caps).filterMap documentationProblem?
    ++ s.callables.filterMap (s.dispatchProblem? p)

end Surface

end ApiStubs
