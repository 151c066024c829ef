/-
ApiStubs.Surface.Callable — methods that scripts can call.
-/
import ApiStubs.Program

namespace ApiStubs

/-- A method with the callable marker. -/
structure Callable where
  method : Method
  /-- The primary name. -/
  name : String
  /-- Further names for the same function. -/
  aliases : List String
  deriving Repr

/-- The callable that a method is, if it is marked. The marker may give
the names; otherwise the method's own name is used. -/
def Callable.ofMethod? (m : Method) : Option Callable :=
  m.decl.marker.map fun marker =>
    match marker.names with
    | some (name :: aliases) => ⟨m, name, aliases⟩
    | _ => ⟨m, m.decl.name, []⟩

end ApiStubs
