/-
ApiStubs.Surface.Class — documented types.

A type is documented when its comment has a module tag that names
something. Which of the configured capabilities the type has decides
whether it is a module or an auxiliary type that lives in a module's
namespace; only the latter may give a kind of its own, in brackets before
the name.
-/
import ApiStubs.Program
import ApiStubs.Text.Blank
import ApiStubs.Text.Cut

namespace ApiStubs

/-! ## Capabilities and classifications -/

/-- The types whose subtypes are modules. -/
structure Capabilities where
  /-- Subtypes are global modules. -/
  luaApi : String := "dan200.computercraft.api.lua.ILuaAPI"
  /-- Subtypes are peripherals: modules with a state. -/
  peripheral : String := "dan200.computercraft.api.peripheral.IPeripheral"
  /-- Subtypes are modules whose functions take the object they act on. -/
  genericSource : String := "dan200.computercraft.api.lua.GenericSource"
  deriving DecidableEq, Repr

/-- How a documented type is exposed to scripts. -/
inductive Classification where
  | api | peripheral | genericSource
  /-- An auxiliary type in the namespace of a module. -/
  | auxiliary
  deriving DecidableEq, Repr

namespace Classification

/-- The first capability that a type has decides. -/
def of (caps : Capabilities) (g : TypeGraph) (id : TypeId) : Classification :=
  if g.isSubtypeOfName id caps.luaApi then .api
  else if g.isSubtypeOfName id caps.peripheral then .peripheral
  else if g.isSubtypeOfName id caps.genericSource then .genericSource
  else .auxiliary

/-- Is the type a module of its own? -/
def isModule : Classification → Bool
  | .auxiliary => false
  | _ => true

/-- The kind that all modules of a classification have. -/
def moduleKind : Classification → Option String
  | .peripheral => some "peripheral"
  | .genericSource => some "generic_peripheral"
  | .api | .auxiliary => none

end Classification

/-! ## Documented types -/

/-- A documented type. -/
structure ClassInfo where
  id : TypeId
  decl : TypeDecl
  /-- The whole name, which is also the name of the stub. -/
  name : String
  classification : Classification
  /-- The kind tag of the dialect, such as `peripheral`. -/
  kind : Option String
  moduleName : String
  /-- The name within the module; only auxiliary types have one. -/
  typeName : Option String
  hidden : Bool
  deriving Repr

namespace ClassInfo

/-- The name that other documentation uses for the type. -/
def referenceName (c : ClassInfo) : String :=
  match c.kind with
  | some kind => kind ++ "!" ++ c.name
  | none => c.name

/-- The text of the module tag; none if the comment has no such tag or the
tag has no text. -/
def moduleText? (decl : TypeDecl) : Option String := do
  let doc ← decl.doc
  let content ← doc.blockTag? "cc.module"
  (some (Text.trim (plainText content))).filter (!·.isEmpty)

/-- What opens a kind in brackets. -/
def kindOpening : String := "[kind="

/-- The name of an auxiliary type with the kind before it taken off: the
kind and the name, or `none` if the bracket is never closed. -/
def splitKind? (text : String) : Option (Option String × String) :=
  match Text.after kindOpening text with
  | none => some (none, text)
  | some rest =>
    (Text.cut ']' rest).map fun (kind, name) => (some (Text.trim kind), Text.trim name)

/-- The module and the local name of an auxiliary type: what stands before
and after the first point, or twice the name if it has none. -/
def splitName (name : String) : String × String :=
  (Text.cut '.' name).getD (name, name)

/-- The documented type that a module is. -/
def ofModule (t : DeclaredType) (classification : Classification) (hidden : Bool)
    (name : String) : ClassInfo :=
  { id := t.id, decl := t.decl, name, classification, kind := classification.moduleKind,
    moduleName := name, typeName := none, hidden }

/-- The documented type that an auxiliary type is. -/
def ofAuxiliary (t : DeclaredType) (hidden : Bool) (kind : Option String) (name : String) :
    ClassInfo :=
  let (moduleName, typeName) := splitName name
  { id := t.id, decl := t.decl, name, classification := .auxiliary, kind, moduleName,
    typeName := some typeName, hidden }

/-- The problem of a kind without a closing bracket. -/
def malformedKind (decl : TypeDecl) (text : String) : Diagnostic :=
  { level := .error, subject := Program.typeSubject decl,
    message := "Malformed kind in @cc.module " ++ text ++ " (missing ']')" }

/-- What is documented about a type: nothing without a module tag, a
problem if the kind in it is malformed. -/
def ofType (caps : Capabilities) (g : TypeGraph) (t : DeclaredType) :
    Except Diagnostic (Option ClassInfo) :=
  match moduleText? t.decl with
  | none => .ok none
  | some text =>
    let hidden := t.decl.doc.any (·.isHidden)
    let classification := Classification.of caps g t.id
    if classification.isModule then .ok (some (ofModule t classification hidden text))
    else
      match splitKind? text with
      | none => .error (malformedKind t.decl text)
      | some (kind, name) => .ok (some (ofAuxiliary t hidden kind name))

end ClassInfo

end ApiStubs
