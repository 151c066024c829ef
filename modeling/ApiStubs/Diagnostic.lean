/-
ApiStubs.Diagnostic — what a run reports besides its output.

A bad declaration never stops a run: it is reported and the output is
degraded in place. Only errors make the run count as failed; warnings and
notes do not.
-/
import ApiStubs.Model.Declaration

namespace ApiStubs

/-! ## Levels -/

/-- How serious a diagnostic is. -/
inductive Level where
  | note | warning | error
  deriving DecidableEq, Repr

namespace Level

/-- The name of a level. -/
def name : Level → String
  | .note => "note"
  | .warning => "warning"
  | .error => "error"

/-- The place of a level among the levels, the least serious first. -/
def rank : Level → Nat
  | .note => 0
  | .warning => 1
  | .error => 2

/-- Levels are ordered by how serious they are. -/
def compare (a b : Level) : Ordering :=
  Ord.compare a.rank b.rank

end Level

/-! ## Diagnostics -/

/-- The declaration that a diagnostic is about. -/
structure Subject where
  /-- The qualified name: `pkg.Type` or `pkg.Type#method`. -/
  name : String
  location : SourcePos
  deriving DecidableEq, Repr

/-- A reported problem. -/
structure Diagnostic where
  level : Level
  subject : Subject
  message : String
  /-- The kind of the documentation node at fault, if one is. -/
  node : Option String := none
  deriving DecidableEq, Repr

namespace Diagnostic

/-- The line that is shown: place, level, message, node and subject. -/
def text (d : Diagnostic) : String :=
  let place := d.subject.location.file ++ ":" ++ Nat.repr d.subject.location.line
  let node :=
    match d.node with
    | some kind => " (in " ++ kind ++ ")"
    | none => ""
  place ++ ": " ++ d.level.name ++ ": " ++ d.message ++ node ++ " [" ++ d.subject.name ++ "]"

/-- How many diagnostics have this level. -/
def count (level : Level) (ds : List Diagnostic) : Nat :=
  (ds.filter (·.level = level)).length

/-- Is one of the diagnostics an error? -/
def hasErrors (ds : List Diagnostic) : Bool :=
  0 < count .error ds

end Diagnostic

end ApiStubs
