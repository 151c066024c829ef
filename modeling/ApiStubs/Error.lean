/-
ApiStubs.Error — what stops a run.

Everything that can be worked around is a diagnostic instead.
-/

namespace ApiStubs

/-- A reason to stop. -/
inductive Error where
  /-- A model file cannot be read as text. -/
  | unreadable (path : String)
  /-- A model file does not hold a declaration model. -/
  | invalidModel (path : String)
  /-- A type is declared more than once. -/
  | duplicateType (id : String)
  /-- A wildcard pattern is malformed. -/
  | invalidPattern (pattern : String)
  /-- The output directory cannot be made. -/
  | noOutputDirectory (path : String)
  /-- A stub cannot be written. -/
  | unwritable (path : String)
  deriving DecidableEq, Repr

/-- The text that is shown for an error. -/
def Error.message : Error → String
  | .unreadable path => "failed to read " ++ path
  | .invalidModel path => "invalid declaration model in " ++ path
  | .duplicateType id => "type " ++ id ++ " is declared more than once"
  | .invalidPattern pattern => "invalid glob pattern: " ++ pattern
  | .noOutputDirectory path => "cannot create output directory: " ++ path
  | .unwritable path => "failed to write " ++ path

end ApiStubs
