/-
ApiStubs.Config — what a run can be told.
-/
import ApiStubs.Surface.Class

namespace ApiStubs

/-- The settings of a run. -/
structure Config where
  /-- Where the stubs go; made if it is missing. -/
  output : String := "."
  /-- Source positions are shown relative to this directory. -/
  projectRoot : String := "."
  capabilities : Capabilities := {}
  deriving DecidableEq, Repr

end ApiStubs
