/-
ApiStubs.Render.Fragment — pieces of rendered documentation.

Rendering a node gives text, the tags it captures for later use and the
problems it finds. Where a fence begins, the text depends on one bit of
what was written before: whether a new line has just begun. A fragment is
rendered output that still waits for that bit, and fragments are chained
by handing it on.
-/
import ApiStubs.Diagnostic
import ApiStubs.Text.Cut

namespace ApiStubs

/-! ## Captured tags -/

/-- Tags that are collected instead of being written. -/
structure Captures where
  /-- The comment has a parameter tag of its own dialect. -/
  hasParam : Bool := false
  /-- The comment has a return tag of its own dialect. -/
  hasReturn : Bool := false
  /-- Descriptions of parameters, in the order they occur. -/
  params : List (String × List DocNode) := []
  /-- The description of the result. -/
  returns : Option (List DocNode) := none
  deriving Repr

namespace Captures

/-- What two parts of a comment capture together; the later one wins. -/
def merge (a b : Captures) : Captures where
  hasParam := a.hasParam || b.hasParam
  hasReturn := a.hasReturn || b.hasReturn
  params := a.params ++ b.params
  returns := b.returns <|> a.returns

/-- The description of a parameter: the last one given for its name. -/
def param? (c : Captures) (name : String) : Option (List DocNode) :=
  (c.params.reverse.find? (·.1 = name)).map (·.2)

end Captures

/-! ## Rendered output -/

/-- What rendering gives. -/
structure Rendered where
  text : String := ""
  captures : Captures := {}
  problems : List Diagnostic := []
  deriving Repr

namespace Rendered

/-- One output after another. -/
def append (a b : Rendered) : Rendered where
  text := a.text ++ b.text
  captures := a.captures.merge b.captures
  problems := a.problems ++ b.problems

/-- Does the output end at the beginning of a line, given whether it
started at one? -/
def endsFresh (r : Rendered) (fresh : Bool) : Bool :=
  match Text.last? r.text with
  | some c => c = '\n'
  | none => fresh

end Rendered

/-! ## Fragments -/

/-- Output that is told whether it starts at the beginning of a line. -/
def Fragment : Type := Bool → Rendered

namespace Fragment

/-- No output. -/
def empty : Fragment := fun _ => {}

/-- The text as it is. -/
def write (s : String) : Fragment := fun _ => { text := s }

/-- The text, but only at the beginning of a line. -/
def writeIfFresh (s : String) : Fragment := fun fresh => { text := if fresh then s else "" }

/-- No text, but a problem. -/
def report (d : Diagnostic) : Fragment := fun _ => { problems := [d] }

/-- No text, but captured tags. -/
def capture (c : Captures) : Fragment := fun _ => { captures := c }

/-- One fragment after another. -/
def append (a b : Fragment) : Fragment := fun fresh =>
  let first := a fresh
  first.append (b (first.endsFresh fresh))

instance : Append Fragment := ⟨append⟩

/-- The output when nothing has been written before. -/
def render (f : Fragment) : Rendered := f true

end Fragment

end ApiStubs
