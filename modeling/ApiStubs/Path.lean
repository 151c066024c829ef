/-
ApiStubs.Path — paths as texts, and what they are made of.

A path is kept as it is spelled and compared by its components: repeated
slashes and inner `.` components do not count. Source positions are shown
relative to the project's root, by walking both paths in step.
-/
import ApiStubs.Text.Cut

namespace ApiStubs

/-- A component of a path. -/
inductive Component where
  /-- The leading slash. -/
  | root
  /-- A leading `.`. -/
  | here
  /-- A `..`. -/
  | up
  | name (text : String)
  deriving DecidableEq, Repr

namespace Component

/-- The text of a component. -/
def text : Component → String
  | .root => "/"
  | .here => "."
  | .up => ".."
  | .name text => text

/-- The place of a component's sort in the order of components. -/
def rank : Component → Nat
  | .root => 0
  | .here => 1
  | .up => 2
  | .name _ => 3

/-- Components are ordered by sort, names among themselves by their
characters. -/
def compare (a b : Component) : Ordering :=
  (Ord.compare a.rank b.rank).then (Ord.compare a.text b.text)

end Component

namespace Path

/-! ## Components -/

/-- The component that a piece between slashes is; empty pieces and inner
`.` are none. -/
def piece? (s : String) : Option Component :=
  if s = "" || s = "." then none
  else if s = ".." then some .up
  else some (.name s)

/-- Does the path start at the root? -/
def isAbsolute (path : String) : Bool :=
  Text.startsWith "/" path

/-- Does the path end with a slash? -/
def endsWithSlash (path : String) : Bool :=
  Text.last? path = some '/'

/-- The components of a path. -/
def components (path : String) : List Component :=
  match Text.split '/' path with
  | [] => []
  | first :: rest =>
    let inner := rest.filterMap piece?
    if isAbsolute path then .root :: inner
    else if first = "." then .here :: inner
    else (piece? first).toList ++ inner

/-- The order of paths, component by component. -/
def compareComponents : List Component → List Component → Ordering
  | [], [] => .eq
  | [], _ :: _ => .lt
  | _ :: _, [] => .gt
  | a :: as, b :: bs => (a.compare b).then (compareComponents as bs)

/-- The order of paths; differently spelled paths may be equal in it. -/
def compare (a b : String) : Ordering :=
  compareComponents (components a) (components b)

/-! ## Joining -/

/-- A path below a directory; an absolute path replaces the directory. -/
def join (dir path : String) : String :=
  if isAbsolute path then path
  else if dir.isEmpty || endsWithSlash dir then dir ++ path
  else dir ++ "/" ++ path

/-- The path without its last name. -/
def parent (path : String) : String :=
  Text.join "/" (Text.split '/' path).dropLast

/-- Components joined to a path. -/
def ofComponents (start : String) (cs : List Component) : String :=
  cs.foldl (fun path c => join path c.text) start

/-! ## Absolute paths -/

/-- Where an absolute path starts: exactly two leading slashes are kept,
any other number counts as one. -/
def absoluteStart (path : String) : String :=
  if Text.startsWith "//" path && !Text.startsWith "///" path then "//" else "/"

/-- The absolute form of a path: without `.` and repeated slashes, but with
every `..` and with a trailing slash. The empty path has none and stays
empty. -/
def absolute (currentDir path : String) : String :=
  if path.isEmpty then ""
  else
    let start := if isAbsolute path then absoluteStart path else currentDir
    let inner := (components path).filter fun c => c ≠ .root && c ≠ .here
    let plain := ofComponents start inner
    if endsWithSlash path then join plain "" else plain

/-! ## Relative paths -/

/-- The way from `base` to `path`, both given by what is left of their
components after a common start; none if it would have to leave a `..` of
the base again. -/
def stepsFrom : List Component → List Component → Option (List Component)
  | path, [] => some path
  | [], base => some (base.map fun _ => .up)
  | a :: path, b :: base =>
    if a = b then stepsFrom path base
    else if b = .up then none
    else some (.up :: base.map (fun _ => .up) ++ a :: path)

/-- A path relative to a base, if there is one. -/
def relative? (path base : String) : Option String :=
  if isAbsolute path = isAbsolute base then
    (stepsFrom (components path) (components base)).map (ofComponents "")
  else if isAbsolute path then some path
  else none

/-- A path with slashes instead of backslashes. -/
def withSlashes (path : String) : String :=
  String.ofList (path.toList.map fun c => if c = '\\' then '/' else c)

/-- A source file as seen from the project's root; the absolute path if it
cannot be reached from there. -/
def fromRoot (currentDir root file : String) : String :=
  let file := absolute currentDir file
  withSlashes ((relative? file (absolute currentDir root)).getD file)

end Path

end ApiStubs
