/-
ApiStubs.Files.Glob — wildcard patterns for paths.

A pattern is a path whose components may hold wildcards: `?` for one
character, `*` for any number of them, `[...]` for one of some, `[!...]`
for any other. The component `**` stands for any number of directories,
none included. Wildcards match a leading dot.

A component without wildcards is looked up; any other is matched against
the names in a directory. What is found is spelled as the pattern is, but
without a leading `./`.
-/
import ApiStubs.Files.System

namespace ApiStubs.Glob

/-! ## Patterns -/

/-- Characters from one to another, both included. -/
structure CharRange where
  first : Char
  last : Char
  deriving DecidableEq, Repr

/-- A part of a component. -/
inductive Piece where
  | char (c : Char)
  | anyChar
  | anyText
  | oneOf (ranges : List CharRange)
  | noneOf (ranges : List CharRange)
  deriving DecidableEq, Repr

/-- A component of a pattern. -/
inductive Part where
  | pieces (pieces : List Piece)
  /-- Any number of directories. -/
  | directories
  deriving DecidableEq, Repr

/-! ## Reading patterns -/

/-- The ranges between brackets; a single character is a range too. -/
def ranges : List Char → List CharRange
  | a :: '-' :: b :: cs => ⟨a, b⟩ :: ranges cs
  | c :: cs => ⟨c, c⟩ :: ranges cs
  | [] => []

/-- What stands in brackets, after the opening one, and what follows the
closing one. The first character never closes. -/
def takeBrackets : List Char → Option (List Char × List Char)
  | [] => none
  | c :: cs => (Text.cutChars ']' cs).map fun parts => (c :: parts.1, parts.2)

theorem length_takeBrackets_lt {cs : List Char} {parts : List Char × List Char}
    (h : takeBrackets cs = some parts) : parts.2.length < cs.length := by
  cases cs with
  | nil => simp [takeBrackets] at h
  | cons c cs =>
    obtain ⟨inner, hi, rfl⟩ := Option.map_eq_some_iff.1 h
    have := Text.length_cutChars_lt hi
    simp only [List.length_cons]
    omega

/-- The pieces of a component; none if brackets are not closed or two stars
stand together. -/
def pieces? (cs : List Char) : Option (List Piece) :=
  match cs with
  | [] => some []
  | '?' :: rest => (pieces? rest).map (.anyChar :: ·)
  | '*' :: '*' :: _ => none
  | '*' :: rest => (pieces? rest).map (.anyText :: ·)
  | '[' :: '!' :: rest =>
    match _closed : takeBrackets rest with
    | some parts => (pieces? parts.2).map (.noneOf (ranges parts.1) :: ·)
    | none => none
  | '[' :: rest =>
    match _closed : takeBrackets rest with
    | some parts => (pieces? parts.2).map (.oneOf (ranges parts.1) :: ·)
    | none => none
  | c :: rest => (pieces? rest).map (.char c :: ·)
termination_by cs.length
decreasing_by
  all_goals try have := length_takeBrackets_lt _closed
  all_goals simp only [List.length_cons]
  all_goals omega

/-- A component of a pattern. -/
def part? (component : String) : Option Part :=
  if component = "**" then some .directories
  else (pieces? component.toList).map .pieces

/-- The parts of a pattern without its leading slash. A slash at the end
begins no new component. -/
def componentsOf (pattern : String) : List String :=
  let pieces := Text.split '/' ((Text.after "/" pattern).getD pattern)
  if pieces.getLast? = some "" then pieces.dropLast else pieces

/-- The parts of a pattern, if it is well formed. -/
def parts? (pattern : String) : Option (List Part) :=
  (componentsOf pattern).mapM part?

/-! ## Matching names -/

/-- Is the character in one of the ranges? -/
def inRanges (ranges : List CharRange) (c : Char) : Bool :=
  ranges.any fun r => r.first ≤ c && c ≤ r.last

/-- Does the piece match this one character? -/
def Piece.matchesChar (c : Char) : Piece → Bool
  | .char d => c = d
  | .anyChar => true
  | .anyText => false
  | .oneOf ranges => inRanges ranges c
  | .noneOf ranges => !inRanges ranges c

/-- All ends of a text, the whole of it first. -/
def endings : List Char → List (List Char)
  | [] => [[]]
  | c :: cs => (c :: cs) :: endings cs

/-- What can be left of a text after one more piece, given all that can be
left before it. These are ends of one text, the longest first; so what any
text leaves of them are the ends of the first. -/
def leftAfter (ends : List (List Char)) : Piece → List (List Char)
  | .anyText => (ends.head?.map endings).getD []
  | piece => ends.filterMap fun
    | c :: cs => if piece.matchesChar c then some cs else none
    | [] => none

/-- Do the pieces match the whole text? -/
def matchesChars (pieces : List Piece) (cs : List Char) : Bool :=
  (pieces.foldl leftAfter [cs]).any (·.isEmpty)

/-- Do the pieces match this name? -/
def matchesName (pieces : List Piece) (name : String) : Bool :=
  matchesChars pieces name.toList

/-- The only name that pieces without wildcards match. -/
def literal? : List Piece → Option (List Char)
  | [] => some []
  | .char c :: pieces => (literal? pieces).map (c :: ·)
  | _ :: _ => none

/-! ## Walking the file system -/

/-- The path of a name in a directory; in the current directory it is the
name alone. -/
def below (dir name : String) : String :=
  if Path.components dir = [.here] then name else Path.join dir name

/-- The directory and all directories below it, at most `depth` levels
down. -/
def directoriesFrom (fs : FileSystem) : Nat → String → List String
  | 0, dir => [dir]
  | depth + 1, dir =>
    dir :: (((fs.list dir).map (below dir)).filter fs.isDirectory).flatMap
      (directoriesFrom fs depth)

/-- What is found in a directory under a name that the pieces match. Where
more parts follow it has to be a directory. -/
def matching (fs : FileSystem) (pieces : List Piece) (isLast : Bool) (dir : String) :
    List String :=
  (((fs.list dir).filter (matchesName pieces)).map (below dir)).filter fun path =>
    isLast || fs.isDirectory path

/-- The entries `..` and `.` that the pieces match; they have to start with
a dot of their own. -/
def dotEntries (pieces : List Piece) (dir : String) : List String :=
  if pieces.head? = some (.char '.') then
    (["..", "."].filter (matchesName pieces)).map (Path.join dir)
  else []

/-- Is the name one of the two entries that every directory has? -/
def isDotEntry (name : String) : Bool :=
  name = "." || name = ".."

/-- What the pieces of one component lead to from a directory, its dot
entries first. -/
def step (fs : FileSystem) (pieces : List Piece) (isLast : Bool) (dir : String) : List String :=
  match literal? pieces with
  | some chars =>
    let name := String.ofList chars
    let path := below dir name
    let found := if isDotEntry name then fs.isDirectory dir else fs.pathExists path
    if found then [path] else []
  | none =>
    if fs.isDirectory dir then dotEntries pieces dir ++ matching fs pieces isLast dir else []

/-- The paths that the parts lead to from some directories. Runs of `**`
count once, and at the end `**` asks for directories below. What two ways
lead to counts once, so that the ways do not multiply. -/
def walk (fs : FileSystem) : List Part → List String → List String
  | [], paths => paths
  | [.directories], dirs =>
    dirs.flatMap fun dir => (directoriesFrom fs fs.entries.length dir).drop 1
  | .directories :: .directories :: rest, dirs => walk fs (.directories :: rest) dirs
  | .directories :: .pieces pieces :: rest, dirs =>
    let reached := (dirs.flatMap (directoriesFrom fs fs.entries.length)).eraseDups
    walk fs rest (reached.flatMap (matching fs pieces rest.isEmpty))
  | .pieces pieces :: rest, dirs =>
    walk fs rest (dirs.flatMap (step fs pieces rest.isEmpty)).eraseDups

/-- The directory that a pattern starts from. -/
def startOf (pattern : String) : String :=
  if Path.isAbsolute pattern then "/" else "."

/-- The paths that a pattern matches, if it is well formed. A pattern that
ends with a slash asks for directories. -/
def paths? (fs : FileSystem) (pattern : String) : Option (List String) :=
  (parts? pattern).map fun parts =>
    (walk fs parts [startOf pattern]).filter fun path =>
      !Path.endsWithSlash pattern || fs.isDirectory path

end ApiStubs.Glob
