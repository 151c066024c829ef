/-
ApiStubs.Files.System — a file system as a value.

A file system is a table from locations to directories and files. A
location is the list of names from the root down; the root itself is
always a directory. Paths are resolved from the current directory, name
by name: every name but the last has to lead to a directory, and a path
that ends with a slash has to lead to one altogether.
-/
import ApiStubs.Path

namespace ApiStubs

/-- A place in a file system: the names from the root down to it. -/
abbrev Location := List String

/-- What stands at a location. -/
inductive Entry where
  | directory
  | file (content : ByteArray)

/-- Is the entry a directory? -/
def Entry.isDirectory : Entry → Bool
  | .directory => true
  | .file _ => false

/-- The directories and files there are, and the current directory. -/
structure FileSystem where
  currentDir : Location := []
  entries : List (Location × Entry) := []

namespace FileSystem

/-! ## Locations -/

/-- What stands at a location. -/
def entry? (fs : FileSystem) (location : Location) : Option Entry :=
  if location = [] then some .directory else fs.entries.lookup location

/-- Is there a directory at this location? -/
def isDirectoryAt (fs : FileSystem) (location : Location) : Bool :=
  (fs.entry? location).any (·.isDirectory)

/-- The file system with this entry at a location, and all else as it
was. -/
def put (fs : FileSystem) (location : Location) (entry : Entry) : FileSystem :=
  { fs with entries := (location, entry) :: fs.entries.filter (·.1 ≠ location) }

/-- The names in the directory at a location. -/
def namesIn (fs : FileSystem) (location : Location) : List String :=
  fs.entries.filterMap fun item =>
    if item.1.dropLast = location then item.1.getLast? else none

/-! ## Resolving paths -/

/-- Can a file have this name? -/
def nameFits (name : String) : Bool :=
  name.utf8ByteSize ≤ 255

/-- Can a path be spelled like this? -/
def pathFits (path : String) : Bool :=
  path.utf8ByteSize < 4096 && !path.toList.contains '\x00'

/-- Follows names from a location. What the last name leads to need not
exist. -/
def follow (fs : FileSystem) (location : Location) : List String → Option Location
  | [] => some location
  | name :: names =>
    if !fs.isDirectoryAt location then none
    else if name = "" || name = "." then fs.follow location names
    else if name = ".." then fs.follow location.dropLast names
    else if nameFits name then fs.follow (location ++ [name]) names
    else none

/-- Where a path starts. -/
def start (fs : FileSystem) (path : String) : Location :=
  if Path.isAbsolute path then [] else fs.currentDir

/-- The location that a path leads to. -/
def locate? (fs : FileSystem) (path : String) : Option Location :=
  if path.isEmpty || !pathFits path then none
  else fs.follow (fs.start path) (Text.split '/' path)

/-- What a path leads to. -/
def find? (fs : FileSystem) (path : String) : Option Entry :=
  (fs.locate? path).bind fs.entry?

/-- Does the path lead to anything? -/
def pathExists (fs : FileSystem) (path : String) : Bool :=
  (fs.find? path).isSome

/-- Does the path lead to a file? -/
def isFile (fs : FileSystem) (path : String) : Bool :=
  (fs.find? path).any (!·.isDirectory)

/-- Does the path lead to a directory? -/
def isDirectory (fs : FileSystem) (path : String) : Bool :=
  (fs.find? path).any (·.isDirectory)

/-- The names in a directory; none if the path leads to no directory. -/
def list (fs : FileSystem) (path : String) : List String :=
  match fs.locate? path with
  | some location => if fs.isDirectoryAt location then fs.namesIn location else []
  | none => []

/-- The current directory as a path. -/
def currentPath (fs : FileSystem) : String :=
  "/" ++ Text.join "/" fs.currentDir

/-! ## Reading and writing -/

/-- The text of a file, if there is such a file and it holds text. -/
def readText? (fs : FileSystem) (path : String) : Option String :=
  match fs.find? path with
  | some (.file content) => String.fromUTF8? content
  | _ => none

/-- Writes a file, in place of what it held. Its directory has to exist,
and a directory cannot be overwritten. -/
def writeText? (fs : FileSystem) (path text : String) : Option FileSystem := do
  let location ← fs.locate? path
  if fs.isDirectoryAt location then none
  else return fs.put location (.file text.toUTF8)

/-- Makes the directories that names lead through from a location; says
whether all of them could be made. -/
def makeAlong (fs : FileSystem) (location : Location) : List String → FileSystem × Bool
  | [] => (fs, true)
  | name :: names =>
    if name = "" || name = "." then fs.makeAlong location names
    else if name = ".." then fs.makeAlong location.dropLast names
    else if !nameFits name then (fs, false)
    else
      let below := location ++ [name]
      match fs.entry? below with
      | some .directory => fs.makeAlong below names
      | some (.file _) => (fs, false)
      | none => (fs.put below .directory).makeAlong below names

/-- Makes a directory and all that lead to it, as far as they are missing;
says whether it is there now. The directory itself cannot be made under a
spelling that ends in `.`: as such a path, it has to exist. -/
def makeDirectories (fs : FileSystem) (path : String) : FileSystem × Bool :=
  let names := (Text.split '/' path).filter (· ≠ "")
  if path.isEmpty then (fs, true)
  else if !pathFits path then (fs, false)
  else if names.getLast? = some "." then
    let (made, done) := fs.makeAlong (fs.start path) (names.filter (· ≠ ".")).dropLast
    (made, done && made.isDirectory path)
  else fs.makeAlong (fs.start path) names

end FileSystem

end ApiStubs
