/-
ApiStubs.Main — the program on the real file system.

The command line works on a file system that is a value. This layer looks
up what the arguments can reach, hands it over, and carries out what has
changed in the result.
-/
import ApiStubs.CommandLine

namespace ApiStubs

/-! ## Looking -/

/-- A location as an absolute path. -/
def locationPath (location : Location) : String :=
  "/" ++ Text.join "/" location

/-- A file system that knows the current directory and what leads to it. -/
def startingPoint (currentDir : Location) : FileSystem :=
  (List.range currentDir.length).foldl
    (fun fs n => fs.put (currentDir.take (n + 1)) .directory) { currentDir }

/-- Takes in what stands in a directory, `depth` levels down. Files that are
known already keep what they hold. -/
partial def lookInto (fs : FileSystem) (location : Location) (depth : Nat) : IO FileSystem := do
  if depth = 0 then return fs
  let mut fs := fs
  let dir := (← IO.currentDir) / locationPath location
  let entries ← try dir.readDir catch _ => pure #[]
  for entry in entries do
    let below := location ++ [entry.fileName]
    let found ← try pure (some (← entry.path.metadata).type) catch _ => pure none
    match found with
    | some .dir => fs ← lookInto (fs.put below .directory) below (depth - 1)
    | some .file =>
      if (fs.entry? below).isNone then fs := fs.put below (.file ByteArray.empty)
    | _ => pure ()
  return fs

/-- How many levels `**` is followed down: all that a path can spell. -/
def deepest : Nat := 2048

/-- Does a name hold a wildcard? -/
def hasWildcard (name : String) : Bool :=
  name.toList.any fun c => c = '*' || c = '?' || c = '['

/-- Takes in all directories that names lead through, and what a wildcard
among them can reach. -/
def lookAlong (fs : FileSystem) (location : Location) : List String → IO FileSystem
  | [] => lookInto fs location 1
  | name :: names => do
    if hasWildcard name then
      let depth := if (name :: names).contains "**" then deepest else names.length + 1
      lookInto fs location depth
    else
      let fs ← lookInto fs location 1
      if name = "" || name = "." then lookAlong fs location names
      else if name = ".." then lookAlong fs location.dropLast names
      else lookAlong fs (location ++ [name]) names

/-- Takes in what a path or pattern can reach. -/
def lookFor (fs : FileSystem) (path : String) : IO FileSystem :=
  lookAlong fs (fs.start path) (Text.split '/' path)

/-- Takes in the contents of a file; one that cannot be read holds no
text. -/
def readInto (fs : FileSystem) (path : String) : IO FileSystem := do
  match fs.locate? path with
  | none => return fs
  | some location =>
    let content ← try IO.FS.readBinFile (locationPath location)
      catch _ => pure (ByteArray.mk #[0xFF])
    return fs.put location (.file content)

/-- Takes in all that a request can reach: its inputs, and the places that
its stubs go to. -/
def lookForRequest (fs : FileSystem) (r : CommandLine.Request) : IO FileSystem := do
  let fs ← r.inputs.foldlM lookFor fs
  let fs ← lookFor fs r.config.output
  match Inputs.expand fs r.inputs with
  | .error _ => return fs
  | .ok paths =>
    let fs ← paths.foldlM readInto fs
    match generateFrom fs r.config paths with
    | .error _ => return fs
    | .ok generated =>
      generated.stubs.foldlM
        (fun fs stub => lookFor fs (Path.parent (Path.join r.config.output stub.fileName))) fs

/-! ## Doing -/

/-- Is an entry there already? -/
def isThere (fs : FileSystem) (item : Location × Entry) : Bool :=
  match fs.entry? item.1, item.2 with
  | some .directory, .directory => true
  | some (.file old), .file new => old.data == new.data
  | _, _ => false

/-- What is new in a file system, the oldest first. -/
def changes (before after : FileSystem) : List (Location × Entry) :=
  (after.entries.filter (!isThere before ·)).reverse

/-- Carries out one change. -/
def carryOut : Location × Entry → IO Unit
  | (location, .directory) => IO.FS.createDir (locationPath location)
  | (location, .file content) => IO.FS.writeBinFile (locationPath location) content

/-- Runs the program. -/
def runProgram (args : List String) : IO UInt32 := do
  let here := (← IO.currentDir).toString
  let start := startingPoint ((Text.split '/' here).filter (!·.isEmpty))
  let fs ←
    match CommandLine.read args with
    | .ok r => lookForRequest start r
    | .error _ => pure start
  let outcome := CommandLine.execute fs args
  try
    (changes fs outcome.files).forM carryOut
    IO.print outcome.shown
    IO.eprint outcome.messages
    return outcome.status.toUInt32
  catch e =>
    IO.eprintln ("error: " ++ toString e)
    return 1

end ApiStubs

/-- The program. -/
def main (args : List String) : IO UInt32 :=
  ApiStubs.runProgram args
