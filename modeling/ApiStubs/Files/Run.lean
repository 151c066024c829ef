/-
ApiStubs.Files.Run — from model files to stub files.

Everything is loaded and generated before anything is written, so that a
run that fails to load leaves the file system as it was.
-/
import ApiStubs.Files.Inputs
import ApiStubs.Stub.Document

namespace ApiStubs

/-- Writes stubs into a directory, one after the other; stops at the first
that cannot be written. Counts the files written, `written` before these. -/
def writeEach (fs : FileSystem) (dir : String) (written : Nat) :
    List StubDocument → FileSystem × Except Error Nat
  | [] => (fs, .ok written)
  | stub :: stubs =>
    let path := Path.join dir stub.fileName
    match fs.writeText? path stub.text with
    | some fs => writeEach fs dir (written + 1) stubs
    | none => (fs, .error (.unwritable path))

/-- Writes the stubs that are not hidden into a directory, which is made if
it is missing. -/
def writeStubs (fs : FileSystem) (dir : String) (stubs : List StubDocument) :
    FileSystem × Except Error Nat :=
  match fs.makeDirectories dir with
  | (fs, true) => writeEach fs dir 0 (stubs.filter (!·.hidden))
  | (fs, false) => (fs, .error (.noOutputDirectory dir))

/-- What a run has done. -/
structure Summary where
  /-- How many stubs were written. -/
  written : Nat
  diagnostics : List Diagnostic
  deriving DecidableEq, Repr

/-- The stubs for the models in some files. -/
def generateFrom (fs : FileSystem) (config : Config) (paths : List String) :
    Except Error Generated := do
  let models ← Inputs.loadAll fs paths
  generate fs.currentPath config models

/-- Loads models, generates their stubs and writes them out. What there is
to report is added to what was reported before, also if a stub then cannot
be written. -/
def runReporting (fs : FileSystem) (reported : List Diagnostic) (config : Config)
    (paths : List String) : FileSystem × List Diagnostic × Except Error Nat :=
  match generateFrom fs config paths with
  | .error e => (fs, reported, .error e)
  | .ok generated =>
    let (fs, written) := writeStubs fs config.output generated.stubs
    (fs, reported ++ generated.diagnostics, written)

/-- A run before which nothing was reported. -/
def run (fs : FileSystem) (config : Config) (paths : List String) :
    FileSystem × Except Error Summary :=
  let (fs, diagnostics, written) := runReporting fs [] config paths
  (fs, written.map (⟨·, diagnostics⟩))

end ApiStubs
