/-
ApiStubs.Files.Inputs — finding and loading model files.

An input is a file, a directory whose model files are meant, or a
wildcard pattern. The files of all inputs are put in order, and those that
are spelled with the same components are named once.
-/
import ApiStubs.Error
import ApiStubs.Files.Glob
import ApiStubs.Model.Decode

namespace ApiStubs.Inputs

/-! ## Finding -/

/-- Has the file name the extension of a model file? A name that is an
extension alone has none. -/
def isModelName (name : String) : Bool :=
  ((Text.before ".json" name).filter (!·.isEmpty)).isSome

/-- The model files in a directory. -/
def modelsIn (fs : FileSystem) (dir : String) : List String :=
  (((fs.list dir).filter isModelName).map (Path.join dir)).filter fs.isFile

/-- The files that one input stands for. -/
def select (fs : FileSystem) (input : String) : Except Error (List String) :=
  if fs.isFile input then .ok [input]
  else if fs.isDirectory input then .ok (modelsIn fs input)
  else
    match Glob.paths? fs input with
    | some paths => .ok (paths.filter fs.isFile)
    | none => .error (.invalidPattern input)

/-- The paths without those that are equal to the one kept before them. -/
def dropRepeatsAfter (kept : String) : List String → List String
  | [] => []
  | path :: paths =>
    if Path.compare kept path = .eq then dropRepeatsAfter kept paths
    else path :: dropRepeatsAfter path paths

/-- The paths with each run of equal ones cut to its first. -/
def dropRepeats : List String → List String
  | [] => []
  | path :: paths => path :: dropRepeatsAfter path paths

/-- The files that some inputs stand for, in order and without
repetitions. -/
def expand (fs : FileSystem) (inputs : List String) : Except Error (List String) := do
  let found ← inputs.mapM (select fs)
  return dropRepeats (found.flatten.mergeSort fun a b => (Path.compare a b).isLE)

/-! ## Loading -/

/-- The model in a file. -/
def load (fs : FileSystem) (path : String) : Except Error Model :=
  match fs.readText? path with
  | none => .error (.unreadable path)
  | some text =>
    match Model.parse? text with
    | some model => .ok model
    | none => .error (.invalidModel path)

/-- The models in some files; the first file at fault decides the error. -/
def loadAll (fs : FileSystem) (paths : List String) : Except Error (List Model) :=
  paths.mapM (load fs)

end ApiStubs.Inputs
