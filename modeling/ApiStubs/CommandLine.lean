/-
ApiStubs.CommandLine — the program around a run.

Arguments are options and inputs in any order. Every option is given at
most once; `--` ends the options. The answer is an exit status, what is
shown, and the file system afterwards:

* 0 — the run is free of errors, or help was asked for;
* 1 — the run failed, or an error was reported;
* 2 — the arguments make no sense.
-/
import ApiStubs.Files.Run

namespace ApiStubs.CommandLine

/-! ## Options -/

/-- An option that takes a value. -/
inductive OptionName where
  | output | projectRoot
  /-- Accepted and ignored. -/
  | docTitle
  /-- Accepted and ignored. -/
  | windowTitle
  | luaApi | peripheral | genericSource
  deriving DecidableEq, Repr

/-- The long names of the options that take a value. -/
def OptionName.table : List (String × OptionName) :=
  [("output", .output), ("project-root", .projectRoot), ("doctitle", .docTitle),
   ("windowtitle", .windowTitle), ("lua-api", .luaApi), ("peripheral", .peripheral),
   ("generic-source", .genericSource)]

/-- Is the value a path? A path cannot be empty. -/
def OptionName.isPath : OptionName → Bool
  | .output => true
  | .projectRoot => true
  | _ => false

/-- What the arguments ask for. -/
structure Request where
  /-- The options given, and their values. -/
  values : List (OptionName × String) := []
  verbose : Bool := false
  inputs : List String := []
  deriving DecidableEq, Repr

/-- The value of an option. -/
def Request.value? (r : Request) (name : OptionName) : Option String :=
  r.values.lookup name

/-- The configuration that is asked for. -/
def Request.config (r : Request) : Config :=
  let defaults : Config := {}
  { output := (r.value? .output).getD defaults.output
    projectRoot := (r.value? .projectRoot).getD defaults.projectRoot
    capabilities :=
      { luaApi := (r.value? .luaApi).getD defaults.capabilities.luaApi
        peripheral := (r.value? .peripheral).getD defaults.capabilities.peripheral
        genericSource := (r.value? .genericSource).getD defaults.capabilities.genericSource } }

/-! ## Reading arguments -/

/-- A reason to read no further arguments. -/
inductive Stop where
  /-- Help was asked for. -/
  | help
  /-- The arguments make no sense. -/
  | usage
  deriving DecidableEq, Repr

/-- How far the arguments have been read. -/
structure Reading where
  request : Request := {}
  /-- The option that waits for its value. -/
  pending : Option OptionName := none
  /-- Only inputs follow. -/
  ended : Bool := false
  deriving DecidableEq, Repr

namespace Reading

/-- Takes an input. -/
def addInput (r : Reading) (input : String) : Reading :=
  { r with request := { r.request with inputs := r.request.inputs ++ [input] } }

/-- Takes the value of an option. -/
def setValue (r : Reading) (name : OptionName) (value : String) : Except Stop Reading :=
  if (r.request.value? name).isSome || (name.isPath && value.isEmpty) then .error .usage
  else
    .ok { r with
          request := { r.request with values := r.request.values ++ [(name, value)] }
          pending := none }

/-- Takes the option that asks for more messages. -/
def setVerbose (r : Reading) : Except Stop Reading :=
  if r.request.verbose then .error .usage
  else .ok { r with request := { r.request with verbose := true } }

/-- Takes an option, with its value if that is attached. -/
def setOption (r : Reading) (name : OptionName) : Option String → Except Stop Reading
  | some value => r.setValue name value
  | none => .ok { r with pending := some name }

/-- Takes a long option. -/
def long (r : Reading) (name : String) (attached : Option String) : Except Stop Reading :=
  match OptionName.table.lookup name with
  | some option => r.setOption option attached
  | none =>
    if attached.isSome then .error .usage
    else if name = "verbose" then r.setVerbose
    else if name = "help" then .error .help
    else .error .usage

/-- The value attached to a short option: what follows it, with or without
an equals sign. -/
def attachedValue : List Char → Option String
  | [] => none
  | '=' :: value => some (String.ofList value)
  | value => some (String.ofList value)

/-- Takes short options that stand together. -/
def short (r : Reading) : List Char → Except Stop Reading
  | [] => .ok r
  | 'd' :: rest => r.setOption .output (attachedValue rest)
  | 'v' :: rest =>
    match r.setVerbose with
    | .ok r => r.short rest
    | .error stop => .error stop
  | 'h' :: _ => .error .help
  | _ :: _ => .error .usage

/-- Does an argument look like an option? A lone dash does not. -/
def looksLikeOption (arg : String) : Bool :=
  Text.startsWith "-" arg && arg ≠ "-"

/-- Takes an argument where an option or an input may stand. -/
def takeFree (r : Reading) (arg : String) : Except Stop Reading :=
  if arg = "--" then .ok { r with ended := true }
  else
    match Text.after "--" arg with
    | some body =>
      match Text.cut '=' body with
      | some (name, value) => r.long name (some value)
      | none => r.long body none
    | none =>
      if looksLikeOption arg then r.short (arg.toList.drop 1)
      else .ok (r.addInput arg)

/-- Takes the next argument. -/
def take (r : Reading) (arg : String) : Except Stop Reading :=
  if r.ended then .ok (r.addInput arg)
  else
    match r.pending with
    | some name => if looksLikeOption arg then .error .usage else r.setValue name arg
    | none => r.takeFree arg

end Reading

/-- What some arguments ask for. -/
def read (args : List String) : Except Stop Request := do
  let r ← args.foldlM Reading.take {}
  if r.pending.isSome then .error .usage else return r.request

/-! ## Running -/

/-- What the program has done. -/
structure Outcome where
  status : Nat
  /-- What is shown as the answer. -/
  shown : String := ""
  /-- What is shown as messages. -/
  messages : String := ""
  files : FileSystem

/-- How the program is called. -/
def usage : String :=
  "Usage: apistubs [OPTIONS] [MODELS]...\n\n" ++
  "Generate Lua API-reference stubs from documented host declarations\n\n" ++
  "Arguments:\n" ++
  "  [MODELS]...  Declaration model files, directories or glob patterns\n\n" ++
  "Options:\n" ++
  "  -d, --output <OUTPUT>              Output directory (created if missing)\n" ++
  "      --project-root <PROJECT_ROOT>  Source paths are written relative to this directory\n" ++
  "      --lua-api <NAME>               Capability implemented by plain API modules\n" ++
  "      --peripheral <NAME>            Capability implemented by peripheral modules\n" ++
  "      --generic-source <NAME>        Capability implemented by generic peripheral sources\n" ++
  "  -v, --verbose                      Log pipeline progress\n" ++
  "  -h, --help                         Print help\n"

/-- A run that ends with an error. -/
def failed (fs : FileSystem) (message : String) : Outcome :=
  { status := 1, messages := "error: " ++ message ++ "\n", files := fs }

/-- The diagnostics of a run, a line each. -/
def messageLines (ds : List Diagnostic) : String :=
  Text.concat (ds.map fun d => d.text ++ "\n")

/-- Does what was asked for. -/
def perform (fs : FileSystem) (r : Request) : Outcome :=
  match Inputs.expand fs r.inputs with
  | .error e => failed fs ("failed to resolve inputs: " ++ e.message)
  | .ok [] => failed fs "no declaration models given"
  | .ok paths =>
    match run fs r.config paths with
    | (fs, .error e) =>
      failed fs ("failed to generate stubs in " ++ r.config.output ++ ": " ++ e.message)
    | (fs, .ok summary) =>
      { status := if Diagnostic.hasErrors summary.diagnostics then 1 else 0
        messages := messageLines summary.diagnostics
        files := fs }

/-- The whole program: arguments and a file system to an outcome. -/
def execute (fs : FileSystem) (args : List String) : Outcome :=
  match read args with
  | .ok r => perform fs r
  | .error .help => { status := 0, shown := usage, files := fs }
  | .error .usage => { status := 2, messages := usage, files := fs }

end ApiStubs.CommandLine
