import ClassFlattening.Settings

/-!
# The command line

Arguments are read from left to right: two folders, options that take a value and flags. A value may
be part of the argument, behind an equals sign, or the next argument, as long as that does not look
like an option itself. An option waits with its value until the next argument is looked at, so what
is wrong with an argument that cannot be read at all comes before what is wrong with an option that
waits. Behind a pair of hyphens everything is a folder.
-/

namespace ClassFlattening

namespace CommandLine

/-- Why arguments are not accepted, or what is to be shown instead of a generation. -/
inductive Refusal where
  | unknownArgument
  | invalidValue
  | argumentConflict
  | tooManyValues
  | missingArgument
  | help
  | version
deriving DecidableEq, Repr

/-- The wording of a refusal. -/
def Refusal.message : Refusal → String
  | unknownArgument => "unexpected argument found"
  | invalidValue => "a value is required for an option but none was supplied"
  | argumentConflict => "an option cannot be used multiple times"
  | tooManyValues => "unexpected value for an option that takes none"
  | missingArgument => "the following required arguments were not provided: <SOURCE_DIR> <OUTPUT_DIR>"
  | help => "help"
  | version => "version"

/-- The name and version of the program. -/
def programVersion : String := "zoop 0.1.0"

/-- How the program is called. -/
def usage : List String :=
  ["Flatten zoop class declarations into plain Zig structs",
    "",
    "Usage: zoop [OPTIONS] <SOURCE_DIR> <OUTPUT_DIR>",
    "",
    "Arguments:",
    "  <SOURCE_DIR>  Directory scanned for .zig sources",
    "  <OUTPUT_DIR>  Directory receiving generated files",
    "",
    "Options:",
    "      --getter-prefix <PREFIX>  Prefix for generated property getters",
    "      --setter-prefix <PREFIX>  Prefix for generated property setters",
    "      --config <FILE>           JSON configuration file; flags override its values",
    "      --strict                  Fail on malformed declarations instead of skipping them",
    "      --copy-passthrough        Copy .zig files without declarations into the output",
    "      --debug                   Enable debug logging",
    "  -h, --help                    Print help",
    "  -V, --version                 Print version"]

/-- The options that take a value. -/
inductive ValueOption where
  | getterPrefix
  | setterPrefix
  | config
deriving DecidableEq, Repr

/-- The options that take none. -/
inductive Flag where
  | strict
  | copyPassthrough
  | debug
deriving DecidableEq, Repr

/-- What the name of an option stands for. -/
inductive Switch where
  | value (option : ValueOption)
  | flag (flag : Flag)
  | show (refusal : Refusal)
deriving DecidableEq, Repr

/-- The options by name. -/
def switches : List (Text × Switch) :=
  [("getter-prefix".toList, .value .getterPrefix),
    ("setter-prefix".toList, .value .setterPrefix),
    ("config".toList, .value .config),
    ("strict".toList, .flag .strict),
    ("copy-passthrough".toList, .flag .copyPassthrough),
    ("debug".toList, .flag .debug),
    ("help".toList, .show .help),
    ("version".toList, .show .version)]

/-- The options with a name of one letter. -/
def shortSwitch? (c : Char) : Option Refusal :=
  if c = 'h' then some .help else if c = 'V' then some .version else none

/-- What was read so far, and the option that waits, with its value once it has one. -/
structure Reading where
  folders : List Text := []
  values : List (ValueOption × Text) := []
  flags : List Flag := []
  waiting : Option (ValueOption × Option Text) := none
deriving DecidableEq, Repr

namespace Reading

/-- Accepts the value of an option, which may have only one. -/
def accept (reading : Reading) (option : ValueOption) (value : Text) : Except Refusal Reading :=
  if option ∈ reading.values.map Prod.fst then .error .argumentConflict
  else .ok { reading with values := reading.values ++ [(option, value)] }

/-- Settles the option that waits. -/
def settle (reading : Reading) : Except Refusal Reading :=
  match reading.waiting with
  | none => .ok reading
  | some (_, none) => .error .invalidValue
  | some (option, some value) => { reading with waiting := none }.accept option value

/-- Reads a folder. There are two. -/
def folder (reading : Reading) (argument : Text) : Except Refusal Reading :=
  if reading.folders.length ≥ 2 then .error .unknownArgument
  else do
    let reading ← reading.settle
    return { reading with folders := reading.folders ++ [argument] }

/-- Reads an option behind its hyphens. -/
def option (reading : Reading) (argument : Text) : Except Refusal Reading :=
  let cut := (argument.cutAtFirst? (· == '=')).getD ⟨argument, []⟩
  match switches.lookup cut.before with
  | none => .error .unknownArgument
  | some (.value option) => do
    let reading ← reading.settle
    if cut.after.isEmpty then return { reading with waiting := some (option, none) }
    else reading.accept option cut.behind
  | some (.flag flag) =>
    if cut.after.isEmpty then do
      let reading ← reading.settle
      if flag ∈ reading.flags then .error .argumentConflict
      else return { reading with flags := reading.flags ++ [flag] }
    else .error .tooManyValues
  | some (.show refusal) =>
    if cut.after.isEmpty then do
      let _ ← reading.settle
      .error refusal
    else .error .tooManyValues

/-- Reads one argument. -/
def argument (reading : Reading) (argument : Text) : Except Refusal Reading :=
  match argument with
  | '-' :: '-' :: name => reading.option name
  | '-' :: c :: _ =>
    match shortSwitch? c with
    | some refusal => do
      let _ ← reading.settle
      .error refusal
    | none => .error .unknownArgument
  | _ =>
    match reading.waiting with
    | some (option, none) => .ok { reading with waiting := some (option, some argument) }
    | _ => reading.folder argument

/-- Reads all arguments. -/
def all (reading : Reading) : List Text → Except Refusal Reading
  | [] => reading.settle
  | argument :: rest =>
    if argument = "--".toList then do
      let reading ← rest.foldlM folder reading
      reading.settle
    else do
      let reading ← reading.argument argument
      reading.all rest

end Reading

end CommandLine

/-- The arguments of one invocation. -/
structure CommandLine where
  source : Text
  output : Text
  getterPrefix : Option Text
  setterPrefix : Option Text
  config : Option Text
  strict : Bool
  copyPassthrough : Bool
  debug : Bool
deriving DecidableEq, Repr

/-- Where to read and write, and how. -/
structure Invocation where
  source : Text
  output : Text
  settings : Settings
  debug : Bool
deriving DecidableEq, Repr

/-- What may be wrong with a file of settings. -/
inductive SettingsFault where
  | unreadable (path : Text)
  | invalid (path : Text)
deriving DecidableEq, Repr

/-- The wording of a fault. -/
def SettingsFault.message : SettingsFault → Text
  | unreadable path => "Failed to read config file ".toList ++ path
  | invalid path => "Invalid config file ".toList ++ path

namespace CommandLine

/-- Reads the arguments behind the name of the program. -/
def ofArguments (arguments : List Text) : Except Refusal CommandLine := do
  let reading ← ({} : Reading).all arguments
  match reading.folders with
  | [source, output] =>
    return {
      source
      output
      getterPrefix := reading.values.lookup .getterPrefix
      setterPrefix := reading.values.lookup .setterPrefix
      config := reading.values.lookup .config
      strict := Flag.strict ∈ reading.flags
      copyPassthrough := Flag.copyPassthrough ∈ reading.flags
      debug := Flag.debug ∈ reading.flags }
  | _ => .error .missingArgument

/-- The settings of a file, if one is named; `readFile` gives the text of a file that can be read. -/
def fileSettings (line : CommandLine) (readFile : Text → Option Text) :
    Except SettingsFault Settings :=
  match line.config with
  | none => .ok {}
  | some path =>
    match readFile path with
    | none => .error (.unreadable path)
    | some text =>
      match Settings.read? text with
      | none => .error (.invalid path)
      | some settings => .ok settings

/-- What the arguments ask for. They stand above the file of settings. -/
def invocation (line : CommandLine) (readFile : Text → Option Text) :
    Except SettingsFault Invocation := do
  let settings ← line.fileSettings readFile
  return {
    source := line.source
    output := line.output
    settings := { settings with
      getterPrefix := line.getterPrefix.getD settings.getterPrefix
      setterPrefix := line.setterPrefix.getD settings.setterPrefix
      strictDeclarations := line.strict || settings.strictDeclarations
      copyPassthrough := line.copyPassthrough || settings.copyPassthrough }
    debug := line.debug }

end CommandLine

end ClassFlattening
