import ClassFlattening.CommandLine
import ClassFlattening.Generation

/-!
# The program

Reads the arguments, the settings and the source folder, and writes what the library says. Only this
module touches the file system.
-/

namespace ClassFlattening

/-- A text as it is handed to the file system. -/
def Text.asString (t : Text) : String := String.ofList t

/-- Whether there is a folder at a path. -/
def isFolderPath (path : Text) : IO Bool := do
  try (← IO.FS.realPath path.asString).isDir catch _ => return false

/-- The sources below a folder, each with what it holds if it can be read. -/
partial def sourcesBelow (settings : Settings) (source : Text) (place : Place) :
    IO (List (Place × Option Content)) := do
  let folder := if place.isEmpty then source else source.slash (SourcePath.join place)
  let mut sources := []
  for entry in ← (← IO.FS.realPath folder.asString).readDir do
    let names := place ++ [entry.fileName.toList]
    let path := source.slash (SourcePath.join names)
    if ← isFolderPath path then
      sources := (← sourcesBelow settings source names) ++ sources
    else if settings.accepts names then
      let content ←
        try pure (some (Content.ofBytes (← IO.FS.readBinFile path.asString)))
        catch _ => pure none
      sources := (names, content) :: sources
  return sources

/-- The sources of the source folder, if there is one. -/
def sourceFiles (settings : Settings) (source : Text) :
    IO (Option (List (Place × Option Content))) := do
  if !source.isEmpty && (← isFolderPath source) then
    return some (sortPlaces (← sourcesBelow settings source []))
  else return none

/-- Makes a folder and all above it; whether it is there. One that is named as its own dot is not
made. -/
def makeFolder (path : Text) : IO Bool := do
  let names := (path.splitOn '/').filter fun name => !name.isEmpty
  if path.isEmpty then return true
  else if names.getLast? == some SourcePath.here then isFolderPath path
  else
    try
      IO.FS.createDirAll path.asString
      return true
    catch _ => return false

/-- Writes emissions below the output folder up to the first fault. -/
def writeEmissions (output : Text) : List (Text × Except Fault Text) → IO (Option Fault)
  | [] => return none
  | (_, .error fault) :: _ => return some fault
  | (path, .ok content) :: rest => do
    let folders := (path.splitOn '/').dropLast
    let parent := if folders.isEmpty then output else output.slash (SourcePath.join folders)
    if ← makeFolder parent then
      let written ←
        try
          IO.FS.writeFile (output.slash path).asString content.asString
          pure true
        catch _ => pure false
      if written then writeEmissions output rest
      else return some (.refused (output.slash path))
    else return some (.refused parent)

/-- Generates the sources of a folder of the file system into another. -/
def generateFolder (invocation : Invocation) : IO (Except Fault Summary) := do
  let files ← sourceFiles invocation.settings invocation.source
  match Survey.ofFiles invocation.settings invocation.source files with
  | .error fault => return .error fault
  | .ok survey =>
    if ← makeFolder invocation.output then
      match ← writeEmissions invocation.output (survey.emissions invocation.settings) with
      | some fault => return .error fault
      | none => return .ok survey.summary
    else return .error (.refused invocation.output)

/-- Prints why the program stops. -/
def complain (lines : List String) : IO UInt32 := do
  for line in lines do
    IO.eprintln line
  return 1

/-- The text of a file of settings, if one is named and can be read. -/
def settingsText (line : CommandLine) : IO (Option Text) := do
  match line.config with
  | none => return none
  | some path =>
    try
      return (Content.ofBytes (← IO.FS.readBinFile path.asString)).text?
    catch _ => return none

/-- Runs the program on its arguments. -/
def runProgram (arguments : List Text) : IO UInt32 := do
  match CommandLine.ofArguments arguments with
  | .error .help =>
    for line in CommandLine.usage do
      IO.println line
    return 0
  | .error .version =>
    IO.println CommandLine.programVersion
    return 0
  | .error refusal =>
    let _ ← complain ["error: " ++ refusal.message]
    return 2
  | .ok line =>
    let text ← settingsText line
    match line.invocation fun _ => text with
    | .error fault => complain ["Error: " ++ fault.message.asString]
    | .ok invocation =>
      match ← generateFolder invocation with
      | .ok summary =>
        IO.println summary.line.asString
        return 0
      | .error fault =>
        let cause : Text := match fault with
          | .refused path => "I/O error on ".toList ++ path
          | other => other.message?.getD []
        complain ["Error: Code generation failed for " ++ invocation.source.asString, "",
          "Caused by:", "    " ++ cause.asString]

end ClassFlattening

/-- Flattens the classes of one folder into another. -/
def main (arguments : List String) : IO UInt32 :=
  ClassFlattening.runProgram (arguments.map String.toList)
