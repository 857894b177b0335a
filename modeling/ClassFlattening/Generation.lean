import ClassFlattening.FileTree
import ClassFlattening.Intake
import ClassFlattening.Rendering

/-!
# Generating a tree

A generation reads the files of a source folder that have the right extension and a safe path,
checks the lines of all classes and only then writes: first what was generated, in the order in
which the files were visited, then the files that are copied. It stops at the first fault; what was
written before stays. Both folders are named from the root of the tree, so a folder with an absolute path
is not found, or refused.
-/

namespace ClassFlattening

/-- What a successful generation did. -/
structure Summary where
  filesScanned : Nat := 0
  filesWritten : Nat := 0
  filesCopied : Nat := 0
  classesGenerated : Nat := 0
  skippedPaths : List Text := []
  skippedDeclarations : List SkippedDeclaration := []
deriving DecidableEq, Repr

/-- Whether nothing was passed over. -/
def Summary.isClean (s : Summary) : Bool := s.skippedPaths.isEmpty && s.skippedDeclarations.isEmpty

/-- The report on a generation in one line. Counts of zero are left out where all may be well. -/
def Summary.line (s : Summary) : Text :=
  let part (count : Nat) (what : String) : Text :=
    if count = 0 then [] else ", ".toList ++ Text.decimal count ++ what.toList
  "Generated ".toList ++ Text.decimal s.classesGenerated ++ " classes in ".toList ++
    Text.decimal s.filesWritten ++ " files (".toList ++ Text.decimal s.filesScanned ++
    " scanned".toList ++ part s.filesCopied " copied" ++
    part s.skippedPaths.length " unsafe paths skipped" ++
    part s.skippedDeclarations.length " malformed declarations skipped" ++ ")".toList

/-- What was read from a source folder. The texts to be copied have their paths. -/
structure Survey where
  intake : Intake := {}
  passthrough : List (Text × Text) := []
  scanned : Nat := 0
  skippedPaths : List Text := []
deriving DecidableEq, Repr

/-- What may be a source below a folder: the names that lead to it, and what it holds if it can be
read. A folder whose path is too long is not descended into and seems to be a file; no file with
such a path can be read. -/
def candidates (folder : Text) (entries : List (Place × Entry)) : List (Place × Option Content) :=
  entries.filterMap fun (names, entry) =>
    if !names.dropLast.isEmpty && !isShortPath (folder.slash (SourcePath.join names.dropLast)) then
      none
    else if !isShortPath (folder.slash (SourcePath.join names)) then some (names, none)
    else
      match entry with
      | .file content => some (names, some content)
      | .folder => none

/-- Whether a file with these names is a source. -/
def Settings.accepts (settings : Settings) (names : Place) : Bool :=
  (names.getLast?.bind extension?) == some settings.sourceExtension

namespace Survey

/-- Reads one file of the source folder. -/
def read (survey : Survey) (settings : Settings) (source : Text) (names : Place)
    (content : Option Content) : Except Fault Survey :=
  let path := SourcePath.join names
  if (SourcePath.violation? path).isSome then
    .ok { survey with skippedPaths := survey.skippedPaths ++ [path] }
  else
    match content with
    | none => .error (.refused (source.slash path))
    | some content =>
      if content.size > fileSizeLimit then
        .error (.fileTooLarge (source.slash path) content.size)
      else
        match content.text? with
        | none => .error (.refused (source.slash path))
        | some t =>
          let survey := { survey with scanned := survey.scanned + 1 }
          if isClassSource t then
            match survey.intake.register settings.strictDeclarations path t with
            | (intake, none) => .ok { survey with intake }
            | (_, some fault) => .error fault
          else if settings.copyPassthrough then
            .ok { survey with passthrough := survey.passthrough ++ [(path, t)] }
          else .ok survey

/-- Reads files in order. -/
def readAll (survey : Survey) (settings : Settings) (source : Text) :
    List (Place × Option Content) → Except Fault Survey
  | [] => .ok survey
  | (names, content) :: rest => do
    let survey ← survey.read settings source names content
    survey.readAll settings source rest

/-- Reads the files of a source folder, if there is one, and checks the lines of all classes. -/
def ofFiles (settings : Settings) (source : Text) (files : Option (List (Place × Option Content))) :
    Except Fault Survey :=
  match files with
  | none => .error (.missingSource source)
  | some files => do
    let survey ← readAll {} settings source (files.filter fun file => settings.accepts file.1)
    survey.intake.registry.validate.mapError Fault.lineage
    return survey

/-- What is to be written under each path, in order. -/
def emissions (survey : Survey) (settings : Settings) : List (Text × Except Fault Text) :=
  survey.intake.registry.files.map
      (fun record => (record.path, render settings survey.intake.registry record)) ++
    survey.passthrough.map fun (path, t) => (path, .ok t)

/-- The summary of a generation that wrote everything. -/
def summary (survey : Survey) : Summary where
  filesScanned := survey.scanned
  filesWritten := survey.intake.registry.files.length
  filesCopied := survey.passthrough.length
  classesGenerated := survey.intake.registry.classCount
  skippedPaths := survey.skippedPaths
  skippedDeclarations := survey.intake.skipped

end Survey

/-- Why a file is not written below an output folder. The paths that a generation writes have been checked
when their sources were read, so only the file system can refuse one. -/
inductive WriteFault where
  /-- The path leads out of the folder, or might. -/
  | unsafePath (path : Text)
  /-- The file system refuses an operation on the path. -/
  | refused (path : Text)
deriving DecidableEq, Repr

/-- The fault that a generation stops with for a file that is not written. It has none of its own for an
unsafe path, which it does not come upon. -/
def WriteFault.fault : WriteFault → Fault
  | unsafePath path => .refused path
  | refused path => .refused path

/-- Writes a file below the place of an output folder, making the folders on the way. -/
def writeBelow (tree : FileTree) (output : Text) (place : Place) (path content : Text) :
    FileTree × Option WriteFault :=
  if (SourcePath.violation? path).isSome then (tree, some (.unsafePath path))
  else
    let names := path.splitOn '/'
    let folders := names.dropLast
    let parent := if folders.isEmpty then output else output.slash (SourcePath.join folders)
    match if isRelativePath parent then tree.makeFoldersFrom place folders else (tree, none) with
    | (tree, none) => (tree, some (.refused parent))
    | (tree, some _) =>
      match tree.write? (output.slash path) (place ++ names) (.text content) with
      | none => (tree, some (.refused (output.slash path)))
      | some tree => (tree, none)

/-- Writes emissions in order up to the first fault. -/
def writeAll (output : Text) (place : Place) :
    FileTree → List (Text × Except Fault Text) → FileTree × Option Fault
  | tree, [] => (tree, none)
  | tree, (_, .error fault) :: _ => (tree, some fault)
  | tree, (path, .ok content) :: rest =>
    match writeBelow tree output place path content with
    | (tree, some fault) => (tree, some fault.fault)
    | (tree, none) => writeAll output place tree rest

/-- Generates the sources of one folder into another. -/
def generateAll (settings : Settings) (source output : Text) (tree : FileTree) :
    FileTree × Except Fault Summary :=
  match Survey.ofFiles settings source ((tree.entriesOf? source).map (candidates source)) with
  | .error fault => (tree, .error fault)
  | .ok survey =>
    match tree.makeFolders output with
    | (tree, none) => (tree, .error (.refused output))
    | (tree, some place) =>
      match writeAll output place tree (survey.emissions settings) with
      | (tree, some fault) => (tree, .error fault)
      | (tree, none) => (tree, .ok survey.summary)

end ClassFlattening
