import CodeFrames.Command.Arguments
import CodeFrames.Conversion
import CodeFrames.Disk
import CodeFrames.Outline
import CodeFrames.Report

/-!
Running a command: every file is converted on its own, what was converted goes to the output, errors
and warnings go to the error stream, and the exit code sums up the files.
-/

namespace CodeFrames

namespace Command

structure Outcome where
  code : Nat
  output : Text
  errors : Text
  deriving DecidableEq, Repr

/-! ## Starting -/

inductive StartError where
  | unreadableConfig (path : Text) (fault : ReadFault)
  | invalidConfig (path : Text) (error : ConfigError)
  | unknownLevel (error : Settings.UnknownLevel)
  deriving DecidableEq, Repr

def StartError.message : StartError → String
  | .unreadableConfig path fault => "cannot read config " ++ quoted path ++ ": " ++ fault.message
  | .invalidConfig path error => "invalid config " ++ quoted path ++ ": " ++ error.message
  | .unknownLevel error => error.message

/-- The configuration that is read, if there is a file of this name, when none is named. -/
def implicitConfig : Text := "strider.toml".toList

def readConfig (disk : Disk) (path : Text) : Except StartError Config :=
  match disk path with
  | .error fault => .error (.unreadableConfig path fault)
  | .ok text => (Config.parse text).mapError (.invalidConfig path)

def loadConfig (disk : Disk) (path : Option Text) : Except StartError Config :=
  match path with
  | some path => readConfig disk path
  | none => if disk.isFile implicitConfig then readConfig disk implicitConfig else .ok .empty

def settings (disk : Disk) (i : Invocation) : Except StartError Settings := do
  let config ← loadConfig disk i.config
  (Settings.resolve config i.choices i.verb.format).mapError .unknownLevel

/-! ## Files -/

structure FileResult where
  file : Text
  result : Except ConversionError Conversion

def FileResult.ofFile (disk : Disk) (options : Options) (file : Text) : FileResult where
  file := file
  result :=
    match disk file with
    | .error fault => .error (.unreadable (String.ofList file) fault.message)
    | .ok text => convert options text

def FileResult.converted? (r : FileResult) : Option (Text × Conversion) :=
  match r.result with
  | .ok c => some (r.file, c)
  | .error _ => none

def printLine (s : String) : Text := s.toList ++ ['\n']

def layout (s : Settings) : Json.Layout := if s.pretty then .wide else .compact

def printJson (s : Settings) (j : Json) : Text := Json.print (layout s) j ++ ['\n']

/-- What the error stream says about a file that was not converted. -/
def FileResult.report (s : Settings) (r : FileResult) : Text :=
  match r.result with
  | .ok _ => []
  | .error e =>
      match s.format with
      | .json =>
          printJson s (.ofFields
            [("detail", e.detail), ("error", .ofString e.message), ("file", .text r.file)])
      | .text =>
          if s.quiet then []
          else printLine ("error: " ++ String.ofList r.file ++ ": " ++ e.message)

/-! ## Output -/

def convertJson (s : Settings) (fileCount : Nat) (converted : List (Text × Conversion)) : Text :=
  if fileCount = 1 then converted.flatMap fun (_, c) => printJson s c.toJson
  else
    printJson s (.array (converted.map fun (file, c) =>
      .ofFields (("file", .text file) :: c.fields)))

def convertText (fileCount : Nat) (converted : List (Text × Conversion)) : Text :=
  converted.flatMap fun (file, c) =>
    (if fileCount = 1 then [] else printLine ("== " ++ String.ofList file ++ " ==")) ++
      outline c.elements

def warningLines (start : String) (converted : List (Text × Conversion)) : Text :=
  converted.flatMap fun (file, c) =>
    c.warnings.flatMap fun w => printLine (start ++ String.ofList file ++ ": " ++ w.message)

def checkJson (s : Settings) (converted : List (Text × Conversion)) : Text :=
  printJson s (.array (converted.map fun (file, c) =>
    .ofFields [("file", .text file), ("warnings", warningList c.warnings)]))

def checkText (s : Settings) (converted : List (Text × Conversion)) : Text :=
  converted.flatMap fun (file, c) =>
    if c.warnings.isEmpty && !s.quiet then printLine (String.ofList file ++ ": ok")
    else warningLines "" [(file, c)]

def output (s : Settings) (verb : Verb) (fileCount : Nat) (converted : List (Text × Conversion)) :
    Text :=
  match verb, s.format with
  | .convert, .json => convertJson s fileCount converted
  | .convert, .text => convertText fileCount converted
  | .check, .json => checkJson s converted
  | .check, .text => checkText s converted

/-- Converting to text shows the warnings on the error stream. -/
def warnings (s : Settings) (verb : Verb) (converted : List (Text × Conversion)) : Text :=
  match verb, s.format with
  | .convert, .text => if s.quiet then [] else warningLines "warning: " converted
  | _, _ => []

/-- A failed file outweighs warnings, and warnings count where they are denied. -/
def exitCode (s : Settings) (results : List FileResult) : Nat :=
  if results.any fun r => r.converted?.isNone then 1
  else if s.denyWarnings && results.any fun r =>
      r.converted?.any fun (_, c) => !c.warnings.isEmpty then 2
  else 0

/-! ## Runs -/

def runFiles (disk : Disk) (s : Settings) (i : Invocation) : Outcome :=
  let results := i.files.map (FileResult.ofFile disk s.options)
  let converted := results.filterMap FileResult.converted?
  { code := exitCode s results
    output := output s i.verb i.files.length converted
    errors := results.flatMap (FileResult.report s) ++ warnings s i.verb converted }

def refuse (i : Invocation) (e : StartError) : Outcome :=
  let report :=
    match i.choices.output.getD i.verb.format with
    | .text => printLine ("error: " ++ e.message)
    | .json => Json.print .compact (.ofFields [("error", .ofString e.message)]) ++ ['\n']
  ⟨1, [], if i.choices.quiet then [] else report⟩

def run (disk : Disk) (i : Invocation) : Outcome :=
  match settings disk i with
  | .error e => refuse i e
  | .ok s => runFiles disk s i

/-- The names that a run can ask the disk for. -/
def names (i : Invocation) : List Text := i.config.getD implicitConfig :: i.files

def usageText : String :=
  "usage: strider [OPTIONS] convert [--comment-width N] FILE...\n" ++
    "       strider [OPTIONS] check FILE...\n" ++
    "options: --output text|json, --quiet, --config PATH, -v, --deny-warnings\n"

def stop : Stop → Outcome
  | .usage => ⟨2, [], usageText.toList⟩
  | .help => ⟨0, usageText.toList, []⟩
  | .version => ⟨0, "strider 0.1.0\n".toList, []⟩

end Command

end CodeFrames
