import PropProver.CommandLine.Usage
import PropProver.CommandLine.Files
import PropProver.Report.Encoding
import PropProver.Report.Log
import PropProver.Report.Text
import PropProver.Settings.LogLevel

/-!
# The command line

One run of the program, as a function of the arguments and of the `World` in which it takes place.
The formulas are proved one after the other; one that fails is reported on the error stream and does
not stop the others. The exit status is zero if all formulas are theorems, one if some are not, and
two if there was any failure.

The world stands for what is not in the program itself: the system with its directories and files,
and the language in which documents with settings are written.
-/

namespace PropProver.CommandLine

/-- What a run can see. -/
structure World where
  /-- The variables of the environment. -/
  environment : Settings.Environment
  /-- The settings that are loaded already. -/
  loaded : Option Settings
  /-- The working directory, unless it was removed. -/
  workDirectory : Option String
  /-- The directory of the program. -/
  packageDirectory : String
  /-- The home directory, if there is one. -/
  homeDirectory : Option String
  /-- Whether there is something at a path. -/
  status : String → Except FileFault Unit
  /-- The content of the file at a path. -/
  read : String → Except ReadFault String
  /-- The document in a file with a path and a content, or a complaint about it. There are no
  values in a document but those of `Json`. -/
  parse : String → String → Except String Json

/-- What a run leaves behind. -/
structure Result where
  /-- The exit status. -/
  status : Nat
  /-- The output. -/
  output : String := ""
  /-- The error stream. -/
  errors : String := ""
  deriving DecidableEq, Repr

/-- A failure that ends a run without an exit status. -/
inductive Abort where
  /-- There is no home directory to look for settings. -/
  | noHome
  /-- A setting does not fit the proof. -/
  | proof (e : ProofError)
  /-- A setting does not fit the display. -/
  | order (e : UnknownOrder)
  /-- The option for the file with formulas is given no path. -/
  | noPath
  /-- The path of the file with formulas holds a null character. -/
  | nullInPath
  /-- The file with formulas is not in the encoding of texts. -/
  | encoding (message : String)

/-- The message for a path with a null character. -/
def nullMessage : String := "embedded null byte"

/-- The message for a run that ends without an exit status. -/
def Abort.message : Abort → String
  | .noHome => "Could not determine home directory."
  | .proof e => e.message
  | .order e => e.message
  | .noPath => "expected str, bytes or os.PathLike object, not list"
  | .nullInPath => nullMessage
  | .encoding message => message

/-- A line of the error stream. -/
def complaint (message : String) : String := "propatlas: " ++ message ++ "\n"

/-- A run that ends with a complaint. -/
def failure (message : String) : Result := { status := 2, errors := complaint message }

/-- The answer to arguments that are refused. -/
def refuse (e : UsageError) : Result :=
  { status := 2, errors := usage ++ "propatlas: error: " ++ e.message ++ "\n" }

/-! ### Settings -/

/-- Why there are no settings. -/
inductive SettingsError where
  /-- The working directory was removed. -/
  | noWorkDirectory
  /-- There is no home directory. -/
  | noHome
  /-- There is no file at any of the usual paths. -/
  | notFound
  /-- The path holds a null character. -/
  | nullInPath
  /-- The system refuses the file at a path. -/
  | unreadable (path : String) (f : FileFault)
  /-- The file is not in the encoding of texts. -/
  | encoding (message : String)
  /-- The file holds no document. -/
  | malformed (message : String)
  deriving DecidableEq, Repr

/-- The message for a run without settings. -/
def SettingsError.message : SettingsError → String
  | .noWorkDirectory => FileFault.notFound.text
  | .noHome => Abort.noHome.message
  | .notFound => "No configuration file found"
  | .nullInPath => nullMessage
  | .unreadable path f => f.message path
  | .encoding message | .malformed message => message

/-- What a run without settings comes to. All is reported but that there is no home directory. -/
def SettingsError.outcome : SettingsError → Except Abort Result
  | .noHome => .error .noHome
  | e => .ok (failure e.message)

/-- The path of a file in a directory. -/
def pathIn (directory file : String) : String :=
  if directory.endsWith "/" then directory ++ file else directory ++ "/" ++ file

/-- The paths at which settings are looked for if none is given, the first one first. -/
def searchPaths (w : World) : Except SettingsError (List String) :=
  match w.workDirectory, w.homeDirectory with
  | none, _ => .error .noWorkDirectory
  | some _, none => .error .noHome
  | some work, some home =>
    .ok [pathIn work "configs/default.yaml", pathIn w.packageDirectory "configs/default.yaml",
      pathIn home ".propatlas/config.yaml"]

/-- The first of some paths at which there is something. -/
def firstPresent (w : World) : List String → Except SettingsError String
  | [] => .error .notFound
  | path :: paths =>
    match w.status path with
    | .ok () => .ok path
    | .error f => if f.isAbsence then firstPresent w paths else .error (.unreadable path f)

/-- The document in the file at a path. -/
def readDocument (w : World) (path : String) : Except SettingsError Json :=
  if path.toList.contains '\x00' then .error .nullInPath
  else
    match w.read path with
    | .ok content => (w.parse path content).mapError .malformed
    | .error (.system f) => .error (.unreadable path f)
    | .error (.encoding message) => .error (.encoding message)

/-- The document with the settings: in the file that is given, or in the first that is found at the
usual paths. -/
def findDocument (w : World) (config : Given String) : Except SettingsError Json := do
  match config with
  | .value path => if path = "" then readDocument w (← usual) else readDocument w path
  | .nothing | .dashes => readDocument w (← usual)
where
  /-- The path that holds if none is given. -/
  usual : Except SettingsError String := do firstPresent w (← searchPaths w)

/-- The settings of a run. Those that are loaded already hold unless a file is asked for. -/
def findSettings (w : World) (config : Given String) : Except SettingsError Settings :=
  match w.loaded, config with
  | some s, .nothing => .ok s
  | _, _ => do return .ofDocument w.environment (← findDocument w config)

/-! ### Formulas -/

/-- The formulas to be proved: those of the file if one is given, or else the one that is given.
The inner error is a complaint. -/
def findFormulas (w : World) (a : Arguments) : Except Abort (Except String (List String)) :=
  match a.file with
  | .nothing => .ok (.ok a.formula.toList)
  | .dashes => .error .noPath
  | .value path =>
    if path.toList.contains '\x00' then .error .nullInPath
    else
      match w.read path with
      | .ok content => .ok (.ok (Text.formulas content))
      | .error (.system f) => .ok (.error (f.message path))
      | .error (.encoding message) => .error (.encoding message)

/-- What became of one formula. -/
inductive Attempt where
  /-- It was proved or found no theorem. -/
  | report (r : Report)
  /-- It failed. -/
  | failed (text : String) (e : ProofError)

/-- Tries one formula. -/
def attempt (o : Options) (text : String) : Except Abort Attempt :=
  match prove o text with
  | .ok r => .ok (.report r)
  | .error e => if e.isFailure then .ok (.failed text e) else .error (.proof e)

/-- The report of an attempt. -/
def Attempt.report? : Attempt → Option Report
  | .report r => some r
  | .failed _ _ => none

/-- What an attempt leaves on the error stream: the records of the log from a level on, or a
complaint. -/
def Attempt.errors (level : LogLevel) : Attempt → String
  | .report r =>
    String.join ((r.records.filter fun l => decide (level.value ≤ l.level)).map (·.text ++ "\n"))
  | .failed text e => complaint (text ++ ": " ++ e.message)

/-! ### Output -/

/-- The reports as data: a list if they come from a file, and otherwise the report itself. -/
def jsonOutput (fromFile : Bool) (rs : List Report) : String :=
  let value : Value :=
    match fromFile, rs with
    | false, r :: _ => r.toValue
    | _, rs => .list (rs.map Report.toValue)
  value.jsonText (some "  ") ++ "\n"

/-- The output of a run. -/
def output (a : Arguments) (rs : List Report) : Except UnknownOrder String :=
  if a.json then
    .ok (jsonOutput (!a.file.isNothing) rs)
  else if a.summary then .ok (String.join (rs.map (·.summary ++ "\n")))
  else do return String.join ((← rs.mapM Report.render).map (· ++ "\n"))

/-- The exit status after some attempts. -/
def status (as : List Attempt) : Nat :=
  let rs := as.filterMap Attempt.report?
  if rs.length < as.length then 2
  else if rs.all Report.isTheorem then 0
  else 1

/-! ### What a run looks at -/

/-- What a command line asks of a proof. -/
def Arguments.options (a : Arguments) : Options where
  strategy := a.strategy.toJson .str
  table := a.table.toJson .str
  maxSteps := a.maxSteps.toJson .int
  order := .ofJson (a.order.toJson .str)

/-- The paths at which a run may read. -/
def Arguments.paths (a : Arguments) (w : World) : List String :=
  a.config.value?.toList ++ a.file.value?.toList ++ (searchPaths w).toOption.getD []

/-- The variables that the settings of a run refer to. -/
def Arguments.variablesUsed (w : World) (a : Arguments) : List String :=
  match findDocument w a.config with
  | .ok x => Settings.allVariables x
  | .error _ => []

/-! ### The run -/

/-- Proves formulas and writes what is asked for. -/
def proveAll (a : Arguments) (s : Settings) (level : LogLevel) (texts : List String) :
    Except Abort Result := do
  let attempts ← texts.mapM (attempt (s.complete a.options))
  let out ← (output a (attempts.filterMap Attempt.report?)).mapError .order
  return {
    status := status attempts
    output := out
    errors := String.join (attempts.map (Attempt.errors level)) }

/-- A run with arguments that were accepted. -/
def runWith (w : World) (a : Arguments) : Except Abort Result :=
  match findSettings w a.config with
  | .error e => e.outcome
  | .ok s =>
    match s.logLevel with
    | .error e => .ok (failure e.message)
    | .ok level => do
      match ← findFormulas w a with
      | .error message => .ok (failure message)
      | .ok texts => proveAll a s level texts

/-- A run of the program. -/
def run (w : World) (arguments : List String) : Except Abort Result :=
  match Request.ofArguments arguments with
  | .error e => .ok (refuse e)
  | .ok .help => .ok { status := 0, output := help }
  | .ok (.prove a) => runWith w a

end PropProver.CommandLine
