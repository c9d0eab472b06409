import PropProver.CommandLine.Run
import PropProver.Json.Reader

/-!
# The program

Collects what a run looks at, makes the run and writes what it leaves behind. The documents with
settings are read as JSON here, and the packaged settings are part of the program.
-/

namespace PropProver.CommandLine

/-- Why the system refused a file. -/
def faultOf : IO.Error → FileFault
  | .inappropriateType _ code _ => if code = 20 then .notDirectory else .isDirectory
  | .invalidArgument _ 36 _ => .nameTooLong
  | .permissionDenied _ _ _ => .denied
  | .otherError code reason => ⟨code.toNat, reason⟩
  | _ => .notFound

/-- The content of the file at a path. -/
def readFile (path : String) : IO (Except ReadFault String) := do
  try
    match String.fromUTF8? (← IO.FS.readBinFile path) with
    | some content => return .ok content
    | none => return .error (.encoding "invalid bytes")
  catch e =>
    return .error (.system (faultOf e))

/-- The document that a text writes; an empty text stands for null. -/
def parseDocument (path content : String) : Except String Json :=
  if content.toList.all Text.isBlank then .ok .null
  else
    match Json.ofText content with
    | .ok x => .ok x
    | .error (.longNumber digits) => .error (Text.excessMessage digits)
    | .error _ => .error ("malformed configuration file " ++ Text.quoted path)

/-- What a run with some arguments can see. -/
def lookAround (a : Arguments) : IO World := do
  let work ← try pure (some (← IO.currentDir).toString) catch _ => pure none
  let package := (← IO.appDir).toString
  let packaged := pathIn package "configs/default.yaml"
  let here : World := {
    environment := fun _ => none
    loaded := none
    workDirectory := work
    packageDirectory := package
    homeDirectory := ← IO.getEnv "HOME"
    status := fun _ => .error .notFound
    read := fun _ => .error (.system .notFound)
    parse := fun path content =>
      if path = packaged then .ok Settings.packaged else parseDocument path content }
  let files ← (a.paths here).mapM fun path => do return (path, ← readFile path)
  let read (path : String) : Except ReadFault String :=
    if path = packaged then .ok "" else (files.lookup path).getD (.error (.system .notFound))
  let status (path : String) : Except FileFault Unit :=
    match read path with
    | .error (.system f) => if f = .isDirectory then .ok () else .error f
    | _ => .ok ()
  let w : World := { here with status := status, read := read }
  let values ← (a.variablesUsed w).mapM fun name => do return (name, ← IO.getEnv name)
  return { w with environment := fun name => (values.lookup name).getD none }

/-- Writes what a run leaves behind. -/
def conclude : Except Abort Result → IO UInt32
  | .ok r => do
    IO.eprint r.errors
    IO.print r.output
    return r.status.toUInt32
  | .error e => do
    IO.eprintln e.message
    return 1

end PropProver.CommandLine

open PropProver.CommandLine in
/-- Runs the program. -/
def main (arguments : List String) : IO UInt32 := do
  let asked : Arguments :=
    match Request.ofArguments arguments with
    | .ok (.prove a) => a
    | _ => {}
  conclude (run (← lookAround asked) arguments)
