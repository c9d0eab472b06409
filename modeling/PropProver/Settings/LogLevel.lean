import PropProver.Settings.Basic
import PropProver.Value.Text
import PropProver.Text.LetterCase

/-!
# The level of the log

The setting `logging.level` says which records are written: a number, or one of the usual names
in any case.
-/

namespace PropProver

/-- The level from which on records are written. -/
inductive LogLevel where
  /-- A number. -/
  | number (n : Int)
  /-- A truth value, which counts as one or zero. -/
  | flag (b : Bool)
  deriving DecidableEq, Repr

namespace LogLevel

/-- The level as a number. -/
def value : LogLevel → Int
  | .number n => n
  | .flag b => if b then 1 else 0

/-- The named levels. -/
def named : Fields Int :=
  [("CRITICAL", 50), ("FATAL", 50), ("ERROR", 40), ("WARN", 30), ("WARNING", 30), ("INFO", 20),
    ("DEBUG", 10), ("NOTSET", 0)]

/-- A value that is no level. -/
structure Unknown where
  /-- The value. -/
  value : Json
  deriving Repr

/-- The message for a value that is no level. -/
def Unknown.message (e : Unknown) : String := "Unknown logging level: " ++ e.value.describe

/-- The level that a value stands for. -/
def ofJson (x : Json) : Except Unknown LogLevel :=
  match x with
  | .int n => .ok (.number n)
  | .bool b => .ok (.flag b)
  | x =>
    match named.get? (Text.asciiCapitals (Text.strip x.display)) with
    | some n => .ok (.number n)
    | none => .error ⟨x⟩

end LogLevel

/-- The level that the settings ask for. -/
def Settings.logLevel (s : Settings) : Except LogLevel.Unknown LogLevel :=
  LogLevel.ofJson (s.get "logging.level" (.str "WARNING"))

end PropProver
