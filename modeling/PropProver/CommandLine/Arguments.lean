import PropProver.Registry
import PropProver.Sequent.Trace
import PropProver.Text.Integer
import PropProver.Text.Quoted

/-!
# Command-line arguments

A command line names a formula and options in any order. An option is written with its value as
the next argument or after an equals sign, and a long name may be shortened as far as no other
name starts alike. After `--` nothing is an option.

All arguments are first sorted into options and others (`Piece.ofArguments`), which is where a name
that fits several options is refused; then they are taken from left to right.
-/

namespace PropProver.CommandLine

/-- The options. -/
inductive Switch where
  | help | file | json | strategy | table | order | maxSteps | summary | config
  deriving DecidableEq, Repr

namespace Switch

/-- All options in the order of the usage text. -/
def all : List Switch :=
  [.help, .file, .json, .strategy, .table, .order, .maxSteps, .summary, .config]

/-- The names of an option. -/
def names : Switch → List String
  | .help => ["-h", "--help"]
  | .file => ["--file"]
  | .json => ["--json"]
  | .strategy => ["--strategy"]
  | .table => ["--table"]
  | .order => ["--order"]
  | .maxSteps => ["--max_steps"]
  | .summary => ["--summary"]
  | .config => ["--config"]

/-- The option has a value. -/
def takesValue : Switch → Bool
  | .help | .json | .summary => false
  | _ => true

/-- The values that an option admits, if not all. -/
def choices : Switch → Option (List String)
  | .strategy => some Strategy.registry.names
  | .table => some Table.registry.names
  | .order => some [Trace.Order.chronological.name, Trace.Order.reverse.name]
  | _ => none

/-- Every name with its option. -/
def named : List (String × Switch) := all.flatMap fun o => o.names.map (·, o)

/-- The option with a name. -/
def ofName? (name : String) : Option Switch := named.lookup name

end Switch

/-- Why arguments are refused. -/
inductive UsageError where
  /-- A shortened name fits several options. -/
  | ambiguous (argument : String) (names : List String)
  /-- The value of an option is missing. -/
  | noValue (o : Switch)
  /-- A value is given to an option that has none. -/
  | extraValue (o : Switch) (value : String)
  /-- The value is not among those that the option admits. -/
  | noChoice (o : Switch) (value : String) (choices : List String)
  /-- The value is no number. -/
  | noNumber (o : Switch) (value : String)
  /-- Arguments remain. -/
  | unrecognized (arguments : List String)
  /-- There is nothing to prove. -/
  | noFormula
  deriving DecidableEq, Repr

/-- The message for arguments that are refused. -/
def UsageError.message : UsageError → String
  | .ambiguous a names => "ambiguous option: " ++ a ++ " could match " ++ ", ".intercalate names
  | .noValue o => about o ++ "expected one argument"
  | .extraValue o v => about o ++ "ignored explicit argument " ++ Text.quoted v
  | .noChoice o v cs =>
    about o ++ "invalid choice: " ++ Text.quoted v ++ " (choose from " ++
      ", ".intercalate (cs.map Text.quoted) ++ ")"
  | .noNumber o v => about o ++ "invalid int value: " ++ Text.quoted v
  | .unrecognized as => "unrecognized arguments: " ++ " ".intercalate as
  | .noFormula => "a formula or --file is required"
where
  /-- The option that a message is about. -/
  about (o : Switch) : String := "argument " ++ "/".intercalate o.names ++ ": "

/-! ### Sorting -/

/-- An argument by what it looks like. -/
inductive Piece where
  /-- No option. -/
  | plain (argument : String)
  /-- The end of the options. -/
  | dashes
  /-- An option, the name that it was found by, and the value in the same argument. -/
  | option (o : Switch) (name : String) (value : Option String)
  /-- Looks like an option but is none. -/
  | unknown (argument : String)
  deriving DecidableEq, Repr

/-- A text cut at its first equals sign. -/
def cutAtEquals (s : String) : String × Option String :=
  let cs := s.toList
  match cs.dropWhile (· != '=') with
  | _ :: value => (String.ofList (cs.takeWhile (· != '=')), some (String.ofList value))
  | [] => (s, none)

/-- The options that an argument may mean that is no full name. -/
def candidates (argument : String) : List (Switch × String × Option String) :=
  match argument.toList with
  | '-' :: '-' :: _ =>
    let (name, value) := cutAtEquals argument
    (Switch.named.filter fun (n, _) => name.toList.isPrefixOf n.toList).map
      fun (n, o) => (o, n, value)
  | '-' :: c :: cs =>
    (Switch.named.filter fun (n, _) => n.toList == ['-', c]).map
      fun (n, o) => (o, n, some (String.ofList cs))
  | _ => []

/-- A negative number: digits, or a point with digits behind it. -/
def isNegativeNumber (cs : List Char) : Bool :=
  let isDigit (c : Char) : Bool := (Text.digit? c).isSome
  match cs with
  | '-' :: ds =>
    let ds := if ds.getLast? = some '\n' then ds.dropLast else ds
    match ds.dropWhile isDigit with
    | [] => !ds.isEmpty
    | '.' :: rest => !rest.isEmpty && rest.all isDigit
    | _ => false
  | _ => false

/-- What an argument before `--` looks like. -/
def Piece.ofArgument (a : String) : Except UsageError Piece :=
  match a.toList with
  | '-' :: _ :: _ =>
    let (start, value) := cutAtEquals a
    match Switch.ofName? a, Switch.ofName? start with
    | some o, _ => .ok (.option o a none)
    | none, some o => .ok (.option o start value)
    | none, none =>
      match candidates a with
      | [(o, name, value)] => .ok (.option o name value)
      | [] =>
        if isNegativeNumber a.toList || a.toList.contains ' ' then .ok (.plain a)
        else .ok (.unknown a)
      | cs => .error (.ambiguous a (cs.map fun (_, name, _) => name))
  | _ => .ok (.plain a)

/-- What the arguments look like. -/
def Piece.ofArguments : List String → Except UsageError (List Piece)
  | [] => .ok []
  | a :: as =>
    if a = "--" then .ok (.dashes :: as.map .plain)
    else do
      let p ← ofArgument a
      return p :: (← ofArguments as)

/-! ### Taking -/

/-- What an option is given. -/
inductive Given (α : Type) where
  /-- Nothing: the option does not occur. -/
  | nothing
  /-- A value. -/
  | value (x : α)
  /-- Two hyphens, which stand for no value at all. -/
  | dashes
  deriving DecidableEq, Repr

/-- The option does not occur. -/
def Given.isNothing {α : Type} : Given α → Bool
  | .nothing => true
  | _ => false

/-- The value that an option is given. -/
def Given.value? {α : Type} : Given α → Option α
  | .value x => some x
  | _ => none

/-- What an option is given, as data: null for nothing, and an empty list for two hyphens. -/
def Given.toJson {α : Type} (f : α → Json) : Given α → Json
  | .nothing => .null
  | .value x => f x
  | .dashes => .arr []

/-- What a command line asks for. -/
structure Arguments where
  /-- The formula. -/
  formula : Option String := none
  /-- The file with formulas. -/
  file : Given String := .nothing
  /-- Reports are written as data. -/
  json : Bool := false
  /-- The strategy. -/
  strategy : Given String := .nothing
  /-- The expansion table. -/
  table : Given String := .nothing
  /-- The order of display. -/
  order : Given String := .nothing
  /-- The greatest number of given clauses. -/
  maxSteps : Given Int := .nothing
  /-- Reports are written as summaries. -/
  summary : Bool := false
  /-- The file with the settings. -/
  config : Given String := .nothing
  deriving DecidableEq, Repr

namespace Arguments

/-- The arguments with an option that has no value. -/
def mark (a : Arguments) : Switch → Arguments
  | .json => { a with json := true }
  | .summary => { a with summary := true }
  | _ => a

/-- The arguments with what an option other than `--max_steps` is given. -/
def set (a : Arguments) (o : Switch) (g : Given String) : Arguments :=
  match o with
  | .file => { a with file := g }
  | .strategy => { a with strategy := g }
  | .table => { a with table := g }
  | .order => { a with order := g }
  | .config => { a with config := g }
  | _ => a

/-- The arguments with an option and its value in writing, if the option admits it. Two hyphens
are admitted by every option. -/
def give (a : Arguments) (o : Switch) (s : String) : Except UsageError Arguments :=
  match o with
  | .maxSteps =>
    if s = "--" then .ok { a with maxSteps := .dashes }
    else
      match Text.integer? s with
      | some n => .ok { a with maxSteps := .value n }
      | none => .error (.noNumber o s)
  | o =>
    if s = "--" then .ok (a.set o .dashes)
    else
      match o.choices with
      | some cs => if s ∈ cs then .ok (a.set o (.value s)) else .error (.noChoice o s cs)
      | none => .ok (a.set o (.value s))

end Arguments

/-- What a command line comes to. -/
inductive Request where
  /-- The help text is asked for. -/
  | help
  /-- Formulas are to be proved. -/
  | prove (a : Arguments)
  deriving DecidableEq, Repr

/-- Whether the help option admits what is written behind its short name: further short names,
each of one letter, of which only that of the help option is known. -/
def admitBehindHelp : List Char → Except UsageError Unit
  | ['h'] => .ok ()
  | 'h' :: cs => admitBehindHelp cs
  | cs => .error (.extraValue .help (String.ofList cs))

/-- Takes pieces from left to right. The first plain argument is the formula; `--` may come before
it or right after it. What has no use is put aside. -/
def take (a : Arguments) (formulaTaken : Bool) (aside : List String) :
    List Piece → Except UsageError Request
  | [] =>
    if aside.isEmpty then .ok (.prove a) else .error (.unrecognized aside.reverse)
  | .plain s :: .dashes :: ps =>
    if formulaTaken then take a true ("--" :: s :: aside) ps
    else take { a with formula := some s } true aside ps
  | .plain s :: ps =>
    if formulaTaken then take a true (s :: aside) ps
    else take { a with formula := some s } true aside ps
  | .dashes :: .plain s :: ps =>
    if formulaTaken then take a true (s :: "--" :: aside) ps
    else take { a with formula := some s } true aside ps
  | .dashes :: ps => take a true (if formulaTaken then "--" :: aside else aside) ps
  | .unknown s :: ps => take a formulaTaken (s :: aside) ps
  | .option o name (some v) :: ps =>
    if o.takesValue then do take (← a.give o v) formulaTaken aside ps
    else if name = "-h" then do
      admitBehindHelp v.toList
      return .help
    else .error (.extraValue o v)
  | .option o _ none :: .plain s :: ps =>
    if o = .help then .ok .help
    else if o.takesValue then do take (← a.give o s) formulaTaken aside ps
    else take (a.mark o) formulaTaken aside (.plain s :: ps)
  | .option o _ none :: ps =>
    if o = .help then .ok .help
    else if o.takesValue then .error (.noValue o)
    else take (a.mark o) formulaTaken aside ps
  termination_by ps => ps.length

/-- What the arguments of a command line ask for. -/
def Request.ofArguments (as : List String) : Except UsageError Request := do
  match ← take {} false [] (← Piece.ofArguments as) with
  | .help => .ok .help
  | .prove a =>
    if a.formula.isNone && a.file.isNothing then .error .noFormula
    else .ok (.prove a)

end PropProver.CommandLine
