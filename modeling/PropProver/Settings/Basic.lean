import PropProver.Settings.Placeholder

/-!
# Settings

Settings are a document of named values, which may themselves be named values. A value is looked
up by a path, a key with full stops between its names. `update` merges further values into the
document, names first to last; where it meets something that cannot hold named values it stops,
and what it has done so far stays.
-/

namespace PropProver

/-- The settings: a document, in which a path leads to a value. -/
structure Settings where
  /-- The document. -/
  document : Json
  deriving Repr

namespace Settings

/-- The settings of a document; where nothing is given they are empty. -/
def ofDocument (env : Environment) (x : Json) : Settings :=
  ⟨fillAll env (if x.isGiven then x else .obj [])⟩

/-- The settings that come with the program. -/
def packaged : Json :=
  .obj [
    ("resolution", .obj [
      ("strategy", .str "saturation"), ("expansion_table", .str "classical"),
      ("max_steps", .null)]),
    ("sequent", .obj [("display_order", .str "chronological")]),
    ("logging", .obj [("level", .str "$\x7bPROPATLAS_LOG_LEVEL:WARNING\x7d")])]

/-! ### Looking up -/

/-- The names of a path. -/
def names : List Char → List (List Char)
  | [] => [[]]
  | c :: cs =>
    if c = '.' then [] :: names cs
    else
      match names cs with
      | n :: ns => (c :: n) :: ns
      | [] => [[c]]

/-- The value that names lead to. -/
def walk : List String → Json → Option Json
  | [], x => some x
  | n :: ns, .obj fs => (Fields.get? fs n).bind (walk ns)
  | _ :: _, _ => none

/-- The value that a path leads to. -/
def get? (s : Settings) (path : String) : Option Json :=
  walk ((names path.toList).map String.ofList) s.document

/-- The value that a path leads to, or another value if it leads nowhere. -/
def get (s : Settings) (path : String) (default : Json) : Json := (s.get? path).getD default

/-! ### Updating -/

/-- Why an update stops. -/
inductive UpdateError where
  /-- Named values are to be merged into something that holds none. -/
  | noFields (kind : String)
  /-- A name is to be given a value in something that holds no named values. -/
  | noNames (kind : String)
  deriving DecidableEq, Repr

/-- The message for an update that stops. -/
def UpdateError.message : UpdateError → String
  | .noFields kind => "'" ++ kind ++ "' object has no attribute 'get'"
  | .noNames "list" => "list indices must be integers or slices, not str"
  | .noNames kind => "'" ++ kind ++ "' object does not support item assignment"

/-- Why a value with a name cannot be put into something that holds no named values. -/
def refusal (d : Json) : Json → UpdateError
  | .obj _ => .noFields d.typeName
  | _ => .noNames d.typeName

mutual

/-- A document after named values have been merged into it, and why this was not completed. -/
def merge (d : Json) : List (String × Json) → Json × Option UpdateError
  | [] => (d, none)
  | (k, v) :: us =>
    match d with
    | .obj fs =>
      match mergeValue (Fields.get? fs k) v with
      | (w, none) => merge (.obj (Fields.put fs k w)) us
      | (w, some e) => (.obj (Fields.put fs k w), some e)
    | d => (d, some (refusal d v))

/-- A value after another has been merged into it: named values are merged one by one, any other
value replaces it. -/
def mergeValue (old : Option Json) : Json → Json × Option UpdateError
  | .obj us => merge (old.getD (.obj [])) us
  | v => (v, none)

end

/-- The settings after an update, and why this was not completed. -/
def update (s : Settings) (us : List (String × Json)) : Settings × Option UpdateError :=
  let (d, e) := merge s.document us
  (⟨d⟩, e)

end Settings

end PropProver
