import PropProver.Value.Encoding
import PropProver.Value.Text
import PropProver.Json.Reader

/-!
# Values from JSON

An object whose field `_type` names a kind of the logic is read as an object of that kind, and any
other object as named values. The parts of formulas and literals may be anything. The members of
a clause have to be formulas, those of a clause set clauses; they may come in any value that has
items: a list, a text (its characters), named values (their names), a clause or a clause set.
-/

namespace PropProver.Value

/-- Why an object is not read. -/
inductive DecodeError where
  /-- A part is missing. -/
  | missing (name : String)
  /-- The connective is not known, given its description. -/
  | noConnective (description : String)
  /-- The connective is not known and cannot be described. -/
  | noDescription (complaint : String)
  /-- The connective is given by something that cannot be looked up. -/
  | unhashable (kind : String)
  /-- A member of a clause is no formula. -/
  | notFormula (v : Value)
  /-- A member of a clause set is no clause. -/
  | notClause (v : Value)
  /-- The members of a clause are not given by something with items. -/
  | noFormulas (kind : String)
  /-- The members of a clause set or a side of a sequent are not given by something with items. -/
  | noItems (kind : String)
  deriving Repr

/-- The complaint about a value where a clause was expected. -/
def notClauseMessage (v : Value) : String :=
  match v.describe with
  | .ok s => "Expected Clause, got " ++ s
  | .error complaint => complaint

/-- The message for an object that is not read. -/
def DecodeError.message : DecodeError → String
  | .missing name => Text.quoted name
  | .noConnective description => description
  | .noDescription complaint => complaint
  | .unhashable kind => "unhashable type: '" ++ kind ++ "'"
  | .notFormula v => v.notFormulaMessage
  | .notClause v => v.notClauseMessage
  | .noFormulas kind =>
    "propatlas.core.logic.Clause() argument after * must be an iterable, not " ++ kind
  | .noItems kind => "'" ++ kind ++ "' object is not iterable"

/-- The items of a value that has items. -/
def items? : Value → Option (List Value)
  | .list xs | .clause xs | .clauseSet xs => some xs
  | .str s => some (s.map fun c => .str [c])
  | .dict fs => some (fs.map fun f => .str f.1)
  | _ => none

/-- A part of an object. -/
def part (fs : Fields Value Codes) (name : String) : Except DecodeError Value :=
  match fs.get? name with
  | some v => .ok v
  | none => .error (.missing name)

/-- The connective whose name a value is, if any. -/
def connective? : Value → Option Connective
  | .str s => s.toString?.bind Connective.ofName?
  | _ => none

/-- The connective that a value names. -/
def connective (op : Value) : Except DecodeError Connective :=
  match op.unhashable? with
  | some kind => .error (.unhashable kind)
  | none =>
    match connective? op, op.describe with
    | some c, _ => .ok c
    | none, .ok description => .error (.noConnective description)
    | none, .error complaint => .error (.noDescription complaint)

/-- The items of a part that needs some. -/
def itemsOf (v : Value) : Except DecodeError (List Value) :=
  match v.items? with
  | some xs => .ok xs
  | none => .error (.noItems v.typeName)

/-- The value is a clause. -/
def isClause : Value → Bool
  | .clause _ => true
  | _ => false

/-- The clause whose members are the items of a value. -/
def clauseOf (v : Value) : Except DecodeError Value :=
  match v.items? with
  | none => .error (.noFormulas v.typeName)
  | some xs =>
    match xs.find? (!·.isFormula) with
    | some x => .error (.notFormula x)
    | none => .ok (.clause xs)

/-- The clause set with the given members. -/
def clauseSetOf (xs : List Value) : Except DecodeError Value :=
  match xs.find? (!·.isClause) with
  | some x => .error (.notClause x)
  | none => .ok (.clauseSet xs)

/-- The kind that an object names. -/
def kind? (fs : Fields Value Codes) : Option String :=
  match fs.get? kindField with
  | some (.str s) => s.toString?
  | _ => none

/-- What an object is read as. -/
def ofFields (fs : Fields Value Codes) : Except DecodeError Value :=
  match kind? fs with
  | some "Atom" => do return .atom (← part fs "name")
  | some "Not" => do return .neg (← part fs "operand")
  | some "Binary" => do
    let op ← connective (← part fs "op")
    let l ← part fs "left"
    let r ← part fs "right"
    return .bin op l r
  | some "Literal" => do
    let a ← part fs "atom"
    let p ← part fs "polarity"
    return .literal a p
  | some "Clause" => do clauseOf (← part fs "formulas")
  | some "ClauseSet" => do clauseSetOf (← itemsOf (← part fs "clauses"))
  | some "Sequent" => do
    let l ← itemsOf (← part fs "antecedent")
    let r ← itemsOf (← part fs "succedent")
    return .sequent l r
  | _ => .ok (.dict fs)

/-- A word or number as a value. -/
def ofScalar : Json.Scalar → Value
  | .null => .null
  | .bool b => .bool b
  | .int n => .int n

/-- Builds values. -/
def builder : Json.Builder DecodeError Value where
  scalar := ofScalar
  text s := .str s
  list xs := .list xs
  object := ofFields

/-- The value of a JSON text. -/
def ofJsonText (text : Codes) : Except (Json.ReadError DecodeError) Value :=
  Json.readWith builder text

end PropProver.Value
