import PropProver.Formula.Basic
import PropProver.Clause
import PropProver.Literal.Set
import PropProver.Sequent.Basic
import PropProver.Json.Basic
import PropProver.Text.Codes

/-!
# Values

The things that are exchanged as data: plain values, and formulas, literals, clauses and sequents.
The parts of a formula or literal are values of any kind, since what is read from outside is not
checked there, and the texts may hold halves of characters.
-/

namespace PropProver

/-- A plain value or an object of the logic. -/
inductive Value where
  /-- The null value. -/
  | null
  /-- A truth value. -/
  | bool (b : Bool)
  /-- A whole number. -/
  | int (n : Int)
  /-- A text. -/
  | str (s : Codes)
  /-- A list. -/
  | list (items : List Value)
  /-- Named values. -/
  | dict (fields : List (Codes × Value))
  /-- An atom. -/
  | atom (name : Value)
  /-- A negation. -/
  | neg (operand : Value)
  /-- A binary formula. -/
  | bin (op : Connective) (left right : Value)
  /-- A literal. -/
  | literal (atom polarity : Value)
  /-- A clause. -/
  | clause (formulas : List Value)
  /-- A clause set. -/
  | clauseSet (clauses : List Value)
  /-- A sequent. -/
  | sequent (antecedent succedent : List Value)
  deriving Repr

namespace Value

/-- The name of the kind of a value. -/
def typeName : Value → String
  | .null => "NoneType"
  | .bool _ => "bool"
  | .int _ => "int"
  | .str _ => "str"
  | .list _ => "list"
  | .dict _ => "dict"
  | .atom _ => "Atom"
  | .neg _ => "Not"
  | .bin _ _ _ => "Binary"
  | .literal _ _ => "Literal"
  | .clause _ => "Clause"
  | .clauseSet _ => "ClauseSet"
  | .sequent _ _ => "Sequent"

/-- The value is a formula at its root. -/
def isFormula : Value → Bool
  | .atom _ | .neg _ | .bin _ _ _ => true
  | _ => false

/-- A value counts as true unless it is null, zero or empty. -/
def isTrue : Value → Bool
  | .null => false
  | .bool b => b
  | .int n => n != 0
  | .str s => !s.isEmpty
  | .list xs | .clause xs | .clauseSet xs => !xs.isEmpty
  | .dict fs => !fs.isEmpty
  | _ => true

/-- A string as a value. -/
def ofString (s : String) : Value := .str s

/-! ### Formulas as values -/

/-- A formula tree as a value, given what its foreign leaves are. -/
def ofTreeWith {ι : Type} (leaf : ι → Value) : Tree ι → Value
  | .atom a => .atom (.str a)
  | .neg x => .neg (ofTreeWith leaf x)
  | .bin op l r => .bin op (ofTreeWith leaf l) (ofTreeWith leaf r)
  | .foreign v => leaf v

/-- A formula as a value. -/
def ofFormula (f : Formula) : Value := ofTreeWith Empty.elim f

/-- A literal as a value. -/
def ofLiteral (l : Literal) : Value := .literal (.str l.atom) (.bool l.polarity)

/-- A sequent as a value, given what its foreign leaves are. -/
def ofSequent {ι : Type} (leaf : ι → Value) (s : Sequent ι) : Value :=
  .sequent (s.antecedent.map (ofTreeWith leaf)) (s.succedent.map (ofTreeWith leaf))

/-- A clause of literals as a value. -/
def ofLiterals (ls : List Literal) : Value := .clause (ls.map fun l => ofFormula l.toTree)

/-- Literals as a list of values in the order of their texts. -/
def ofLiteralSet (s : LiteralSet) : Value :=
  .list ((s.toList.mergeSort fun a b => !decide (b.text < a.text)).map ofLiteral)

/-! ### Equality -/

/-- The number that a truth value or a number counts as. -/
def number? : Value → Option Int
  | .bool b => some (if b then 1 else 0)
  | .int n => some n
  | _ => none

mutual

/-- Two values count as equal: truth values count as numbers, and the order of named values does
not matter. -/
def same : Value → Value → Bool
  | .null, .null => true
  | .bool b, w => w.number? == some (if b then 1 else 0)
  | .int n, w => w.number? == some n
  | .str s, .str t => s == t
  | .list xs, .list ys => sameAll xs ys
  | .dict fs, .dict gs => fs.length == gs.length && sameFields fs gs
  | .atom x, .atom y => same x y
  | .neg x, .neg y => same x y
  | .bin op l r, .bin op' l' r' => op == op' && same l l' && same r r'
  | .literal a p, .literal b q => same a b && same p q
  | .clause xs, .clause ys => sameAll xs ys
  | .clauseSet xs, .clauseSet ys => sameAll xs ys
  | .sequent l r, .sequent l' r' => sameAll l l' && sameAll r r'
  | _, _ => false

/-- Two lists count as equal. -/
def sameAll : List Value → List Value → Bool
  | [], [] => true
  | x :: xs, y :: ys => same x y && sameAll xs ys
  | _, _ => false

/-- Every named value counts as equal to that of the same name. -/
def sameFields : List (Codes × Value) → List (Codes × Value) → Bool
  | [], _ => true
  | (k, v) :: fs, gs =>
    (match Fields.get? gs k with
      | some w => same v w
      | none => false) && sameFields fs gs

end

mutual

/-- The kind of the first part of a value that cannot be looked up in a table: a list or named
values. -/
def unhashable? : Value → Option String
  | .list _ => some "list"
  | .dict _ => some "dict"
  | .atom x => unhashable? x
  | .neg x => unhashable? x
  | .bin _ l r => (unhashable? l).or (unhashable? r)
  | .literal a p => (unhashable? a).or (unhashable? p)
  | .clause xs => unhashableAmong? xs
  | .clauseSet xs => unhashableAmong? xs
  | .sequent l r => (unhashableAmong? l).or (unhashableAmong? r)
  | _ => none

/-- The same for the values of a list in turn. -/
def unhashableAmong? : List Value → Option String
  | [] => none
  | x :: xs => (unhashable? x).or (unhashableAmong? xs)

end

/-- Values of which no two count as equal, the first of equal ones being kept. -/
def distinct (vs : List Value) : List Value :=
  vs.foldl (fun seen v => if seen.any (same v) then seen else seen ++ [v]) []

end Value

mutual

/-- A JSON value as a value. -/
def Value.ofJson : Json → Value
  | .null => .null
  | .bool b => .bool b
  | .int n => .int n
  | .str s => .str s
  | .arr xs => .list (ofJsonItems xs)
  | .obj fs => .dict (ofJsonFields fs)

/-- The items of a JSON list as values. -/
def Value.ofJsonItems : List Json → List Value
  | [] => []
  | x :: xs => ofJson x :: ofJsonItems xs

/-- The fields of a JSON object as named values. -/
def Value.ofJsonFields : List (String × Json) → List (Codes × Value)
  | [] => []
  | (k, x) :: fs => (k, ofJson x) :: ofJsonFields fs

end

end PropProver
