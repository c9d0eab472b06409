import PropProver.Value.Basic
import PropProver.Text.Quoted

/-!
# Values in messages

`describe` writes a value the way it is shown in messages: texts between quotes, containers with
their items, objects of the logic by their fields, and a clause by the texts of its formulas.
`plain` writes a value as it enters a larger text: a text as it is, and formulas, literals and
sequents in the syntax of formulas. Either can fail, because a formula has a text only if all its
parts are formulas and its names are texts. What is given instead of the text then is the
complaint. Halves of characters are shown as on the error stream, by their numbers.
-/

namespace PropProver.Value

/-- The text of a formula as it enters a larger one. -/
inductive Shown where
  /-- A text. -/
  | text (s : String)
  /-- The name of an atom that is no text: its kind, and how it is written in a larger text. -/
  | other (kind : String) (plain : Except String String)

/-- What is shown between brackets. -/
def Shown.inline : Shown → Except String String
  | .text s => .ok s
  | .other _ plain => plain

/-- What is shown where a text has to stand. -/
def Shown.alone : Shown → Except String String
  | .text s => .ok s
  | .other kind _ => .error ("__str__ returned non-string (type " ++ kind ++ ")")

/-- What is shown after a negation. -/
def Shown.afterNot : Shown → Except String String
  | .text s => .ok ("!" ++ s)
  | .other kind _ => .error ("can only concatenate str (not \"" ++ kind ++ "\") to str")

/-- What is shown in a row of which the given number of members come before. -/
def Shown.inRow (before : Nat) : List Shown → Except String (List String)
  | [] => .ok []
  | .text s :: row => do return s :: (← inRow (before + 1) row)
  | .other kind _ :: _ =>
    .error ("sequence item " ++ toString before ++ ": expected str instance, " ++ kind ++ " found")

/-- The name of a literal as it is shown. -/
def Shown.ofName : Value → Shown
  | .str s => .text s.shown
  | v => .other v.typeName (.ok "")

/-- The complaint about a value that should be a formula, given its description. -/
def notFormula (description : Except String String) : String :=
  match description with
  | .ok s => "Expected Formula, got " ++ s
  | .error complaint => complaint

/-- Items between round brackets, with a comma after a single one. -/
def tuple : List String → String
  | [x] => "(" ++ x ++ ",)"
  | xs => "(" ++ ", ".intercalate xs ++ ")"

mutual

/-- The value in a message. -/
def describe : Value → Except String String
  | .null => .ok "None"
  | .bool b => .ok (if b then "True" else "False")
  | .int n => .ok (toString n)
  | .str s => .ok s.quoted
  | .list xs => do return "[" ++ ", ".intercalate (← describeAll xs) ++ "]"
  | .dict fs => do return "\x7b" ++ ", ".intercalate (← describeFields fs) ++ "\x7d"
  | .atom x => do return "Atom(name=" ++ (← describe x) ++ ")"
  | .neg x => do return "Not(operand=" ++ (← describe x) ++ ")"
  | .bin op l r => do
    let l ← describe l
    let r ← describe r
    return "Binary(op=Connective." ++ op.name ++ ", left=" ++ l ++ ", right=" ++ r ++ ")"
  | .literal a p => do
    let a ← describe a
    let p ← describe p
    return "Literal(atom=" ++ a ++ ", polarity=" ++ p ++ ")"
  | .clause xs => do return "\x7b" ++ ", ".intercalate (← showAll xs) ++ "\x7d"
  | .clauseSet xs => do return ClauseSet.joined (← describeAll xs)
  | .sequent l r => do
    let l ← describeAll l
    let r ← describeAll r
    return "Sequent(antecedent=" ++ tuple l ++ ", succedent=" ++ tuple r ++ ")"

/-- The values of a list in a message. -/
def describeAll : List Value → Except String (List String)
  | [] => .ok []
  | x :: xs => do
    let s ← describe x
    return s :: (← describeAll xs)

/-- Named values in a message. -/
def describeFields : List (Codes × Value) → Except String (List String)
  | [] => .ok []
  | (k, x) :: fs => do
    let s ← describe x
    return (k.quoted ++ ": " ++ s) :: (← describeFields fs)

/-- The text of a value that should be a formula. -/
def formulaText : Value → Except String Shown
  | .atom (.str a) => .ok (.text a.shown)
  | .atom x => .ok (.other x.typeName (plain x))
  | .neg x => do return .text (← (← formulaText x).afterNot)
  | .bin op l r => do
    let l ← (← formulaText l).inline
    let r ← (← formulaText r).inline
    return .text ("(" ++ l ++ " " ++ op.symbol ++ " " ++ r ++ ")")
  | v => .error (notFormula (describe v))

/-- The value as it enters a larger text. -/
def plain : Value → Except String String
  | .str s => .ok s.shown
  | .atom x => (Shown.ofName x).alone
  | .neg x => do (← formulaText (.neg x)).alone
  | .bin op l r => do (← formulaText (.bin op l r)).alone
  | .literal a p => if p.isTrue then (Shown.ofName a).alone else (Shown.ofName a).afterNot
  | .sequent l r => do
    let l ← Shown.inRow 0 (← formulaTexts l)
    let r ← Shown.inRow 0 (← formulaTexts r)
    return Text.strip (", ".intercalate l ++ " |= " ++ ", ".intercalate r)
  | v => describe v

/-- The texts of values that should be formulas. -/
def formulaTexts : List Value → Except String (List Shown)
  | [] => .ok []
  | x :: xs => do
    let s ← formulaText x
    return s :: (← formulaTexts xs)

/-- The texts of the formulas of a clause. -/
def showAll : List Value → Except String (List String)
  | [] => .ok []
  | x :: xs => do
    let s ← (← formulaText x).alone
    return s :: (← showAll xs)

end

/-- The complaint about a value where a formula was expected. -/
def notFormulaMessage (v : Value) : String := notFormula v.describe

end PropProver.Value

namespace PropProver.Json

/-- A JSON value in a message. -/
def describe (x : Json) : String :=
  match (Value.ofJson x).describe with
  | .ok s | .error s => s

/-- A JSON value in a message, a text standing for itself. -/
def display : Json → String
  | .str s => s
  | x => x.describe

end PropProver.Json
