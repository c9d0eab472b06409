import PropProver.Value.Basic
import PropProver.Json.Writer

/-!
# Values as JSON

A plain value is written as it is. An object of the logic becomes an object whose first field
`_type` names its kind and whose other fields hold its parts, in a fixed order.
-/

namespace PropProver.Value

/-- The name of the field that tells the kind of an object. -/
def kindField : String := "_type"

/-- An object of a kind with its parts. -/
def tagged (kind : String) (parts : List (Codes × Wire)) : Wire :=
  .obj ((kindField, .str kind) :: parts)

mutual

/-- The form in which a value is written. -/
def toWire : Value → Wire
  | .null => .null
  | .bool b => .bool b
  | .int n => .int n
  | .str s => .str s
  | .list xs => .arr (toWireItems xs)
  | .dict fs => .obj (toWireFields fs)
  | .atom x => tagged "Atom" [("name", toWire x)]
  | .neg x => tagged "Not" [("operand", toWire x)]
  | .bin op l r =>
    tagged "Binary" [("op", .str op.name), ("left", toWire l), ("right", toWire r)]
  | .literal a p => tagged "Literal" [("atom", toWire a), ("polarity", toWire p)]
  | .clause xs => tagged "Clause" [("formulas", .arr (toWireItems xs))]
  | .clauseSet xs => tagged "ClauseSet" [("clauses", .arr (toWireItems xs))]
  | .sequent l r =>
    tagged "Sequent" [("antecedent", .arr (toWireItems l)), ("succedent", .arr (toWireItems r))]

/-- The forms of the values of a list. -/
def toWireItems : List Value → List Wire
  | [] => []
  | x :: xs => toWire x :: toWireItems xs

/-- The forms of named values. -/
def toWireFields : List (Codes × Value) → List (Codes × Wire)
  | [] => []
  | (k, x) :: fs => (k, toWire x) :: toWireFields fs

end

/-- A value as a JSON text. -/
def jsonText (layout : Json.Layout) (v : Value) : String := v.toWire.text layout

end PropProver.Value
