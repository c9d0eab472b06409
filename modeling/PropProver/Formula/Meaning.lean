import PropProver.Formula.Basic

/-!
# Truth

The usual reading of the connectives under an assignment of truth values to atoms.
-/

namespace PropProver

/-- An assignment gives each atom a truth value. -/
abbrev Assignment := String → Bool

/-- The truth value of two operands joined by a connective. -/
def Connective.eval : Connective → Bool → Bool → Bool
  | .and, a, b => a && b
  | .or, a, b => a || b
  | .imply, a, b => !a || b
  | .iff, a, b => a == b

namespace Formula

/-- The truth value of a formula under an assignment. -/
def eval (v : Assignment) : Formula → Bool
  | .atom a => v a
  | .neg x => !eval v x
  | .bin op l r => op.eval (eval v l) (eval v r)

/-- The formula is true under every assignment. -/
def Valid (f : Formula) : Prop := ∀ v, f.eval v = true

end Formula

/-- The truth value of a literal under an assignment. -/
def Literal.eval (v : Assignment) (l : Literal) : Bool := v l.atom == l.polarity

end PropProver
