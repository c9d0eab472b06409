import PropProver.Formula.Basic
import PropProver.Position
import PropProver.Weight
import PropProver.Text.Blank

/-!
# Sequents

A sequent says that the conjunction of the formulas on its left entails the disjunction of those
on its right.
-/

namespace PropProver

universe u

/-- Formulas on the left and on the right. -/
structure Sequent (ι : Type u) where
  /-- The formulas on the left, the antecedent. -/
  antecedent : List (Tree ι) := []
  /-- The formulas on the right, the succedent. -/
  succedent : List (Tree ι) := []
  deriving DecidableEq, Repr

/-- The sides of a sequent. -/
inductive Side where
  /-- The antecedent. -/
  | left
  /-- The succedent. -/
  | right
  deriving DecidableEq, Repr

/-- The name of a side. -/
def Side.name : Side → String
  | .left => "left"
  | .right => "right"

namespace Sequent

variable {ι : Type u}

/-- The formulas of one side. -/
def on (s : Sequent ι) : Side → List (Tree ι)
  | .left => s.antecedent
  | .right => s.succedent

/-- The sequent with other formulas on one side. -/
def replace (s : Sequent ι) (side : Side) (ts : List (Tree ι)) : Sequent ι :=
  match side with
  | .left => ⟨ts, s.succedent⟩
  | .right => ⟨s.antecedent, ts⟩

/-- The sequent with further formulas at the end of one side. -/
def add (s : Sequent ι) (side : Side) (ts : List (Tree ι)) : Sequent ι :=
  s.replace side (s.on side ++ ts)

/-- The sequent without the formula at a position of one side. -/
def remove (s : Sequent ι) (side : Side) (i : Int) : Sequent ι :=
  s.replace side (Position.remove (s.on side) i)

/-- The sequent of formulas that this one is, or its first foreign leaf. -/
def check (s : Sequent ι) : Except ι (Sequent Empty) := do
  let l ← s.antecedent.mapM Tree.check
  let r ← s.succedent.mapM Tree.check
  return ⟨l, r⟩

/-- All formulas are atoms. -/
def isAxiom (s : Sequent ι) : Bool := (s.antecedent ++ s.succedent).all Tree.isAtom

/-- The name of a tree that is an atom. -/
def name? : Tree ι → Option String
  | .atom a => some a
  | _ => none

/-- Some atom stands on both sides. -/
def isClosed (s : Sequent ι) : Bool :=
  (s.succedent.filterMap name?).any fun a => decide (a ∈ s.antecedent.filterMap name?)

/-- The number of connectives on both sides. -/
def connectives (s : Sequent ι) : Nat :=
  Weight.total Tree.connectives (s.antecedent ++ s.succedent)

/-- A sequent in writing. -/
def text (s : Sequent Empty) : String :=
  Text.strip (Formula.listText s.antecedent ++ " |= " ++ Formula.listText s.succedent)

end Sequent

end PropProver
