import PropProver.NormalForm.Basic
import PropProver.Refutation.Saturation
import PropProver.Refutation.Cancellation

/-!
# Refutation

A formula is a theorem if its negation is contradictory. The negation is brought into normal form
with one of the tables, and a strategy decides whether the clauses contradict each other:
saturation, which is sound and complete with the classical table, or cancellation, which only
counts literals.
-/

namespace PropProver

universe u

/-- How clauses are tested for contradiction. -/
inductive Strategy where
  /-- Closes the clauses under resolution. -/
  | saturation
  /-- Cancels atoms that occur with both polarities. -/
  | cancellation
  deriving DecidableEq, Repr

/-- The name of the strategy. -/
def Strategy.name : Strategy → String
  | .saturation => "saturation"
  | .cancellation => "cancellation"

/-- The result of a strategy. -/
inductive Outcome where
  /-- Of saturation. -/
  | saturation (o : Saturation.Outcome)
  /-- Of cancellation. -/
  | cancellation (o : Cancellation.Outcome)
  deriving DecidableEq

namespace Outcome

/-- The clauses were found contradictory. -/
def unsatisfiable : Outcome → Bool
  | .saturation o => o.unsatisfiable
  | .cancellation o => o.unsatisfiable

/-- The inferences that were made. -/
def applications : Outcome → List Application
  | .saturation o => o.applications
  | .cancellation o => o.applications

end Outcome

/-- Tests clauses of literals for contradiction; the limit is for saturation. -/
def Strategy.run (s : Strategy) (limit : Option Int) (clauses : List (List Literal)) :
    Except Saturation.LimitReached Outcome :=
  match s with
  | .saturation => .saturation <$> Saturation.run limit (clauses.map .ofList)
  | .cancellation => .ok (.cancellation (Cancellation.run clauses))

/-- A refutation that has come to a verdict. -/
structure Refutation (ι : Type u) where
  /-- The strategy in use. -/
  strategy : Strategy
  /-- The table in use. -/
  table : Table
  /-- The normal form of the negated formula. -/
  normalForm : NormalForm ι
  /-- What the strategy found. -/
  outcome : Outcome
  deriving DecidableEq

namespace Refutation

variable {ι : Type u}

/-- The formula is a theorem. -/
def isTheorem (r : Refutation ι) : Bool := r.outcome.unsatisfiable

/-- The inferences that were made. -/
def steps (r : Refutation ι) : List Application := r.outcome.applications

/-- The inferences in writing, numbered from one in two columns. -/
def stepTexts (r : Refutation ι) : List String :=
  r.steps.zipIdx.map fun (a, i) =>
    let n := toString (i + 1)
    (if n.length < 2 then " " ++ n else n) ++ ". " ++ a.text

/-- Why there is no verdict. -/
inductive Error (ι : Type u) where
  /-- There is no normal form. -/
  | normalForm (e : NormalForm.Error ι)
  /-- The search was not finished. -/
  | limit (e : Saturation.LimitReached)
  deriving DecidableEq, Repr

/-- Decides whether a tree is a theorem. -/
def ofTree (s : Strategy) (t : Table) (limit : Option Int) (x : Tree ι) :
    Except (Error ι) (Refutation ι) :=
  match x with
  | .foreign v => .error (.normalForm (.notFormula v))
  | _ =>
    match NormalForm.ofTree t (.neg x) with
    | .error e => .error (.normalForm e)
    | .ok n =>
      match s.run limit n.clauses with
      | .error e => .error (.limit e)
      | .ok o => .ok ⟨s, t, n, o⟩

end Refutation

/-- Decides whether a formula is a theorem. -/
def Formula.refute (s : Strategy) (t : Table) (limit : Option Int) (f : Formula) :
    Except Saturation.LimitReached (Refutation Empty) :=
  match Refutation.ofTree s t limit f with
  | .ok r => .ok r
  | .error (.limit e) => .error e
  | .error (.normalForm (.notFormula v)) => v.elim
  | .error (.normalForm (.fault (.operand v))) => v.elim
  | .error (.normalForm (.fault (.negation v))) => v.elim

end PropProver
