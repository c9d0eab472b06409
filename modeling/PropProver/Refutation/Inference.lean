import PropProver.Literal.Set
import PropProver.Position

/-!
# Inferences between clauses

Clauses are sets of literals. Resolution takes two clauses and cancels a literal of the first
against its complement in the second; subsumption lets a clause remove every other clause that
contains it. The members of the search are held in a `State`: clauses that were processed, and
clauses that wait.
-/

namespace PropProver

/-- An inference that was made. -/
structure Application where
  /-- The name of the rule. -/
  rule : String
  /-- The clauses that the rule was applied to. -/
  parents : List LiteralSet
  /-- The clauses that it gives. -/
  generated : List LiteralSet := []
  /-- The clauses that it removes. -/
  deleted : List LiteralSet := []
  /-- The atom that it cancels, for rules that work on atoms. -/
  atom : Option String := none
  deriving DecidableEq

namespace Application

/-- An inference in writing: what it gives, or else what it removes. -/
def text (a : Application) : String :=
  a.rule ++ ": " ++ LiteralSet.listText a.parents ++
    if a.generated.isEmpty then " removes " ++ LiteralSet.listText a.deleted
    else " -> " ++ LiteralSet.listText a.generated

end Application

namespace LiteralSet

/-- The resolvents of two clauses, one for each literal of the first whose complement is in the
second, in the order of these literals and without repeats. -/
def resolvents (c d : LiteralSet) : List LiteralSet :=
  ((c.toList.filter fun l => decide (l.complement ∈ d)).map fun l =>
    c.erase l ∪ d.erase l.complement).eraseDups

end LiteralSet

namespace Application

/-- All resolvents of two clauses, if there are any. -/
def resolution? (c d : LiteralSet) : Option Application :=
  match LiteralSet.resolvents c d with
  | [] => none
  | rs => some { rule := "resolution", parents := [c, d], generated := rs }

/-- The removal of the clauses that contain a clause, if there are any among those given. -/
def subsumption? (c : LiteralSet) (others : List LiteralSet) : Option Application :=
  match others.filter fun d => decide (c ⊆ d) with
  | [] => none
  | ds => some { rule := "subsumption", parents := [c], deleted := ds }

end Application

/-- A search between two steps. -/
structure State where
  /-- Clauses among which all inferences were made. -/
  processed : List LiteralSet
  /-- Clauses that wait, the oldest first. -/
  unprocessed : List LiteralSet
  deriving DecidableEq

namespace State

/-- All clauses of the search. -/
def all (s : State) : List LiteralSet := s.processed ++ s.unprocessed

/-- The oldest waiting clause, and the search without it. -/
def next? (s : State) : Option (LiteralSet × State) :=
  match s.unprocessed with
  | [] => none
  | given :: waiting => some (given, { s with unprocessed := waiting })

/-- The search with one more processed clause. -/
def addProcessed (s : State) (c : LiteralSet) : State :=
  { s with processed := s.processed ++ [c] }

/-- The search with one more waiting clause. -/
def addUnprocessed (s : State) (c : LiteralSet) : State :=
  { s with unprocessed := s.unprocessed ++ [c] }

/-- Looks up a processed clause. A position behind the last clause is no fault, and has none. -/
def lookup (s : State) (i : Int) : Except Position.Fault (Option LiteralSet) :=
  if (s.processed.length : Int) ≤ i then .ok none else some <$> Position.find s.processed i

/-- Resolution between the processed clauses at two positions. Nothing is done for any other
number of positions, nor if one of the positions lies behind the last clause. -/
def resolution (s : State) : List Int → Except Position.Fault (Option Application)
  | [i, j] =>
    match s.lookup i, s.lookup j with
    | .ok none, _ | _, .ok none => .ok none
    | .error f, _ | _, .error f => .error f
    | .ok (some c), .ok (some d) => .ok (Application.resolution? c d)
  | _ => .ok none

/-- Subsumption by the processed clause at a position. A position that counts from the back is
not recognised as the clause's own, so that the clause removes itself as well. -/
def subsumption (s : State) : List Int → Except Position.Fault (Option Application)
  | [i] =>
    match s.lookup i with
    | .ok (some c) =>
      .ok (Application.subsumption? c
        (if 0 ≤ i then s.processed.eraseIdx i.toNat else s.processed))
    | .ok none => .ok none
    | .error f => .error f
  | _ => .ok none

end State

end PropProver
