import PropProver.Formula.Basic

/-!
# Clauses

A clause is a list of formulas read as their disjunction; a clause set is a list of clauses read
as their conjunction. The members of a clause are formulas at least at their root, which
`Clause.ofTrees` checks from the left.
-/

namespace PropProver

universe u

/-- A disjunction of formulas, in order and with repeats. -/
abbrev Clause (ι : Type u) := List (Tree ι)

namespace Clause

variable {ι : Type u}

/-- The clause with the given members, or the first member that is no formula. -/
def ofTrees : List (Tree ι) → Except ι (Clause ι)
  | [] => .ok []
  | .foreign v :: _ => .error v
  | t :: ts => do return t :: (← ofTrees ts)

/-- The clause with further members after its own. -/
def extend (c : Clause ι) (ts : List (Tree ι)) : Except ι (Clause ι) := do
  return c ++ (← ofTrees ts)

/-- Every member is a literal. -/
def isNormal (c : Clause ι) : Bool := c.all Tree.isLiteral

/-- The members as literals in clause order, or the first member that is none. -/
def literals : Clause ι → Except (Tree ι) (List Literal)
  | [] => .ok []
  | t :: ts =>
    match t.literal? with
    | some l => do return l :: (← literals ts)
    | none => .error t

/-- The members as formulas, or the first foreign leaf among them. -/
def check (c : Clause ι) : Except ι (List Formula) := c.mapM Tree.check

/-- A clause of formulas: its members between braces. -/
def text (c : List Formula) : String := "\x7b" ++ Formula.listText c ++ "\x7d"

end Clause

/-- A conjunction of clauses. -/
abbrev ClauseSet (ι : Type u) := List (Clause ι)

namespace ClauseSet

variable {ι : Type u}

/-- The clauses as lists of literals, or the first member of a clause that is no literal. -/
def literals (cs : ClauseSet ι) : Except (Tree ι) (List (List Literal)) := cs.mapM Clause.literals

/-- The names of the atoms of clauses of formulas, in order of first occurrence. -/
def atoms (cs : List (List Formula)) : List String := (cs.flatten.flatMap Tree.names).eraseDups

/-- Clauses side by side, joined by `&`; the empty conjunction is written as empty braces. -/
def joined (clauses : List String) : String :=
  if clauses.isEmpty then "\x7b\x7d" else " & ".intercalate clauses

/-- A clause set of formulas in writing. -/
def text (cs : List (List Formula)) : String := joined (cs.map Clause.text)

end ClauseSet

end PropProver
