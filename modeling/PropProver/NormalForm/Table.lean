import PropProver.Clause
import PropProver.Weight

/-!
# Expansion tables

Every formula is a literal or compound: a double negation, a binary formula or the negation of
one. A table says how a compound is replaced inside a clause: by its parts in the same clause, or
by one part in each of two copies of the clause. The classical table keeps the meaning; the
uniform table agrees with it on conjunction, disjunction and implication only.
-/

namespace PropProver

universe u

/-- Where a formula was due: a foreign value, or the negation of one. -/
inductive Fault (ι : Type u) where
  /-- A foreign value. -/
  | operand (value : ι)
  /-- The negation of a foreign value. -/
  | negation (value : ι)
  deriving DecidableEq, Repr

/-- A formula that is no literal, taken apart. -/
inductive Compound (ι : Type u) where
  /-- The negation of a negation. -/
  | doubleNegation (x : Tree ι)
  /-- A binary formula. -/
  | binary (op : Connective) (left right : Tree ι)
  /-- The negation of a binary formula. -/
  | negated (op : Connective) (left right : Tree ι)
  deriving DecidableEq, Repr

/-- The formula that was taken apart. -/
def Compound.toTree {ι : Type u} : Compound ι → Tree ι
  | .doubleNegation x => .neg (.neg x)
  | .binary op l r => .bin op l r
  | .negated op l r => .neg (.bin op l r)

/-- What a tree is for the tables. -/
inductive Tree.View (ι : Type u) where
  /-- A literal, which is not replaced. -/
  | literal (l : Literal)
  /-- A compound. -/
  | compound (c : Compound ι)
  /-- No formula. -/
  | faulty (f : Fault ι)
  deriving DecidableEq, Repr

/-- Sorts a tree by its root and by what a negation at its root stands before. -/
def Tree.view {ι : Type u} : Tree ι → Tree.View ι
  | .atom a => .literal ⟨a, true⟩
  | .neg (.atom a) => .literal ⟨a, false⟩
  | .neg (.neg x) => .compound (.doubleNegation x)
  | .neg (.bin op l r) => .compound (.negated op l r)
  | .neg (.foreign v) => .faulty (.negation v)
  | .bin op l r => .compound (.binary op l r)
  | .foreign v => .faulty (.operand v)

/-- The names of the expansions. -/
inductive Expansion.Rule where
  | doubleNegation | and | or | imply | iff | notAnd | notOr | notImply | notIff
  deriving DecidableEq, Repr

/-- The name of an expansion in writing. -/
def Expansion.Rule.name : Expansion.Rule → String
  | .doubleNegation => "double-negation"
  | .and => "and"
  | .or => "or"
  | .imply => "imply"
  | .iff => "iff"
  | .notAnd => "not-and"
  | .notOr => "not-or"
  | .notImply => "not-imply"
  | .notIff => "not-iff"

/-- How a compound is replaced in its clause. -/
inductive Expansion (ι : Type u) where
  /-- The part takes its place in the clause. -/
  | extend (rule : Expansion.Rule) (part : List (Tree ι))
  /-- The clause is doubled, and each copy gets one of the parts. -/
  | split (rule : Expansion.Rule) (first second : List (Tree ι))
  deriving DecidableEq, Repr

namespace Expansion

variable {ι : Type u}

/-- The name of the expansion. -/
def rule : Expansion ι → Rule
  | .extend r _ => r
  | .split r _ _ => r

/-- The parts, one for each clause that results. -/
def parts : Expansion ι → List (List (Tree ι))
  | .extend _ p => [p]
  | .split _ p q => [p, q]

/-- The clause is doubled. -/
def branches : Expansion ι → Bool
  | .extend _ _ => false
  | .split _ _ _ => true

end Expansion

/-- The expansion tables. -/
inductive Table where
  /-- The table that keeps the meaning. -/
  | classical
  /-- The table with simpler rows for negations and equivalences. -/
  | uniform
  deriving DecidableEq, Repr

namespace Table

variable {ι : Type u}

/-- The name of the table. -/
def name : Table → String
  | .classical => "classical"
  | .uniform => "uniform"

/-- The row for a binary formula. -/
def expandBinary (t : Table) (op : Connective) (l r : Tree ι) : Expansion ι :=
  match op, t with
  | .and, _ => .split .and [l] [r]
  | .or, _ => .extend .or [l, r]
  | .imply, _ => .extend .imply [.neg l, r]
  | .iff, .classical => .split .iff [.neg l, r] [l, .neg r]
  | .iff, .uniform => .split .iff [l] [.neg r]

/-- The row for the negation of a binary formula. -/
def expandNegated (t : Table) (op : Connective) (l r : Tree ι) : Expansion ι :=
  match op, t with
  | .and, .classical => .extend .notAnd [.neg l, .neg r]
  | .or, .classical => .split .notOr [.neg l] [.neg r]
  | .imply, .classical => .split .notImply [l] [.neg r]
  | .iff, .classical => .split .notIff [l, r] [.neg l, .neg r]
  | .and, .uniform => .split .notAnd [.neg l] [.neg r]
  | .or, .uniform => .extend .notOr [.neg l, .neg r]
  | .imply, .uniform => .extend .notImply [l, r]
  | .iff, .uniform => .split .notIff [.neg l] [.neg r]

/-- How the table replaces a compound. -/
def expand (t : Table) : Compound ι → Expansion ι
  | .doubleNegation x => .extend .doubleNegation [x]
  | .binary op l r => t.expandBinary op l r
  | .negated op l r => t.expandNegated op l r

/-- How the table replaces a formula; literals are not replaced. -/
def expand? (t : Table) (x : Tree ι) : Except (Fault ι) (Option (Expansion ι)) :=
  match x.view with
  | .literal _ => .ok none
  | .compound c => .ok (some (t.expand c))
  | .faulty f => .error f

end Table

/-! ### The weight of a formula -/

/-- A weight that every row of both tables lowers: a negation counts once, a binary connective
twice. -/
def Tree.weight {ι : Type u} : Tree ι → Nat
  | .atom _ => 0
  | .neg x => 1 + weight x
  | .bin _ l r => 2 + weight l + weight r
  | .foreign _ => 0

/-- Each part of an expansion weighs less than the formula that it replaces. -/
theorem Table.weight_part_lt {ι : Type u} (t : Table) (c : Compound ι) :
    ∀ part ∈ (t.expand c).parts, Weight.total Tree.weight part < c.toTree.weight := by
  rcases c with x | ⟨op, l, r⟩ | ⟨op, l, r⟩
  · simp [Table.expand, Expansion.parts, Compound.toTree, Tree.weight]
    omega
  · cases op <;> cases t <;>
      simp [Table.expand, Table.expandBinary, Expansion.parts, Compound.toTree, Tree.weight] <;>
      omega
  · cases op <;> cases t <;>
      simp [Table.expand, Table.expandNegated, Expansion.parts, Compound.toTree, Tree.weight] <;>
      omega

end PropProver
