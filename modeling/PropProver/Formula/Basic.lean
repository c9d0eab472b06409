import PropProver.Literal.Basic

/-!
# Formulas

Formulas are built from atoms by negation and four binary connectives. Trees that come from
outside may hold other things in the place of a subformula, so the tree type takes the type `ι`
of such foreign leaves; a `Formula` is a tree without any. `Tree.check` is the passage from one
to the other: it gives the formula that a tree is, or the first foreign leaf from the left.
-/

namespace PropProver

universe u

/-- The binary connectives. -/
inductive Connective where
  /-- Conjunction. -/
  | and
  /-- Disjunction. -/
  | or
  /-- Implication. -/
  | imply
  /-- Equivalence. -/
  | iff
  deriving DecidableEq, Repr

namespace Connective

/-- The connective as it is written in a formula. -/
def symbol : Connective → String
  | .and => "&"
  | .or => "|"
  | .imply => "=>"
  | .iff => "<=>"

/-- The connective's name. -/
def name : Connective → String
  | .and => "AND"
  | .or => "OR"
  | .imply => "IMPLY"
  | .iff => "IFF"

/-- The connective with a given name. -/
def ofName? : String → Option Connective
  | "AND" => some .and
  | "OR" => some .or
  | "IMPLY" => some .imply
  | "IFF" => some .iff
  | _ => none

/-- How tightly the connective binds: conjunction most, equivalence least. -/
def precedence : Connective → Nat
  | .iff => 2
  | .imply => 3
  | .or => 4
  | .and => 5

end Connective

/-- A formula tree whose leaves are atoms or foreign values of type `ι`. -/
inductive Tree (ι : Type u) where
  /-- An atom. -/
  | atom (name : String)
  /-- A negation. -/
  | neg (operand : Tree ι)
  /-- Two operands joined by a connective. -/
  | bin (op : Connective) (left right : Tree ι)
  /-- Something that is no formula. -/
  | foreign (value : ι)
  deriving DecidableEq, Repr

/-- A formula: a tree without foreign leaves. -/
abbrev Formula := Tree Empty

namespace Tree

variable {ι : Type u}

/-- The formula that a tree is, or else its first foreign leaf from the left. -/
def check : Tree ι → Except ι Formula
  | .atom a => .ok (.atom a)
  | .neg x => do return .neg (← check x)
  | .bin op l r => do
    let l ← check l
    let r ← check r
    return .bin op l r
  | .foreign v => .error v

/-- The tree is a foreign value. -/
def isForeign : Tree ι → Bool
  | .foreign _ => true
  | _ => false

theorem isForeign_formula (f : Formula) : f.isForeign = false := by
  cases f with
  | foreign v => exact v.elim
  | _ => rfl

/-- The tree is an atom. -/
def isAtom : Tree ι → Bool
  | .atom _ => true
  | _ => false

/-- The literal that a tree is: an atom or the negation of an atom. -/
def literal? : Tree ι → Option Literal
  | .atom a => some ⟨a, true⟩
  | .neg (.atom a) => some ⟨a, false⟩
  | _ => none

/-- The tree is a literal. -/
def isLiteral (t : Tree ι) : Bool := t.literal?.isSome

/-- The number of negations and binary connectives. -/
def connectives : Tree ι → Nat
  | .neg x => 1 + connectives x
  | .bin _ l r => 1 + connectives l + connectives r
  | _ => 0

/-- The most negations and binary connectives on the way down to a leaf. -/
def depth : Tree ι → Nat
  | .neg x => 1 + depth x
  | .bin _ l r => 1 + max (depth l) (depth r)
  | _ => 0

/-- The names of the atoms from left to right, repeats included. -/
def names : Tree ι → List String
  | .atom a => [a]
  | .neg x => names x
  | .bin _ l r => names l ++ names r
  | .foreign _ => []

/-- The names of the atoms in order of first occurrence. -/
def atoms (t : Tree ι) : List String := t.names.eraseDups

end Tree

/-- The tree that a literal stands for. -/
def Literal.toTree {ι : Type u} (l : Literal) : Tree ι :=
  if l.polarity then .atom l.atom else .neg (.atom l.atom)

@[simp] theorem Literal.literal?_toTree {ι : Type u} (l : Literal) :
    (l.toTree : Tree ι).literal? = some l := by
  obtain ⟨a, p⟩ := l
  cases p <;> rfl

namespace Formula

/-- A formula in writing: every binary connective stands between brackets, a negation takes none. -/
def text : Formula → String
  | .atom a => a
  | .neg x => "!" ++ text x
  | .bin op l r => "(" ++ text l ++ " " ++ op.symbol ++ " " ++ text r ++ ")"

/-- Formulas side by side, separated by commas. -/
def listText (fs : List Formula) : String := ", ".intercalate (fs.map text)

end Formula

end PropProver
