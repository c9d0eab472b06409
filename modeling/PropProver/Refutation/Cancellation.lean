import PropProver.Refutation.Inference

/-!
# Cancellation

The atoms of all literals are put into two pools, one for each polarity, without regard to the
clauses that they come from. In rounds, atoms that are in both pools are taken out of both, and
repeats within a pool are given up, until a round leaves the pools as they are. The clauses count
as contradictory if both pools end empty.

Since the clauses are forgotten, satisfiable clauses may count as contradictory too, such as the
one clause of an atom and its negation.
-/

namespace PropProver.Cancellation

/-- The atoms that occur positively and those that occur negatively. -/
structure Pools where
  /-- Atoms of positive literals. -/
  positive : List String
  /-- Atoms of negative literals. -/
  negative : List String
  deriving DecidableEq, Repr

/-- The result of a cancellation. -/
structure Outcome where
  /-- The pools at the start. -/
  initial : Pools
  /-- The atoms that were cancelled, in order. -/
  cancelled : List String
  /-- The pools at the end. -/
  final : Pools
  deriving DecidableEq, Repr

/-- The pools are both empty at the end. -/
def Outcome.unsatisfiable (o : Outcome) : Bool :=
  o.final.positive.isEmpty && o.final.negative.isEmpty

/-- The cancellation of an atom. -/
def cancel (a : String) : Application :=
  { rule := "cancellation"
    parents := [.ofList [⟨a, true⟩], .ofList [⟨a, false⟩]]
    atom := some a }

/-- The inferences of a cancellation. -/
def Outcome.applications (o : Outcome) : List Application := o.cancelled.map cancel

namespace Pools

/-- The pools of literals. -/
def ofLiterals (ls : List Literal) : Pools where
  positive := (ls.filter (·.polarity)).map Literal.atom
  negative := (ls.filter (!·.polarity)).map Literal.atom

/-- How many atoms are in the pools, repeats included. -/
def size (p : Pools) : Nat := p.positive.length + p.negative.length

/-- The atoms of both pools, each once. -/
def common (p : Pools) : List String := p.positive.eraseDups.filter (· ∈ p.negative)

/-- The pools without some atoms. -/
def without (p : Pools) (as : List String) : Pools :=
  ⟨p.positive.filter (· ∉ as), p.negative.filter (· ∉ as)⟩

/-- The pools without repeats. -/
def collapse (p : Pools) : Pools := ⟨p.positive.eraseDups, p.negative.eraseDups⟩

/-- The pools after one round. -/
def round (p : Pools) : Pools := (p.without p.common).collapse

/-- Rounds until one leaves the pools as they are, with the atoms that are cancelled. -/
def settle (p : Pools) : List String × Pools :=
  if p.round.size < p.size then
    let (later, last) := settle p.round
    (p.common ++ later, last)
  else (p.common, p.round)
  termination_by p.size

end Pools

/-- Cancels the literals of clauses. -/
def run (clauses : List (List Literal)) : Outcome :=
  let p := Pools.ofLiterals clauses.flatten
  let (cancelled, final) := p.settle
  ⟨p, cancelled, final⟩

end PropProver.Cancellation
