import PropProver.Refutation.Inference

/-!
# Saturation

A set of clauses is closed under resolution, one given clause at a time. The oldest waiting clause
is taken. If it is empty, the set is contradictory. If a processed clause is contained in it, it
is dropped. Otherwise it removes the processed clauses that contain it, joins the processed ones,
and is resolved with each of the others in turn. A resolvent that is a tautology or contains a
clause of the search is dropped; the others wait, unless one of them is empty, which ends the
search.

Over `n` atoms there are `3 ^ n` clauses without complementary literals, so this many given
clauses are enough for a search without a limit.
-/

namespace PropProver.Saturation

/-- What happens in a search, in order. -/
inductive Event where
  /-- A clause of the input holds complementary literals and is left out. -/
  | droppedTautology (c : LiteralSet)
  /-- The given clause contains a processed clause and is dropped. -/
  | subsumed (given : LiteralSet)
  /-- The given clause is resolved with the processed clauses. -/
  | given (given : LiteralSet)
  /-- An inference is made. -/
  | applied (a : Application)
  deriving DecidableEq

/-- The inference of an event. -/
def Event.application? : Event → Option Application
  | .applied a => some a
  | _ => none

/-- The result of a search that has ended. -/
structure Outcome where
  /-- The empty clause was found. -/
  unsatisfiable : Bool
  /-- The clauses at the end. -/
  final : State
  /-- The number of given clauses. -/
  given : Nat
  /-- What happened. -/
  events : List Event
  deriving DecidableEq

/-- The inferences of the search. -/
def Outcome.applications (o : Outcome) : List Application := o.events.filterMap Event.application?

/-! ### One given clause -/

/-- The resolvents that are neither tautologies nor contain a clause that is there already: a
processed one, a waiting one or an earlier one of them. -/
def keep (processed waiting : List LiteralSet) : List LiteralSet → List LiteralSet
  | [] => []
  | r :: rs =>
    if r.isTautology || r.isSubsumedBy processed || r.isSubsumedBy waiting then
      keep processed waiting rs
    else r :: keep processed (waiting ++ [r]) rs

/-- The inferences of a given clause with its partners. -/
structure Pass where
  /-- The empty clause was found. -/
  closed : Bool
  /-- The clauses that wait afterwards. -/
  unprocessed : List LiteralSet
  /-- The inferences. -/
  applications : List Application
  deriving DecidableEq

/-- Resolves each partner in turn with the given clause. -/
def resolveWith (given : LiteralSet) (processed unprocessed : List LiteralSet) :
    List LiteralSet → Pass
  | [] => ⟨false, unprocessed, []⟩
  | partner :: partners =>
    match keep processed unprocessed (partner.resolvents given) with
    | [] => resolveWith given processed unprocessed partners
    | kept =>
      let a : Application :=
        { rule := "resolution", parents := [partner, given], generated := kept }
      if kept.any LiteralSet.isEmpty then ⟨true, unprocessed, [a]⟩
      else
        let rest := resolveWith given processed (unprocessed ++ kept) partners
        { rest with applications := a :: rest.applications }

/-- The search after one given clause. -/
structure Turn where
  /-- The empty clause was given or found. -/
  closed : Bool
  /-- The clauses afterwards. -/
  state : State
  /-- What happened. -/
  events : List Event
  deriving DecidableEq

/-- Treats a given clause, which has been taken from the waiting ones. -/
def turn (given : LiteralSet) (s : State) : Turn :=
  if given.isEmpty then ⟨true, s, []⟩
  else if given.isSubsumedBy s.processed then ⟨false, s, [.subsumed given]⟩
  else
    let partners := s.processed.filter fun c => !decide (given ⊆ c)
    let removal := (Application.subsumption? given s.processed).toList.map Event.applied
    let processed := partners ++ [given]
    let pass := resolveWith given processed s.unprocessed partners
    ⟨pass.closed, ⟨processed, pass.unprocessed⟩,
      removal ++ .given given :: pass.applications.map .applied⟩

/-! ### The search -/

/-- A search after a number of given clauses. -/
inductive Progress where
  /-- It has ended. -/
  | ended (o : Outcome)
  /-- Clauses still wait. -/
  | paused (s : State)
  deriving DecidableEq

/-- The search with one more given clause and its events at the beginning. -/
def Progress.after (events : List Event) : Progress → Progress
  | .ended o => .ended { o with given := 1 + o.given, events := events ++ o.events }
  | .paused s => .paused s

/-- Treats given clauses until the search ends, but no more of them than a number says. -/
def advance (n : Nat) (s : State) : Progress :=
  match s.next?, n with
  | none, _ => .ended ⟨false, s, 0, []⟩
  | some _, 0 => .paused s
  | some (given, rest), n + 1 =>
    let t := turn given rest
    if t.closed then .ended ⟨true, t.state, 1, t.events⟩
    else (advance n t.state).after t.events

/-- The clauses that a search starts with: the input without tautologies and repeats. -/
def initial (clauses : List LiteralSet) : List LiteralSet :=
  (clauses.filter fun c => !c.isTautology).eraseDups

/-- The tautologies that are left out at the start. -/
def dropped (clauses : List LiteralSet) : List Event :=
  (clauses.filter LiteralSet.isTautology).map .droppedTautology

/-- The names of the atoms of clauses, each once. -/
def atoms (clauses : List LiteralSet) : List String :=
  (clauses.flatMap fun c => c.toList.map Literal.atom).eraseDups

/-- A search that was not finished within its limit. -/
structure LimitReached where
  /-- The greatest number of given clauses. -/
  limit : Int
  /-- How many clauses were processed. -/
  processed : Nat
  /-- How many clauses were waiting. -/
  unprocessed : Nat
  deriving DecidableEq, Repr

/-- The message for an unfinished search, given the limit in writing. -/
def LimitReached.message (e : LimitReached) (limit : String) : String :=
  "No verdict after " ++ limit ++ " given clauses (" ++ toString e.processed ++ " processed, " ++
    toString e.unprocessed ++ " unprocessed)"

/-- Decides whether clauses contradict each other, with a limit on the number of given clauses or
without one. -/
def run (limit : Option Int) (clauses : List LiteralSet) : Except LimitReached Outcome :=
  let bound := limit.getD (Nat.pow 3 (atoms clauses).length)
  match advance bound.toNat ⟨[], initial clauses⟩ with
  | .ended o => .ok { o with events := dropped clauses ++ o.events }
  | .paused s => .error ⟨bound, s.processed.length, s.unprocessed.length⟩

end PropProver.Saturation
