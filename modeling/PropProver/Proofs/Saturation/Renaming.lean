import PropProver.Proofs.Repeats
import PropProver.Proofs.Resolution.Renaming
import PropProver.Proofs.Saturation.Bound
import PropProver.Proofs.Saturation.Derivation

/-!
# Renaming the clauses of a search

What a search finds does not depend on how the atoms are called, nor on which of their literals
count as positive: the search among renamed clauses makes the same steps with renamed clauses, one
for one, and comes to the renamed result (`run_saturation_renamed`).

The given clauses are taken by age, so the order of literals comes in at one place only, the order
of the resolvents of two clauses. It makes no difference since tautologies are not kept, and a
resolvent that is none has no others beside it (`keep_resolvents_clause`). From there on every part
of the search is followed by induction over its own recursion.
-/

namespace PropProver

namespace Renaming

open LiteralSet Saturation

variable (r : Renaming)

/-! ### The parts of a search -/

/-- The inference with renamed clauses. -/
def application (a : Application) : Application where
  rule := a.rule
  parents := a.parents.map r.clause
  generated := a.generated.map r.clause
  deleted := a.deleted.map r.clause
  atom := a.atom.map r.atom

/-- The state with renamed clauses. -/
def state (s : State) : State := ⟨s.processed.map r.clause, s.unprocessed.map r.clause⟩

/-- The event with renamed clauses. -/
def event : Event → Event
  | .droppedTautology c => .droppedTautology (r.clause c)
  | .subsumed c => .subsumed (r.clause c)
  | .given c => .given (r.clause c)
  | .applied a => .applied (r.application a)

/-- The inferences of a given clause, renamed. -/
def pass (p : Pass) : Pass :=
  ⟨p.closed, p.unprocessed.map r.clause, p.applications.map r.application⟩

/-- The search after one given clause, renamed. -/
def turn (t : Turn) : Turn := ⟨t.closed, r.state t.state, t.events.map r.event⟩

/-- The result of a search, renamed: the verdict and the number of given clauses stay. -/
def outcome (o : Saturation.Outcome) : Saturation.Outcome :=
  ⟨o.unsatisfiable, r.state o.final, o.given, o.events.map r.event⟩

/-- The search after a number of given clauses, renamed. -/
def progress : Progress → Progress
  | .ended o => .ended (r.outcome o)
  | .paused s => .paused (r.state s)

/-- The inferences of a renamed result are the inferences, renamed. -/
theorem applications_outcome (o : Saturation.Outcome) :
    (r.outcome o).applications = o.applications.map r.application := by
  simp only [Saturation.Outcome.applications, outcome, List.filterMap_map, List.map_filterMap]
  refine List.filterMap_congr fun e _ => ?_
  cases e <;> rfl

/-! ### One given clause -/

variable {r} {given : LiteralSet} {processed waiting partners : List LiteralSet} {s : State}

theorem keep_map (rs : List LiteralSet) :
    keep (processed.map r.clause) (waiting.map r.clause) (rs.map r.clause) =
      (keep processed waiting rs).map r.clause := by
  induction rs generalizing waiting with
  | nil => rfl
  | cons x rs ih =>
    rw [List.map_cons, keep, keep, isTautology_clause, isSubsumedBy_clause, isSubsumedBy_clause]
    split
    · exact ih
    · rw [List.map_cons, ← ih, List.map_append]
      rfl

/-- The resolvents that are kept are renamed with the clauses, although the list of all resolvents
is not. -/
theorem keep_resolvents_clause (c d : LiteralSet) :
    keep (processed.map r.clause) (waiting.map r.clause) (resolvents (r.clause c) (r.clause d)) =
      (keep processed waiting (resolvents c d)).map r.clause := by
  by_cases h : ∃ y ∈ resolvents c d, y.isTautology = false
  · obtain ⟨y, hy, ht⟩ := h
    rw [resolvents_clause hy ht, keep_map]
  · have hall : ∀ y ∈ resolvents c d, y.isTautology = true := by
      intro y hy
      by_contra ht
      exact h ⟨y, hy, Bool.not_eq_true _ ▸ ht⟩
    have hall' : ∀ x ∈ resolvents (r.clause c) (r.clause d), x.isTautology = true := by
      intro x hx
      obtain ⟨y, hy, rfl⟩ := mem_resolvents_clause.1 hx
      rw [isTautology_clause, hall y hy]
    rw [keep_eq_nil hall, keep_eq_nil hall', List.map_nil]

theorem any_isEmpty_map (cs : List LiteralSet) :
    (cs.map r.clause).any LiteralSet.isEmpty = cs.any LiteralSet.isEmpty := by
  simp [List.any_map, Function.comp_def]

/-- The inferences of a renamed clause are those of the clause, renamed. -/
theorem resolveWith_clause :
    resolveWith (r.clause given) (processed.map r.clause) (waiting.map r.clause)
        (partners.map r.clause) =
      r.pass (resolveWith given processed waiting partners) := by
  induction partners generalizing waiting with
  | nil => rfl
  | cons p partners ih =>
    rw [List.map_cons, resolveWith, resolveWith, keep_resolvents_clause]
    cases hkeep : keep processed waiting (p.resolvents given) with
    | nil => exact ih
    | cons x xs =>
      simp only [List.map_cons]
      rw [← List.map_cons, any_isEmpty_map]
      split
      · rfl
      · rw [← List.map_append, ih]
        rfl

theorem remaining_clause (given : LiteralSet) (s : State) :
    remaining (r.clause given) (r.state s) = (remaining given s).map r.clause := by
  rw [remaining, remaining, state, List.filter_map]
  simp only [Function.comp_def, clause_subset_iff]

theorem pass_clause (given : LiteralSet) (s : State) :
    Saturation.pass (r.clause given) (r.state s) = r.pass (Saturation.pass given s) := by
  rw [Saturation.pass, Saturation.pass, remaining_clause, ← resolveWith_clause, List.map_append]
  rfl

theorem subsumption?_clause (c : LiteralSet) (others : List LiteralSet) :
    Application.subsumption? (r.clause c) (others.map r.clause) =
      (Application.subsumption? c others).map r.application := by
  have hfilter : (others.map r.clause).filter (fun d => decide (r.clause c ⊆ d)) =
      (others.filter fun d => decide (c ⊆ d)).map r.clause := by
    rw [List.filter_map]
    simp only [Function.comp_def, clause_subset_iff]
  unfold Application.subsumption?
  rw [hfilter]
  cases others.filter fun d => decide (c ⊆ d) <;> rfl

theorem removals_clause (given : LiteralSet) (s : State) :
    removals (r.clause given) (r.state s) = (removals given s).map r.event := by
  rw [removals, removals, state, subsumption?_clause]
  cases Application.subsumption? given s.processed <;> rfl

theorem resolved_clause (given : LiteralSet) (s : State) :
    resolved (r.clause given) (r.state s) = r.state (resolved given s) := by
  rw [resolved, resolved, remaining_clause, pass_clause, state, List.map_append]
  rfl

/-- The turn of a renamed clause is the turn of the clause, renamed. -/
theorem turn_clause (given : LiteralSet) (s : State) :
    Saturation.turn (r.clause given) (r.state s) = r.turn (Saturation.turn given s) := by
  rcases turn_cases given s with ⟨rfl, ht⟩ | ⟨hne, hcov, ht⟩ | ⟨hne, hcov, ht⟩
  · rw [ht]
    rfl
  · rw [ht, turn_of_covers (clause_injective.ne hne) (covers_clause.2 hcov)]
    rfl
  · rw [ht, turn_of_not_covers (clause_injective.ne hne) (mt covers_clause.1 hcov), pass_clause,
      removals_clause, resolved_clause]
    simp [turn, pass, event, Function.comp_def]

/-! ### The search -/

theorem next?_state_of_none (h : s.next? = none) : (r.state s).next? = none := by
  obtain ⟨processed, unprocessed⟩ := s
  cases unprocessed with
  | nil => rfl
  | cons c cs => cases h

theorem next?_state_of_some {rest : State} (h : s.next? = some (given, rest)) :
    (r.state s).next? = some (r.clause given, r.state rest) := by
  obtain ⟨processed, unprocessed⟩ := s
  cases unprocessed with
  | nil => cases h
  | cons c cs =>
    cases h
    rfl

theorem progress_after (events : List Event) (p : Progress) :
    r.progress (p.after events) = (r.progress p).after (events.map r.event) := by
  cases p with
  | ended o => simp [Progress.after, progress, outcome]
  | paused s => rfl

/-- Every turn of the one search is a turn of the other. -/
theorem advance_state (n : Nat) (s : State) :
    advance n (r.state s) = r.progress (advance n s) := by
  cases hn : s.next? with
  | none =>
    rw [advance_of_none hn, advance_of_none (next?_state_of_none hn)]
    rfl
  | some p =>
    obtain ⟨given, rest⟩ := p
    have hn' := next?_state_of_some (r := r) hn
    match n with
    | 0 =>
      rw [advance_zero hn, advance_zero hn']
      rfl
    | n + 1 =>
      rw [advance_succ hn, advance_succ hn', turn_clause]
      cases hclosed : (Saturation.turn given rest).closed with
      | true =>
        have hclosed' : (r.turn (Saturation.turn given rest)).closed = true := hclosed
        rw [if_pos hclosed', if_pos rfl]
        rfl
      | false =>
        have hclosed' : ¬ (r.turn (Saturation.turn given rest)).closed = true :=
          Bool.not_eq_true _ ▸ hclosed
        rw [if_neg hclosed', if_neg Bool.false_ne_true, progress_after, ← advance_state]
        rfl

/-! ### The input -/

theorem initial_map (clauses : List LiteralSet) :
    initial (clauses.map r.clause) = (initial clauses).map r.clause := by
  rw [initial, initial, ← eraseDups_map_of_injective clause_injective, List.filter_map]
  simp only [Function.comp_def, isTautology_clause]

theorem dropped_map (clauses : List LiteralSet) :
    dropped (clauses.map r.clause) = (dropped clauses).map r.event := by
  rw [dropped, dropped, List.filter_map, List.map_map, List.map_map]
  simp only [Function.comp_def, isTautology_clause]
  rfl

theorem map_ofList_map (cs : List (List Literal)) :
    (cs.map (List.map r.literal)).map LiteralSet.ofList = (cs.map LiteralSet.ofList).map r.clause := by
  simp only [List.map_map, Function.comp_def, clause_ofList]

/-- Different atoms stay different. -/
theorem atomCount_map (cs : List (List Literal)) :
    atomCount (cs.map (List.map r.literal)) = atomCount cs := by
  have hatoms : (cs.map (List.map r.literal)).flatten.map Literal.atom =
      (cs.flatten.map Literal.atom).map r.atom := by
    rw [← List.map_flatten, List.map_map, List.map_map]
    rfl
  have himage : ((cs.flatten.map Literal.atom).map r.atom).toFinset =
      (cs.flatten.map Literal.atom).toFinset.image r.atom := by
    ext a
    simp only [List.mem_toFinset, List.mem_map (f := r.atom), Finset.mem_image]
  rw [atomCount, atomCount, hatoms, himage, Finset.card_image_of_injective _ r.injective]

theorem length_atoms_map (cs : List (List Literal)) :
    (atoms ((cs.map LiteralSet.ofList).map r.clause)).length =
      (atoms (cs.map LiteralSet.ofList)).length := by
  rw [← map_ofList_map, length_atoms, length_atoms, atomCount_map]

/-- The search among renamed clauses gives the renamed result, or is stopped in a state of the same
size. -/
theorem run_map (limit : Option Int) (cs : List (List Literal)) :
    Saturation.run limit ((cs.map (List.map r.literal)).map .ofList) =
      (Saturation.run limit (cs.map .ofList)).map r.outcome := by
  have hadvance (n : Nat) : advance n ⟨[], (initial (cs.map .ofList)).map r.clause⟩ =
      r.progress (advance n ⟨[], initial (cs.map .ofList)⟩) := advance_state n ⟨[], _⟩
  rw [map_ofList_map, run, run, length_atoms_map, initial_map, dropped_map]
  simp only [hadvance]
  cases advance _ (⟨[], initial (cs.map .ofList)⟩ : State) with
  | ended o => simp [progress, outcome, Except.map]
  | paused s => simp [progress, state, Except.map]

end Renaming

open Saturation

/-- **Names do not matter**: let the atoms of an input be renamed, different ones differently, and
the polarity of some of them be turned round. Under every limit the search then has the renamed
result: the same verdict, as many given clauses, and the inferences, the final clauses and all
events in the same order, each with renamed clauses. If the limit stops the one search, it stops the
other one with as many clauses. -/
theorem run_saturation_renamed (r : Renaming) (limit : Option Int) (cs : List (List Literal)) :
    (∃ o, Strategy.saturation.run limit cs = .ok (.saturation o) ∧
      Strategy.saturation.run limit (cs.map (List.map r.literal)) =
        .ok (.saturation (r.outcome o)) ∧
      (r.outcome o).applications = o.applications.map r.application) ∨
    ∃ e, Strategy.saturation.run limit cs = .error e ∧
      Strategy.saturation.run limit (cs.map (List.map r.literal)) = .error e := by
  rw [Strategy.run, Strategy.run, Renaming.run_map]
  cases Saturation.run limit (cs.map .ofList) with
  | ok o => exact .inl ⟨o, rfl, rfl, r.applications_outcome o⟩
  | error e => exact .inr ⟨e, rfl, rfl⟩

end PropProver
