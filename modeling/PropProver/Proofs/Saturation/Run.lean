import Mathlib.Algebra.Ring.Nat
import PropProver.Proofs.Saturation.Invariant

/-!
# Whole searches

A search ends when no clause waits, or with the turn that finds the empty clause (`Ends`). What
`advance` gives is such an end (`advance_eq_ended_iff`, `EndsWithin.ends`), or else a reached state
in which as many clauses were given as it was allowed (`reached_of_advance`). More allowance changes
nothing once the search has ended (`EndsWithin.mono`).
-/

namespace PropProver.Saturation

open LiteralSet

variable {start : List LiteralSet}

/-- The ends of the searches from the clauses of a start. -/
inductive Ends (start : List LiteralSet) : Outcome → Prop where
  /-- No clause waits any more. -/
  | exhausted {events : List Event} {s : State} : Reached start events s → s.unprocessed = [] →
      Ends start ⟨false, s, (givens events).length, events⟩
  /-- The empty clause was given or found. -/
  | contradiction {events : List Event} {s rest : State} {given : LiteralSet} :
      Reached start events s → s.next? = some (given, rest) → (turn given rest).closed = true →
      Ends start ⟨true, (turn given rest).state, (givens events).length + 1,
        events ++ (turn given rest).events⟩

theorem advance_of_none {n : Nat} {s : State} (h : s.next? = none) :
    advance n s = .ended ⟨false, s, 0, []⟩ := by
  cases n <;> simp [advance, h]

theorem advance_zero {s rest : State} {given : LiteralSet} (h : s.next? = some (given, rest)) :
    advance 0 s = .paused s := by
  simp [advance, h]

theorem advance_succ {n : Nat} {s rest : State} {given : LiteralSet}
    (h : s.next? = some (given, rest)) :
    advance (n + 1) s =
      if (turn given rest).closed then
        .ended ⟨true, (turn given rest).state, 1, (turn given rest).events⟩
      else (advance n (turn given rest).state).after (turn given rest).events := by
  conv_lhs => unfold advance
  simp only [h]

/-- The searches from a state that end within a number of given clauses. -/
inductive EndsWithin : Nat → State → Outcome → Prop where
  /-- No clause waits. -/
  | exhausted {n : Nat} {s : State} : s.next? = none → EndsWithin n s ⟨false, s, 0, []⟩
  /-- The turn of the oldest waiting clause ends the search. -/
  | contradiction {n : Nat} {s rest : State} {given : LiteralSet} :
      s.next? = some (given, rest) → (turn given rest).closed = true →
      EndsWithin (n + 1) s ⟨true, (turn given rest).state, 1, (turn given rest).events⟩
  /-- The search goes on after the turn of the oldest waiting clause. -/
  | turn {n : Nat} {s rest : State} {given : LiteralSet} {o : Outcome} :
      s.next? = some (given, rest) → (turn given rest).closed = false →
      EndsWithin n (turn given rest).state o →
      EndsWithin (n + 1) s
        { o with given := 1 + o.given, events := (turn given rest).events ++ o.events }

theorem endsWithin_of_advance {n : Nat} {s : State} {o : Outcome} (h : advance n s = .ended o) :
    EndsWithin n s o := by
  induction n generalizing s o with
  | zero =>
    cases hn : s.next? with
    | none =>
      rw [advance_of_none hn] at h
      cases h
      exact .exhausted hn
    | some p =>
      rw [advance_zero hn] at h
      cases h
  | succ n ih =>
    cases hn : s.next? with
    | none =>
      rw [advance_of_none hn] at h
      cases h
      exact .exhausted hn
    | some p =>
      obtain ⟨given, rest⟩ := p
      rw [advance_succ hn] at h
      split at h
      · next hclosed =>
        cases h
        exact .contradiction hn hclosed
      · next hopen =>
        rw [Bool.not_eq_true] at hopen
        cases ha : advance n (turn given rest).state with
        | paused s' =>
          rw [ha] at h
          cases h
        | ended o' =>
          rw [ha] at h
          cases h
          exact .turn hn hopen (ih ha)

theorem EndsWithin.advance_eq {n : Nat} {s : State} {o : Outcome} (h : EndsWithin n s o) :
    advance n s = .ended o := by
  induction h with
  | exhausted hn => exact advance_of_none hn
  | contradiction hn hclosed => rw [advance_succ hn, if_pos hclosed]
  | turn hn hopen _ ih =>
    rw [advance_succ hn, if_neg (Bool.not_eq_true _ ▸ hopen), ih]
    rfl

/-- What a search gives is one of the ends within the allowance. -/
theorem advance_eq_ended_iff {n : Nat} {s : State} {o : Outcome} :
    advance n s = .ended o ↔ EndsWithin n s o :=
  ⟨endsWithin_of_advance, EndsWithin.advance_eq⟩

/-- A search that goes on from a reached state comes to an end of the whole search. -/
theorem EndsWithin.ends {n : Nat} {s : State} {o : Outcome} (h : EndsWithin n s o)
    {events : List Event} (hs : Reached start events s) :
    Ends start ⟨o.unsatisfiable, o.final, (givens events).length + o.given,
      events ++ o.events⟩ := by
  induction h generalizing events with
  | exhausted hn =>
    rw [List.append_nil]
    exact .exhausted hs (next?_eq_none hn)
  | contradiction hn hclosed => exact .contradiction hs hn hclosed
  | turn hn hopen _ ih =>
    have := ih (hs.turn hn hopen)
    rw [givens_append, givens_turn _ (ne_empty_of_turn hopen), List.length_append] at this
    simpa [Nat.add_assoc, List.append_assoc] using this

theorem EndsWithin.ends_start {n : Nat} {o : Outcome} (h : EndsWithin n ⟨[], start⟩ o) :
    Ends start o := by
  simpa [givens] using h.ends .start

/-- A search that is stopped has given as many clauses as it was allowed, and more wait. -/
theorem reached_of_advance {n : Nat} : ∀ {events : List Event} {s s' : State},
    Reached start events s → advance n s = .paused s' →
      ∃ events', Reached start events' s' ∧
        (givens events').length = (givens events).length + n ∧ s'.unprocessed ≠ [] := by
  induction n with
  | zero =>
    intro events s s' hs h
    cases hn : s.next? with
    | none =>
      rw [advance_of_none hn] at h
      cases h
    | some p =>
      rw [advance_zero hn] at h
      cases h
      refine ⟨events, hs, rfl, ?_⟩
      rw [(next?_eq_some hn).2]
      exact List.cons_ne_nil _ _
  | succ n ih =>
    intro events s s' hs h
    cases hn : s.next? with
    | none =>
      rw [advance_of_none hn] at h
      cases h
    | some p =>
      obtain ⟨given, rest⟩ := p
      rw [advance_succ hn] at h
      split at h
      · cases h
      · next hopen =>
        rw [Bool.not_eq_true] at hopen
        cases ha : advance n (turn given rest).state with
        | ended o =>
          rw [ha] at h
          cases h
        | paused s'' =>
          rw [ha] at h
          cases h
          obtain ⟨events', hs', hlen, hwait⟩ := ih (hs.turn hn hopen) ha
          refine ⟨events', hs', ?_, hwait⟩
          rw [hlen, givens_append, givens_turn rest (ne_empty_of_turn hopen), List.length_append,
            List.length_singleton]
          omega

/-- A search that has ended ends in the same way if it is allowed more. -/
theorem EndsWithin.mono {n m : Nat} {s : State} {o : Outcome} (h : EndsWithin n s o)
    (hnm : n ≤ m) : EndsWithin m s o := by
  induction h generalizing m with
  | exhausted hn => exact .exhausted hn
  | contradiction hn hclosed =>
    obtain ⟨m, rfl⟩ : ∃ k, m = k + 1 := ⟨m - 1, by omega⟩
    exact .contradiction hn hclosed
  | turn hn hopen _ ih =>
    obtain ⟨m, rfl⟩ : ∃ k, m = k + 1 := ⟨m - 1, by omega⟩
    exact .turn hn hopen (ih (Nat.le_of_succ_le_succ hnm))

/-! ### The search from an input -/

/-- How many given clauses a limit allows. Without a limit there may be as many as there are clauses
over the atoms. -/
def allowance (limit : Option Int) (clauses : List LiteralSet) : Nat :=
  (limit.getD (3 ^ (atoms clauses).length : Nat)).toNat

theorem allowance_none (clauses : List LiteralSet) :
    allowance none clauses = 3 ^ (atoms clauses).length :=
  Int.toNat_natCast _

theorem allowance_some (limit : Int) (clauses : List LiteralSet) :
    allowance (some limit) clauses = limit.toNat := rfl

/-- A search gives a result if it ends within its allowance. The tautologies that were left out at
the start are told first. -/
theorem run_eq_ok_iff {limit : Option Int} {clauses : List LiteralSet} {o : Outcome} :
    run limit clauses = .ok o ↔
      ∃ o', EndsWithin (allowance limit clauses) ⟨[], initial clauses⟩ o' ∧
        { o' with events := dropped clauses ++ o'.events } = o := by
  have hallowance : (limit.getD (Nat.pow 3 (atoms clauses).length : Nat)).toNat =
      allowance limit clauses := rfl
  simp only [run, hallowance, ← advance_eq_ended_iff]
  cases advance (allowance limit clauses) ⟨[], initial clauses⟩ <;> simp

end PropProver.Saturation
