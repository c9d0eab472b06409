import PropProver.Proofs.Saturation.Verdict

/-!
# Searches with a limit

A limit on the number of given clauses stops a search, and does nothing else. The states of a search
between its given clauses do not depend on the limit (`afterGiven`). A search that ends after `k`
given clauses ends in the same way under every limit of at least `k`; under every smaller limit `n`
it is stopped in the state that it has after `n` given clauses (`EndsWithin.advance_eq_ite`). The
limit is looked at only while a clause waits, so it may be equal to the number of given clauses, also
if that is zero, and a negative limit counts as zero.
-/

namespace PropProver

namespace Saturation

/-- The state of a search after a number of given clauses, or at its end if it ends before. -/
def afterGiven : Nat → State → State
  | 0, s => s
  | n + 1, s =>
    match s.next? with
    | none => s
    | some (given, rest) =>
      if (turn given rest).closed then (turn given rest).state
      else afterGiven n (turn given rest).state

section

variable {s rest : State} {given : LiteralSet} {n : Nat}

@[simp] theorem afterGiven_zero (s : State) : afterGiven 0 s = s := rfl

theorem afterGiven_of_closed (h : s.next? = some (given, rest))
    (hclosed : (turn given rest).closed = true) :
    afterGiven (n + 1) s = (turn given rest).state := by
  simp [afterGiven, h, hclosed]

theorem afterGiven_of_open (h : s.next? = some (given, rest))
    (hopen : (turn given rest).closed = false) :
    afterGiven (n + 1) s = afterGiven n (turn given rest).state := by
  simp [afterGiven, h, hopen]

end

/-! ### Where a limit stops a search -/

variable {s : State} {o : Outcome} {m : Nat}

/-- A search that ends is either allowed all its given clauses, and ends as it does, or it is stopped
after as many as it is allowed. -/
theorem EndsWithin.advance_eq_ite (h : EndsWithin m s o) (n : Nat) :
    advance n s = if o.given ≤ n then .ended o else .paused (afterGiven n s) := by
  induction h generalizing n with
  | exhausted hn =>
    rw [advance_of_none hn, if_pos (Nat.zero_le n)]
  | contradiction hn hclosed =>
    cases n with
    | zero => rw [advance_zero hn, if_neg (by simp), afterGiven_zero]
    | succ n => rw [advance_succ hn, if_pos hclosed, if_pos (by simp)]
  | @turn m s rest given o hn hopen _ ih =>
    cases n with
    | zero => rw [advance_zero hn, if_neg (by simp), afterGiven_zero]
    | succ n =>
      rw [advance_succ hn, if_neg (by simp [hopen]), ih n, afterGiven_of_open hn hopen]
      -- one given clause more on both sides of the comparison
      by_cases hle : o.given ≤ n
      · rw [if_pos hle, if_pos (by show 1 + o.given ≤ n + 1; omega)]
        rfl
      · rw [if_neg hle, if_neg (by show ¬ 1 + o.given ≤ n + 1; omega)]
        rfl

/-- After all its given clauses a search is at its end. -/
theorem EndsWithin.afterGiven_given (h : EndsWithin m s o) : afterGiven o.given s = o.final := by
  induction h with
  | exhausted hn => rfl
  | contradiction hn hclosed => exact afterGiven_of_closed hn hclosed
  | @turn m s rest given o hn hopen _ ih =>
    show afterGiven (1 + o.given) s = o.final
    rw [Nat.add_comm, afterGiven_of_open hn hopen, ih]

/-- Before its end a search is reached after each number of given clauses, and its events begin with
those on the way. -/
theorem EndsWithin.reached_afterGiven {start : List LiteralSet} (h : EndsWithin m s o) :
    ∀ {events : List Event} {k : Nat}, Reached start events s → k < o.given →
      ∃ es, Reached start (events ++ es) (afterGiven k s) ∧ (givens es).length = k ∧
        es <+: o.events := by
  induction h with
  | exhausted hn =>
    intro events k _ hk
    exact absurd hk (Nat.not_lt_zero k)
  | contradiction hn hclosed =>
    intro events k hs hk
    cases k with
    | zero => exact ⟨[], by simpa using hs, rfl, List.nil_prefix⟩
    | succ k => exact absurd (Nat.lt_of_succ_lt_succ hk) (Nat.not_lt_zero k)
  | @turn m s rest given o hn hopen _ ih =>
    intro events k hs hk
    cases k with
    | zero => exact ⟨[], by simpa using hs, rfl, List.nil_prefix⟩
    | succ k =>
      have hlt : k < o.given := by
        change k + 1 < 1 + o.given at hk
        omega
      obtain ⟨es, hes, hlen, hpre⟩ := ih (hs.turn hn hopen) hlt
      refine ⟨(Saturation.turn given rest).events ++ es, ?_, ?_, ?_⟩
      · rw [afterGiven_of_open hn hopen, ← List.append_assoc]
        exact hes
      · rw [givens_append, givens_turn rest (ne_empty_of_turn hopen), List.length_append, hlen]
        exact Nat.add_comm 1 k
      · exact (List.prefix_append_right_inj _).2 hpre

/-! ### The search from an input -/

/-- The state of the search from an input after a number of given clauses. -/
def stateAfter (clauses : List LiteralSet) (n : Nat) : State :=
  afterGiven n ⟨[], initial clauses⟩

/-- The search with a limit is that without one, or is stopped. -/
theorem run_some_eq_ite {clauses : List LiteralSet} (h : EndsWithin m ⟨[], initial clauses⟩ o)
    (limit : Int) :
    run (some limit) clauses =
      if (o.given : Int) ≤ max limit 0 then .ok { o with events := dropped clauses ++ o.events }
      else .error ⟨limit, (stateAfter clauses (max limit 0).toNat).processed.length,
        (stateAfter clauses (max limit 0).toNat).unprocessed.length⟩ := by
  have hmax : (max limit 0).toNat = limit.toNat := by omega
  have hle : (o.given : Int) ≤ max limit 0 ↔ o.given ≤ limit.toNat := by omega
  simp only [run, Option.getD_some, h.advance_eq_ite limit.toNat, hle, hmax]
  by_cases hgiven : o.given ≤ limit.toNat
  · simp only [if_pos hgiven]
  · simp only [if_neg hgiven, stateAfter]

end Saturation

open Saturation

/-- **A limit never changes a verdict**: the search without a limit comes to an end after some number
of given clauses. Under every limit that is not smaller, negative ones counting as zero, the search
has the same result in all its parts. Under every other limit `n` it is not finished, and what is
reported is the limit and the size of the state in which the search without a limit is after
`max n 0` given clauses: a state that it reaches by the first of its events, with as many given
clauses among them. -/
theorem run_saturation_limit (cs : List (List Literal)) :
    ∃ o, Strategy.saturation.run none cs = .ok (.saturation o) ∧
      (stateAfter (cs.map .ofList) o.given = o.final ∧
        ∀ k < o.given, ∃ events,
          Reached (initial (cs.map .ofList)) events (stateAfter (cs.map .ofList) k) ∧
            (givens events).length = k ∧ dropped (cs.map .ofList) ++ events <+: o.events) ∧
      ∀ n : Int, Strategy.saturation.run (some n) cs =
        if (o.given : Int) ≤ max n 0 then .ok (.saturation o)
        else .error ⟨n, (stateAfter (cs.map .ofList) (max n 0).toNat).processed.length,
          (stateAfter (cs.map .ofList) (max n 0).toNat).unprocessed.length⟩ := by
  obtain ⟨o, ho⟩ := exists_endsWithin (cs.map .ofList)
  have hnone : run none (cs.map .ofList) =
      .ok { o with events := dropped (cs.map .ofList) ++ o.events } :=
    run_eq_ok_iff.2 ⟨o, allowance_none _ ▸ ho, rfl⟩
  refine ⟨_, Strategy.run_saturation_eq_ok_iff.2 ⟨_, hnone, rfl⟩, ⟨?_, ?_⟩, ?_⟩
  · exact ho.afterGiven_given
  · intro k hk
    obtain ⟨events, hreached, hlen, hpre⟩ := ho.reached_afterGiven .start hk
    exact ⟨events, hreached, hlen, (List.prefix_append_right_inj _).2 hpre⟩
  · intro n
    rw [Strategy.run, run_some_eq_ite ho n]
    by_cases hle : (o.given : Int) ≤ max n 0
    · rw [if_pos hle, if_pos hle]
      rfl
    · rw [if_neg hle, if_neg hle]
      rfl

end PropProver
