import Mathlib.Data.Finset.Card
import PropProver.Proofs.Saturation.History
import PropProver.Proofs.Saturation.Verdict

/-!
# How long a search takes

A search takes its given clauses one after the other (`taken`). They are all different
(`nodup_taken`), since a clause waits only as long as it has not been given, and a clause that was
removed is not found again. Over `n` atoms there are `3 ^ n` clauses without complementary literals,
so the search is over after at most that many given clauses, and a limit that leaves room for them
is never reached (`run_saturation_bounded`).
-/

namespace PropProver

/-- How many different atoms occur in clauses. -/
def atomCount (cs : List (List Literal)) : Nat := (cs.flatten.map Literal.atom).toFinset.card

namespace Saturation

open LiteralSet

/-- The clauses that a search takes as given clauses, in order, but no more of them than a number
says. -/
def taken : Nat → State → List LiteralSet
  | 0, _ => []
  | n + 1, s =>
    match s.next? with
    | none => []
    | some (given, rest) =>
      given :: if (turn given rest).closed then [] else taken n (turn given rest).state

theorem taken_of_none {n : Nat} {s : State} (h : s.next? = none) : taken n s = [] := by
  cases n <;> simp [taken, h]

theorem taken_succ {n : Nat} {s rest : State} {given : LiteralSet}
    (h : s.next? = some (given, rest)) :
    taken (n + 1) s =
      given :: if (turn given rest).closed then [] else taken n (turn given rest).state := by
  simp only [taken, h]

theorem length_taken_le (n : Nat) (s : State) : (taken n s).length ≤ n := by
  induction n generalizing s with
  | zero => exact Nat.le_refl _
  | succ n ih =>
    cases hn : s.next? with
    | none =>
      rw [taken_of_none hn]
      exact Nat.zero_le _
    | some p =>
      rw [taken_succ hn, List.length_cons]
      refine Nat.succ_le_succ ?_
      split
      · exact Nat.zero_le n
      · exact ih _

/-- The events of a turn tell which clause was given, unless it is empty. -/
theorem givens_turn_eq_filter (given : LiteralSet) (s : State) :
    givens (turn given s).events = [given].filter (!·.isEmpty) := by
  by_cases h : given = ∅
  · subst h
    rfl
  · have : given.isEmpty = false := Bool.eq_false_iff.2 fun he => h (LiteralSet.isEmpty_iff.1 he)
    rw [givens_turn s h, List.filter_cons, this]
    rfl

/-- The clauses that an ended search took are counted by its result, and told by its events. -/
theorem EndsWithin.taken {n : Nat} {s : State} {o : Outcome} (h : EndsWithin n s o) :
    (taken n s).length = o.given ∧ (taken n s).filter (!·.isEmpty) = givens o.events := by
  induction h with
  | exhausted hn =>
    rw [taken_of_none hn]
    exact ⟨rfl, rfl⟩
  | @contradiction n s rest given hn hclosed =>
    rw [taken_succ hn, if_pos hclosed]
    exact ⟨rfl, (givens_turn_eq_filter given rest).symm⟩
  | @turn n s rest given o hn hopen _ ih =>
    obtain ⟨hlen, hgivens⟩ := ih
    rw [taken_succ hn, if_neg (Bool.not_eq_true _ ▸ hopen)]
    refine ⟨by rw [List.length_cons, hlen, Nat.add_comm], ?_⟩
    rw [givens_append, givens_turn_eq_filter, ← hgivens, ← List.filter_append,
      List.singleton_append]

/-- From a reached state on, a search takes clauses that were not given before, each once. -/
theorem nodup_taken {clauses : List LiteralSet} {n : Nat} : ∀ {events : List Event} {s : State},
    Reached (initial clauses) events s → (givens events ++ taken n s).Nodup := by
  induction n with
  | zero =>
    intro events s hs
    rw [taken, List.append_nil]
    exact (List.nodup_append.1 (invariant_of_reached hs).nodup).1
  | succ n ih =>
    intro events s hs
    cases hn : s.next? with
    | none =>
      rw [taken_of_none hn, List.append_nil]
      exact (List.nodup_append.1 (invariant_of_reached hs).nodup).1
    | some p =>
      obtain ⟨given, rest⟩ := p
      rw [taken_succ hn]
      split
      · exact (List.nodup_append.1 ((invariant_of_reached hs).nodup_next hn)).1
      · next hopen =>
        rw [Bool.not_eq_true] at hopen
        have := ih (hs.turn hn hopen)
        rwa [givens_append, givens_turn rest (ne_empty_of_turn hopen), List.append_assoc] at this

theorem length_atoms (cs : List (List Literal)) :
    (atoms (cs.map .ofList)).length = atomCount cs := by
  have hmem (a : String) : a ∈ atoms (cs.map .ofList) ↔ a ∈ cs.flatten.map Literal.atom := by
    simp [atoms, ← LiteralSet.mem_iff]
  have hnodup : (atoms (cs.map .ofList)).Nodup := nodup_eraseDups _
  rw [atomCount, ← List.toFinset_card_of_nodup hnodup]
  refine congrArg Finset.card (Finset.ext fun a => ?_)
  rw [List.mem_toFinset, List.mem_toFinset]
  exact hmem a

/-- The clauses that the search from an input takes as given clauses, in order. -/
def givenClauses (clauses : List LiteralSet) : List LiteralSet :=
  taken (allowance none clauses) ⟨[], initial clauses⟩

theorem nodup_givenClauses (clauses : List LiteralSet) : (givenClauses clauses).Nodup := by
  have hstart : Reached (initial clauses) [] ⟨[], initial clauses⟩ := .start
  have := nodup_taken (n := allowance none clauses) hstart
  rwa [givens, List.filterMap_nil, List.nil_append] at this

/-- The given clauses of the search without a limit are counted by its result, and told by its
events. -/
theorem givenClauses_of_run {clauses : List LiteralSet} {o : Outcome}
    (h : run none clauses = .ok o) :
    (givenClauses clauses).length = o.given ∧
      (givenClauses clauses).filter (!·.isEmpty) = givens o.events := by
  obtain ⟨o', ho, rfl⟩ := run_eq_ok_iff.1 h
  rw [givens_append, givens_dropped, List.nil_append]
  exact ho.taken

end Saturation

open Saturation

/-- **Saturation is bounded**: with `n` atoms in its clauses, the search without a limit ends after
at most `3 ^ n` given clauses, which are all different; the events tell of them, except for the
empty clause. No clause that it infers contains a clause of the input, tautologies apart, or a
clause that was inferred earlier. A limit of at least `3 ^ n` given clauses is never reached, and
changes nothing. -/
theorem run_saturation_bounded (cs : List (List Literal)) :
    ∃ o, Strategy.saturation.run none cs = .ok (.saturation o) ∧
      o.given ≤ 3 ^ atomCount cs ∧
      ((givenClauses (cs.map .ofList)).Nodup ∧
        (givenClauses (cs.map .ofList)).length = o.given ∧
        (givenClauses (cs.map .ofList)).filter (!·.isEmpty) = givens o.events) ∧
      (∀ r ∈ conclusions o.applications, ∀ c ∈ cs.map LiteralSet.ofList,
        c.isTautology = false → ¬ c ⊆ r) ∧
      (conclusions o.applications).Pairwise (fun r r' => ¬ r ⊆ r') ∧
      ∀ limit : Int, (3 ^ atomCount cs : Nat) ≤ limit →
        Strategy.saturation.run (some limit) cs = .ok (.saturation o) := by
  obtain ⟨o, hrun⟩ : ∃ o, Saturation.run none (cs.map .ofList) = .ok o := by
    obtain ⟨o, hrun, -⟩ := exists_run_none (cs.map .ofList)
    exact ⟨_, hrun⟩
  obtain ⟨hlength, hgivens⟩ := givenClauses_of_run hrun
  have hfresh := fresh_of_run hrun
  refine ⟨o, Strategy.run_saturation_eq_ok_iff.2 ⟨o, hrun, rfl⟩, ?_,
    ⟨nodup_givenClauses _, hlength, hgivens⟩, ?_, hfresh.pairwise, ?_⟩
  · rw [← hlength, ← length_atoms, ← allowance_none]
    exact length_taken_le _ _
  · intro r hr c hc htaut hsub
    exact (hfresh.of_mem hr).2 ⟨c, mem_initial.2 ⟨hc, htaut⟩, hsub⟩
  · intro limit hlimit
    rw [← length_atoms] at hlimit
    exact Strategy.run_saturation_eq_ok_iff.2 ⟨o, (run_some_of_le hlimit).trans hrun, rfl⟩

end PropProver
