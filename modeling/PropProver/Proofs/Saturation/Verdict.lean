import PropProver.Proofs.Saturation.Termination
import PropProver.Refutation.Basic

/-!
# What saturation finds

A search that ends with the empty clause started from clauses that no assignment satisfies
(`not_holds_of_closed`). A search that ends because no clause waits leaves a saturated antichain
without the empty clause (`Invariant.saturated`), and so the prime implicates of its input. Both
together are `run_saturation_none`.
-/

namespace PropProver

namespace LiteralSet

theorem eq_empty_of_subset {c : LiteralSet} (h : c ⊆ ∅) : c = ∅ :=
  subset_antisymm h fun _ hl => absurd hl (not_mem_empty _)

end LiteralSet

namespace Saturation

open LiteralSet

/-- A turn that ends the search has found a contradiction among the clauses that were there. -/
theorem not_holds_of_closed {given : LiteralSet} {s : State} (h : (turn given s).closed = true)
    (v : Assignment) : ¬ ∀ c ∈ given :: s.all, c.Holds v := by
  intro hv
  have hgiven : given.Holds v := hv given List.mem_cons_self
  rcases turn_cases given s with ⟨rfl, -⟩ | ⟨-, -, ht⟩ | ⟨-, -, ht⟩
  · exact not_holds_empty v hgiven
  · rw [ht] at h
    cases h
  · rw [ht] at h
    obtain ⟨p, hp, hr⟩ := mem_resolvents_of_mem_generated (empty_mem_generated h)
    have hpv : p.Holds v :=
      hv p (List.mem_cons_of_mem _ (List.mem_append_left _ (mem_remaining.1 hp).1))
    exact not_holds_empty v (hpv.resolvent hr hgiven)

/-- Without waiting clauses the processed ones are all there are. -/
theorem all_of_unprocessed {s : State} (h : s.unprocessed = []) : s.all = s.processed := by
  rw [State.all, h, List.append_nil]

/-- When no clause waits, the processed clauses are saturated. -/
theorem Invariant.saturated {seen : List LiteralSet} {s : State} (h : Invariant seen s)
    (hwait : s.unprocessed = []) : Saturated s.processed := by
  have := h.closed
  rwa [all_of_unprocessed hwait] at this

/-- When no clause waits, some assignment makes all processed clauses hold, since the empty clause
is not among them. -/
theorem Invariant.exists_holds {seen : List LiteralSet} {s : State} (h : Invariant seen s)
    (hwait : s.unprocessed = []) : ∃ v, ∀ c ∈ s.processed, c.Holds v := by
  by_contra hcon
  have hentailed : (∅ : LiteralSet).Entailed fun v => ∀ c ∈ s.processed, c.Holds v :=
    fun v hv => absurd ⟨v, hv⟩ hcon
  obtain ⟨c, hc, hsub⟩ := (h.saturated hwait).covers_of_entailed rfl hentailed
  exact h.ne_empty c hc (eq_empty_of_subset hsub)

/-- The end of a search tells whether its input is satisfiable, and if it is, what the prime
implicates are. -/
theorem Ends.verdict {clauses : List LiteralSet} {o : Outcome} (h : Ends (initial clauses) o) :
    (o.unsatisfiable = true ↔ ¬ ∃ v, ∀ c ∈ clauses, c.Holds v) ∧
    (o.unsatisfiable = false → o.final.unprocessed = [] ∧ o.final.processed.Nodup ∧
      ∀ c, c ∈ o.final.processed ↔ PrimeImplicate (fun v => ∀ c ∈ clauses, c.Holds v) c) := by
  have hmodels {events : List Event} {s : State} (hs : Reached (initial clauses) events s)
      (v : Assignment) : (∀ c ∈ clauses, c.Holds v) ↔ ∀ c ∈ s.all, c.Holds v := by
    rw [hs.forall_holds_iff, forall_holds_initial]
  cases h with
  | contradiction hs hn hclosed =>
    refine ⟨⟨fun _ => ?_, fun _ => rfl⟩, fun h => Bool.noConfusion h⟩
    rintro ⟨v, hv⟩
    refine not_holds_of_closed hclosed v fun c hc => ?_
    exact (hmodels hs v).1 hv c ((mem_all_iff_of_next? hn).2 hc)
  | exhausted hs hwait =>
    have hinv := invariant_of_reached hs
    obtain ⟨v, hv⟩ := hinv.exists_holds hwait
    have hprocessed := hmodels hs
    rw [all_of_unprocessed hwait] at hprocessed
    refine ⟨⟨fun h => Bool.noConfusion h, fun h => absurd ⟨v, (hprocessed v).2 hv⟩ h⟩,
      fun _ => ⟨hwait, hinv.antichain.nodup, fun c => ?_⟩⟩
    refine (hinv.saturated hwait).mem_iff_primeImplicate hinv.antichain (fun d hd => ?_) hprocessed
    exact hinv.not_tautology d (List.mem_append_left _ hd)

end Saturation

theorem Strategy.run_saturation_eq_ok_iff {limit : Option Int} {cs : List (List Literal)}
    {o : Outcome} :
    Strategy.saturation.run limit cs = .ok o ↔
      ∃ o', Saturation.run limit (cs.map .ofList) = .ok o' ∧ .saturation o' = o := by
  rw [run]
  cases Saturation.run limit (cs.map .ofList) <;> simp [Functor.map, Except.map]

/-- The strategy without a limit comes to an end of the search, which it reports together with the
tautologies that were dropped before. -/
theorem Strategy.exists_run_saturation (cs : List (List Literal)) :
    ∃ o, Saturation.Ends (Saturation.initial (cs.map .ofList)) o ∧
      Strategy.saturation.run none cs = .ok (.saturation
        { o with events := Saturation.dropped (cs.map .ofList) ++ o.events }) := by
  obtain ⟨o, hrun, hends⟩ := Saturation.exists_run_none (cs.map .ofList)
  exact ⟨o, hends, run_saturation_eq_ok_iff.2 ⟨_, hrun, rfl⟩⟩

/-- **Saturation**: for any clauses of literals the search without a limit comes to an end. It
reports a contradiction exactly if no assignment satisfies the clauses; otherwise no clause waits
at the end, and the processed clauses are the prime implicates, each once. -/
theorem run_saturation_none (cs : List (List Literal)) :
    ∃ o, Strategy.saturation.run none cs = .ok (.saturation o) ∧
      (o.unsatisfiable = true ↔ ¬ ∃ v : Assignment, v.Satisfies cs) ∧
      (o.unsatisfiable = false → o.final.unprocessed = [] ∧ o.final.processed.Nodup ∧
        ∀ c, c ∈ o.final.processed ↔ LiteralSet.PrimeImplicate (·.Satisfies cs) c) := by
  obtain ⟨o, hends, hrun⟩ := Strategy.exists_run_saturation cs
  obtain ⟨hunsat, hprime⟩ := hends.verdict
  simp only [LiteralSet.forall_holds_map_ofList] at hunsat hprime
  exact ⟨_, hrun, hunsat, hprime⟩

end PropProver
