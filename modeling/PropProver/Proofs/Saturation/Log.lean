import PropProver.Proofs.NormalForm.Atoms
import PropProver.Proofs.Refutation
import PropProver.Proofs.Saturation.Derivation

/-!
# The log of a search

Clauses that were removed do not come back, since what is new in a search is new to its whole
history (`LogInvariant.gone_append`). So the inferences of a search are a derivation from the
clauses it started with (`Ends.derivation`). Before the search ends, the empty clause is not
inferred; the search that finds a contradiction infers it last (`Ends.empty_conclusion`). Both
together are what makes the log of a result a proof that can be checked (`Outcome.Checkable`,
`run_saturation_checkable`).
-/

namespace PropProver

theorem LiteralSet.eq_nil_of_ofList {ls : List Literal} (h : ofList ls = ∅) : ls = [] := by
  refine List.eq_nil_iff_forall_not_mem.2 fun l hl => not_mem_empty l ?_
  rw [← h]
  exact mem_ofList.2 hl

namespace Saturation

open LiteralSet

variable {given : LiteralSet} {start : List LiteralSet} {events : List Event} {s rest : State}

/-- What holds of the log between two turns. -/
structure LogInvariant (start : List LiteralSet) (events : List Event) (s : State) : Prop where
  /-- The inferences follow from the clauses of the start. -/
  derivation : Derivation start (inferences events)
  /-- Clauses that were removed are gone. -/
  gone : ∀ a ∈ inferences events, ∀ c ∈ a.deleted, c ∉ s.all

namespace LogInvariant

/-- The inferences of the next turn follow as well, also if it ends the search. -/
theorem derivation_append (h : LogInvariant start events s) (hs : Reached start events s)
    (hn : s.next? = some (given, rest)) :
    Derivation start (inferences (events ++ (turn given rest).events)) := by
  have hthere : ∀ c ∈ given :: rest.processed, c ∈ s.all := fun c hc =>
    (mem_all_iff_of_next? hn).2
      (List.mem_cons.2 ((List.mem_cons.1 hc).imp_right (List.mem_append_left _)))
  rw [inferences_append]
  refine h.derivation.append (derivation_turn fun c hc => hs.mem_history c (hthere c hc)) ?_
  exact fun a ha c hc b hb hcb => h.gone a ha c hc (hthere c ((parents_turn b hb).1 c hcb))

/-- What was removed does not come back in the next turn, since what is new is new to the whole
history. -/
theorem gone_append (h : LogInvariant start events s) (hs : Reached start events s)
    (hnodup : s.all.Nodup) (hn : s.next? = some (given, rest))
    (hclosed : (turn given rest).closed = false) :
    ∀ a ∈ inferences (events ++ (turn given rest).events), ∀ c ∈ a.deleted,
      c ∉ (turn given rest).state.all := by
  intro a ha c hc
  rw [inferences_append] at ha
  rcases List.mem_append.1 ha with ha | ha
  · intro hall
    rcases mem_conclusions_of_mem_all hclosed hall with hold | hnew
    · exact h.gone a ha c hc ((mem_all_iff_of_next? hn).2 hold)
    · refine ((hs.fresh_conclusions hn).of_mem hnew).2 (.of_mem ?_)
      exact h.derivation.mem_of_deleted a ha c hc
  · refine notMem_all_of_deleted hclosed ha hc fun hwait => ?_
    obtain ⟨hp, hu⟩ := next?_eq_some hn
    obtain ⟨hprocessed, -, -⟩ := (parents_turn a ha).2 c hc
    refine (List.nodup_append.1 hnodup).2.2 c (hp ▸ hprocessed) c ?_ rfl
    exact hu ▸ List.mem_cons_of_mem _ hwait

end LogInvariant

/-- The log of every reached state is a derivation. -/
theorem Reached.logInvariant {clauses : List LiteralSet} (hs : Reached (initial clauses) events s) :
    LogInvariant (initial clauses) events s := by
  induction hs with
  | start => exact ⟨.nil, nofun⟩
  | turn hs hn hclosed ih =>
    exact ⟨ih.derivation_append hs hn,
      ih.gone_append hs (invariant_of_reached hs).nodup_all hn hclosed⟩

/-- The empty clause is not there before the search ends. -/
theorem Reached.empty_notMem_history (hs : Reached start events s) (hstart : ∅ ∉ start) :
    ∅ ∉ history start events := by
  induction hs with
  | start => simpa [history, inferences, conclusions] using hstart
  | turn _ _ hclosed ih =>
    rw [history_append, List.mem_append, not_or]
    exact ⟨ih, empty_notMem_conclusions hclosed⟩

/-- The inferences of a whole search are a derivation. -/
theorem Ends.derivation {clauses : List LiteralSet} {o : Outcome} (h : Ends (initial clauses) o) :
    Derivation (initial clauses) o.applications := by
  cases h with
  | exhausted hs _ => exact hs.logInvariant.derivation
  | contradiction hs hn _ => exact hs.logInvariant.derivation_append hs hn

/-- A search that finds a contradiction ends with the inference of the empty clause, unless that was
there at the start; otherwise the empty clause is not inferred. -/
theorem Ends.empty_conclusion {o : Outcome} (h : Ends start o) (hstart : ∅ ∉ start) :
    (o.unsatisfiable = false ∧ ∅ ∉ conclusions o.applications) ∨
    (o.unsatisfiable = true ∧ ∃ as a, o.applications = as ++ [a] ∧
      ∅ ∉ conclusions as ∧ a.rule = "resolution" ∧ a.generated = [∅]) := by
  have hold {events : List Event} {s : State} (hs : Reached start events s) :
      ∅ ∉ conclusions (inferences events) :=
    fun he => hs.empty_notMem_history hstart (List.mem_append_right _ he)
  cases h with
  | exhausted hs _ => exact .inl ⟨rfl, hold hs⟩
  | @contradiction events s rest given hs hn hclosed =>
    have hne : given ≠ ∅ := by
      rintro rfl
      refine hs.empty_notMem_history hstart (hs.mem_history _ ?_)
      exact (mem_all_iff_of_next? hn).2 List.mem_cons_self
    obtain ⟨as, a, has, hnew, ha⟩ := inferences_of_closed hne hclosed
    refine .inr ⟨rfl, inferences events ++ as, a, ?_, ?_, ha⟩
    · rw [List.append_assoc, ← has]
      exact inferences_append _ _
    · rw [conclusions_append, List.mem_append, not_or]
      exact ⟨hold hs, hnew⟩

/-- A result with a log that can be checked against some clauses. -/
structure Outcome.Checkable (input : List LiteralSet) (o : Outcome) : Prop where
  /-- The inferences follow from the clauses. -/
  derivation : Derivation input o.applications
  /-- A contradiction was found exactly if the last inference is a resolution that gives the empty
  clause. -/
  unsatisfiable_iff : o.unsatisfiable = true ↔
    ∃ a, o.applications.getLast? = some a ∧ a.rule = "resolution" ∧ a.generated = [∅]
  /-- No inference before the last one gives the empty clause. -/
  empty_notMem : ∅ ∉ conclusions o.applications.dropLast

/-- A search that gives a result has a log that can be checked, as long as its input has no empty
clause. -/
theorem checkable_of_run {limit : Option Int} {clauses : List LiteralSet} {o : Outcome}
    (hne : ∅ ∉ clauses) (h : run limit clauses = .ok o) :
    o.Checkable (clauses.filter (!·.isTautology)) := by
  obtain ⟨o', ho, rfl⟩ := run_eq_ok_iff.1 h
  have hends : Ends (initial clauses) o' := ho.ends_start
  have hstart : ∅ ∉ initial clauses := fun he => hne (mem_initial.1 he).1
  have happlications := applications_dropped_append clauses o'
  refine ⟨?_, ?_, ?_⟩ <;> rw [happlications]
  · refine hends.derivation.mono fun c hc => List.mem_filter.2 ?_
    obtain ⟨hc, ht⟩ := mem_initial.1 hc
    exact ⟨hc, by rw [ht]; rfl⟩
  · rcases hends.empty_conclusion hstart with ⟨hsat, hnone⟩ | ⟨hunsat, as, a, has, -, ha⟩
    · refine iff_of_false (by simp [hsat]) ?_
      rintro ⟨a, hlast, -, hgen⟩
      refine hnone (List.mem_flatMap.2 ⟨a, List.mem_of_getLast? hlast, ?_⟩)
      rw [hgen]
      exact List.mem_singleton_self ∅
    · exact iff_of_true hunsat ⟨a, by rw [has, List.getLast?_concat], ha⟩
  · rcases hends.empty_conclusion hstart with ⟨-, hnone⟩ | ⟨-, as, a, has, hnew, -⟩
    · intro he
      obtain ⟨a, ha, hea⟩ := List.mem_flatMap.1 he
      exact hnone (List.mem_flatMap.2 ⟨a, List.mem_of_mem_dropLast ha, hea⟩)
    · rwa [has, List.dropLast_concat]

/-- The clauses of an input as sets, without the tautologies. -/
def input (cs : List (List Literal)) : List LiteralSet :=
  (cs.map .ofList).filter (!·.isTautology)

end Saturation

open Saturation

/-- **The log is a proof**: whenever a search among clauses that are not empty gives a result, under
any limit, its inferences can be checked one by one against the clauses, and they end with the empty
clause exactly if the result is that the clauses contradict each other. The clauses of a refutation
are never empty, so this holds of every refutation by saturation. -/
theorem run_saturation_checkable (limit : Option Int) :
    (∀ (cs : List (List Literal)) (o : Saturation.Outcome), (∀ c ∈ cs, c ≠ []) →
      Strategy.saturation.run limit cs = .ok (.saturation o) → o.Checkable (input cs)) ∧
    ∀ (t : Table) (f : Formula) (r : Refutation Empty),
      f.refute .saturation t limit = .ok r →
        (∀ c ∈ r.normalForm.clauses, c ≠ []) ∧
        ∃ o, r.outcome = .saturation o ∧ o.Checkable (input r.normalForm.clauses) := by
  have hrun : ∀ (cs : List (List Literal)) (o : Outcome), (∀ c ∈ cs, c ≠ []) →
      Strategy.saturation.run limit cs = .ok o →
        ∃ o', o = .saturation o' ∧ o'.Checkable (input cs) := by
    intro cs o hcs h
    obtain ⟨o', hsearch, rfl⟩ := Strategy.run_saturation_eq_ok_iff.1 h
    refine ⟨o', rfl, checkable_of_run (fun he => ?_) hsearch⟩
    obtain ⟨c, hc, he⟩ := List.mem_map.1 he
    exact hcs c hc (LiteralSet.eq_nil_of_ofList he)
  refine ⟨fun cs o hcs h => ?_, fun t f r h => ?_⟩
  · obtain ⟨o', ho, hcheck⟩ := hrun cs _ hcs h
    cases ho
    exact hcheck
  · obtain ⟨o, hsearch, rfl⟩ := Formula.refute_eq_ok_iff.1 h
    have hne : ∀ c ∈ (Formula.normalForm t (.neg f)).clauses, c ≠ [] := fun c hc =>
      Formula.ne_nil_of_mem_normalForm t (.neg f) hc
    exact ⟨hne, hrun _ o hne hsearch⟩

/-- For instance, `P` removes `P | Q`, and is resolved with `!P` then. -/
theorem run_saturation_checkable_removal :
    ∃ o, Strategy.saturation.run none
        [[⟨"P", true⟩, ⟨"Q", true⟩], [⟨"P", true⟩], [⟨"P", false⟩]] = .ok (.saturation o) ∧
      o.applications =
        [{ rule := "subsumption", parents := [.ofList [⟨"P", true⟩]]
           deleted := [.ofList [⟨"P", true⟩, ⟨"Q", true⟩]] },
         { rule := "resolution", parents := [.ofList [⟨"P", true⟩], .ofList [⟨"P", false⟩]]
           generated := [∅] }] ∧
      o.Checkable (input [[⟨"P", true⟩, ⟨"Q", true⟩], [⟨"P", true⟩], [⟨"P", false⟩]]) :=
  ⟨_, rfl, by decide, (run_saturation_checkable none).1 _ _ (by decide) rfl⟩

end PropProver
