import PropProver.Proofs.Saturation.Turn

/-!
# The invariant of the search

A state is reached from the clauses of the start by turns that do not end the search (`Reached`);
the events on the way tell which clauses were given. Such a state satisfies the `Invariant`: there
are no tautologies and no repeats, no clause is given a second time, the processed clauses are an
antichain, and everything that was there at the start, was given, or follows from the processed
clauses by resolution is still covered.

What the resolvents of clauses inherit from them, all clauses of a reached state have
(`Reached.forall_mem_all`). So the clauses of a reached state say the same as those of the start
(`Reached.forall_holds_iff`).
-/

namespace PropProver.Saturation

open LiteralSet

/-- The clause that was given, for the events that say so. -/
def Event.given? : Event → Option LiteralSet
  | .subsumed c => some c
  | .given c => some c
  | _ => none

/-- The clauses that were given, in order. -/
def givens (events : List Event) : List LiteralSet := events.filterMap Event.given?

theorem givens_append (es fs : List Event) : givens (es ++ fs) = givens es ++ givens fs :=
  List.filterMap_append

/-- Leaving out tautologies gives no clause. -/
theorem givens_dropped (clauses : List LiteralSet) : givens (dropped clauses) = [] := by
  rw [givens, dropped, List.filterMap_map]
  exact List.filterMap_eq_nil_iff.2 fun _ _ => rfl

/-- A turn that is not about the empty clause tells which clause was given. -/
theorem givens_turn {given : LiteralSet} (s : State) (h : given ≠ ∅) :
    givens (turn given s).events = [given] := by
  have none_of_applied (as : List Application) : givens (as.map Event.applied) = [] := by
    rw [givens, List.filterMap_map]
    exact List.filterMap_eq_nil_iff.2 fun _ _ => rfl
  rcases turn_cases given s with ⟨he, -⟩ | ⟨-, -, ht⟩ | ⟨-, -, ht⟩
  · exact absurd he h
  · rw [ht]
    rfl
  · rw [ht, givens_append, removals, none_of_applied, List.nil_append]
    exact congrArg (given :: ·) (none_of_applied _)

theorem ne_empty_of_turn {given : LiteralSet} {s : State} (h : (turn given s).closed = false) :
    given ≠ ∅ := by
  rcases turn_cases given s with ⟨-, ht⟩ | ⟨hne, -⟩ | ⟨hne, -⟩
  · rw [ht] at h
    cases h
  · exact hne
  · exact hne

/-- The states that are reached from the clauses of a start, with the events on the way. -/
inductive Reached (start : List LiteralSet) : List Event → State → Prop where
  /-- At the start all clauses wait. -/
  | start : Reached start [] ⟨[], start⟩
  /-- The oldest waiting clause has its turn. -/
  | turn {events : List Event} {s rest : State} {given : LiteralSet} : Reached start events s →
      s.next? = some (given, rest) → (turn given rest).closed = false →
      Reached start (events ++ (turn given rest).events) (turn given rest).state

theorem next?_eq_some {s rest : State} {given : LiteralSet} (h : s.next? = some (given, rest)) :
    s.processed = rest.processed ∧ s.unprocessed = given :: rest.unprocessed := by
  obtain ⟨processed, unprocessed⟩ := s
  cases unprocessed with
  | nil => cases h
  | cons c cs =>
    cases h
    exact ⟨rfl, rfl⟩

theorem next?_eq_none {s : State} (h : s.next? = none) : s.unprocessed = [] := by
  obtain ⟨processed, unprocessed⟩ := s
  cases unprocessed with
  | nil => rfl
  | cons c cs => cases h

/-- Taking the oldest clause out changes the order only. -/
theorem mem_all_iff_of_next? {s rest : State} {given : LiteralSet}
    (h : s.next? = some (given, rest)) {c : LiteralSet} : c ∈ s.all ↔ c ∈ given :: rest.all := by
  obtain ⟨hp, hu⟩ := next?_eq_some h
  simp only [State.all, hp, hu, List.mem_append, List.mem_cons]
  exact or_left_comm

/-! ### What resolvents inherit -/

variable {start : List LiteralSet}

/-- What all clauses of the start have and resolvents inherit, all clauses of a reached state
have. -/
theorem Reached.forall_mem_all {P : LiteralSet → Prop} (hstart : ∀ c ∈ start, P c)
    (hres : ∀ c d r, P c → P d → r ∈ resolvents c d → P r) {events : List Event} {s : State}
    (h : Reached start events s) : ∀ c ∈ s.all, P c := by
  induction h with
  | start => exact hstart
  | turn _ hn hclosed ih =>
    intro c hc
    have old : ∀ d ∈ _ :: State.all _, P d := fun d hd => ih d ((mem_all_iff_of_next? hn).2 hd)
    rcases mem_all_turn hclosed hc with hc | ⟨p, hp, hr⟩
    · exact old c hc
    · exact hres p _ c (old p (List.mem_cons_of_mem _ (List.mem_append_left _ hp)))
        (old _ List.mem_cons_self) hr

/-- What is covered at the start stays covered. -/
theorem Reached.covers_all {events : List Event} {s : State} (h : Reached start events s) :
    ∀ c ∈ start, Covers s.all c := by
  induction h with
  | start => exact fun c hc => .of_mem hc
  | turn _ hn hclosed ih =>
    exact fun c hc => covers_turn hclosed
      ((ih c hc).of_subset fun d hd => (mem_all_iff_of_next? hn).1 hd)

/-- The clauses of a reached state and those of the start hold under the same assignments. -/
theorem Reached.forall_holds_iff {events : List Event} {s : State} (h : Reached start events s)
    (v : Assignment) : (∀ c ∈ s.all, c.Holds v) ↔ ∀ c ∈ start, c.Holds v := by
  constructor
  · exact fun hv c hc => (h.covers_all c hc).holds hv
  · exact fun hv => h.forall_mem_all hv fun c d r hc hd hr => hc.resolvent hr hd

/-! ### The invariant -/

/-- What holds between two turns, given the clauses that have had theirs. -/
structure Invariant (seen : List LiteralSet) (s : State) : Prop where
  /-- There are no tautologies. -/
  not_tautology : ∀ c ∈ s.all, c.isTautology = false
  /-- No clause was given twice, waits twice, or waits after it was given. -/
  nodup : (seen ++ s.unprocessed).Nodup
  /-- The processed clauses were given. -/
  mem_seen : ∀ c ∈ s.processed, c ∈ seen
  /-- The empty clause is not processed. -/
  ne_empty : ∀ c ∈ s.processed, c ≠ ∅
  /-- No processed clause contains another one. -/
  antichain : Antichain s.processed
  /-- Every clause that was given contains a processed clause. -/
  covers_seen : ∀ c ∈ seen, Covers s.processed c
  /-- The resolvents of processed clauses are tautologies or covered. -/
  closed : ∀ c ∈ s.processed, ∀ d ∈ s.processed, ∀ r ∈ resolvents c d, r.isTautology = false →
    Covers s.all r

theorem invariant_start (hnodup : start.Nodup) (htaut : ∀ c ∈ start, c.isTautology = false) :
    Invariant [] ⟨[], start⟩ where
  not_tautology := htaut
  nodup := hnodup
  mem_seen := nofun
  ne_empty := nofun
  antichain := .nil
  covers_seen := nofun
  closed := nofun

namespace Invariant

variable {seen : List LiteralSet} {s rest : State} {given : LiteralSet}

/-- A clause that is there is there once. -/
theorem nodup_all (h : Invariant seen s) : s.all.Nodup := by
  obtain ⟨-, hwait, hdisj⟩ := List.nodup_append.1 h.nodup
  exact List.nodup_append.2 ⟨h.antichain.nodup, hwait, fun c hc => hdisj c (h.mem_seen c hc)⟩

theorem nodup_next (h : Invariant seen s) (hn : s.next? = some (given, rest)) :
    (seen ++ [given] ++ rest.unprocessed).Nodup := by
  have := h.nodup
  rw [(next?_eq_some hn).2] at this
  rwa [List.append_assoc, List.singleton_append]

theorem not_tautology_next (h : Invariant seen s) (hn : s.next? = some (given, rest)) :
    ∀ c ∈ given :: rest.all, c.isTautology = false :=
  fun c hc => h.not_tautology c ((mem_all_iff_of_next? hn).2 hc)

theorem covers_seen_turn (h : Invariant seen s) (hn : s.next? = some (given, rest))
    (hclosed : (turn given rest).closed = false) :
    ∀ c ∈ seen ++ [given], Covers (turn given rest).state.processed c := by
  intro c hc
  refine covers_processed_turn hclosed ?_
  rcases List.mem_append.1 hc with hc | hc
  · rw [← (next?_eq_some hn).1]
    exact (h.covers_seen c hc).of_subset fun d hd => List.mem_cons_of_mem _ hd
  · exact List.mem_singleton.1 hc ▸ .of_mem List.mem_cons_self

/-- The resolvents of old processed clauses stay covered. -/
theorem closed_turn (h : Invariant seen s) (hn : s.next? = some (given, rest))
    (hclosed : (turn given rest).closed = false) {c d r : LiteralSet} (hc : c ∈ rest.processed)
    (hd : d ∈ rest.processed) (hr : r ∈ resolvents c d) (ht : r.isTautology = false) :
    Covers (turn given rest).state.all r := by
  obtain ⟨hp, -⟩ := next?_eq_some hn
  exact covers_turn hclosed ((h.closed c (hp ▸ hc) d (hp ▸ hd) r hr ht).of_subset fun e he =>
    (mem_all_iff_of_next? hn).1 he)

/-- The invariant after a turn in which the given clause is dropped. -/
theorem drop (h : Invariant seen s) (hn : s.next? = some (given, rest)) (hne : given ≠ ∅)
    (hcov : Covers rest.processed given) : Invariant (seen ++ [given]) rest := by
  obtain ⟨hp, -⟩ := next?_eq_some hn
  have ht := turn_of_covers hne hcov
  have hclosed : (turn given rest).closed = false := by rw [ht]
  have hcovers := h.covers_seen_turn hn hclosed
  have hres : ∀ c ∈ rest.processed, ∀ d ∈ rest.processed, ∀ r ∈ resolvents c d,
      r.isTautology = false → Covers (turn given rest).state.all r :=
    fun c hc d hd r hr htaut => h.closed_turn hn hclosed hc hd hr htaut
  rw [ht] at hcovers hres
  exact {
    not_tautology := fun c hc => h.not_tautology_next hn c (List.mem_cons_of_mem _ hc)
    nodup := h.nodup_next hn
    mem_seen := fun c hc => List.mem_append_left _ (h.mem_seen c (hp ▸ hc))
    ne_empty := hp ▸ h.ne_empty
    antichain := hp ▸ h.antichain
    covers_seen := hcovers
    closed := hres }

section Resolved

variable (h : Invariant seen s) (hn : s.next? = some (given, rest))
include h hn

/-- No tautology comes in. -/
theorem not_tautology_resolved (hclosed : (pass given rest).closed = false) :
    ∀ c ∈ (resolved given rest).all, c.isTautology = false := by
  intro c hc
  have hfresh : Fresh (remaining given rest ++ [given] ++ rest.unprocessed)
      (pass given rest).generated := fresh_generated ..
  rw [all_resolved hclosed] at hc
  rcases List.mem_append.1 hc with hc | hc
  · exact h.not_tautology_next hn c (mem_of_mem_resolved_append hc)
  · exact (hfresh.of_mem hc).1

/-- A new clause is not covered, but all clauses that were given or wait are. -/
theorem nodup_resolved (hcovers : ∀ c ∈ seen ++ [given], Covers (resolved given rest).processed c)
    (hclosed : (pass given rest).closed = false) :
    (seen ++ [given] ++ (resolved given rest).unprocessed).Nodup := by
  have hfresh : Fresh ((resolved given rest).processed ++ rest.unprocessed)
      (pass given rest).generated := fresh_generated ..
  rw [resolved, pass, unprocessed_resolveWith hclosed, ← List.append_assoc]
  refine List.nodup_append.2 ⟨h.nodup_next hn, hfresh.nodup, ?_⟩
  rintro c hc _ hd rfl
  refine (hfresh.of_mem hd).2 (covers_append.2 ?_)
  exact (List.mem_append.1 hc).imp (hcovers c) .of_mem

/-- The given clause is not covered, and the clauses that contain it do not stay. -/
theorem antichain_resolved (hcov : ¬ Covers rest.processed given) :
    Antichain (resolved given rest).processed := by
  have hold : Antichain rest.processed := (next?_eq_some hn).1 ▸ h.antichain
  refine List.pairwise_append.2 ⟨hold.filter _, List.pairwise_singleton _ _, ?_⟩
  intro c hc d hd
  obtain ⟨hc, hsub⟩ := mem_remaining.1 hc
  rw [List.mem_singleton.1 hd]
  exact ⟨fun hsub => hcov ⟨c, hc, hsub⟩, hsub⟩

/-- The resolvents of old clauses were covered, and those with the given clause are now. -/
theorem closed_resolved (hne : given ≠ ∅) (hcov : ¬ Covers rest.processed given)
    (hclosed : (pass given rest).closed = false) :
    ∀ c ∈ (resolved given rest).processed, ∀ d ∈ (resolved given rest).processed,
      ∀ r ∈ resolvents c d, r.isTautology = false → Covers (resolved given rest).all r := by
  have ht := turn_of_not_covers hne hcov
  have hold : ∀ c ∈ remaining given rest, ∀ d ∈ remaining given rest, ∀ r ∈ resolvents c d,
      r.isTautology = false → Covers (resolved given rest).all r := by
    intro c hc d hd r hr htaut
    have := h.closed_turn hn (by rw [ht]; exact hclosed) (mem_remaining.1 hc).1
      (mem_remaining.1 hd).1 hr htaut
    rwa [ht] at this
  have hnew : ∀ p ∈ remaining given rest, ∀ r ∈ p.resolvents given, r.isTautology = false →
      Covers (resolved given rest).all r := by
    intro p hp r hr htaut
    rw [all_resolved hclosed]
    exact covers_resolvents hclosed hp hr htaut
  have hgiven : given.isTautology = false := h.not_tautology_next hn given List.mem_cons_self
  intro c hc d hd r hr htaut
  rcases List.mem_append.1 hc with hc | hc <;> rcases List.mem_append.1 hd with hd | hd
  · exact hold c hc d hd r hr htaut
  · rw [List.mem_singleton.1 hd] at hr
    exact hnew c hc r hr htaut
  · rw [List.mem_singleton.1 hc] at hr
    exact hnew d hd r (resolvents_symm hr) htaut
  · rw [List.mem_singleton.1 hc, List.mem_singleton.1 hd] at hr
    exact absurd hr (resolvents_self hgiven)

/-- The invariant after a turn in which the given clause is resolved. -/
theorem resolve (hne : given ≠ ∅) (hcov : ¬ Covers rest.processed given)
    (hclosed : (pass given rest).closed = false) :
    Invariant (seen ++ [given]) (resolved given rest) := by
  obtain ⟨hp, -⟩ := next?_eq_some hn
  have ht := turn_of_not_covers hne hcov
  have hcovers := h.covers_seen_turn hn (by rw [ht]; exact hclosed)
  rw [ht] at hcovers
  refine ⟨h.not_tautology_resolved hn hclosed, h.nodup_resolved hn hcovers hclosed, ?_, ?_,
    h.antichain_resolved hn hcov, hcovers, h.closed_resolved hn hne hcov hclosed⟩
  · intro c hc
    rcases List.mem_cons.1 (mem_of_mem_resolved hc) with rfl | hc
    · exact List.mem_append_right _ (List.mem_singleton_self c)
    · exact List.mem_append_left _ (h.mem_seen c (hp ▸ hc))
  · intro c hc
    rcases List.mem_cons.1 (mem_of_mem_resolved hc) with rfl | hc
    · exact hne
    · exact h.ne_empty c (hp ▸ hc)

end Resolved

/-- A turn keeps the invariant. -/
theorem turn (h : Invariant seen s) (hn : s.next? = some (given, rest))
    (hclosed : (turn given rest).closed = false) :
    Invariant (seen ++ [given]) (turn given rest).state := by
  rcases turn_cases given rest with ⟨-, ht⟩ | ⟨hne, hcov, ht⟩ | ⟨hne, hcov, ht⟩ <;>
    rw [ht] at hclosed ⊢
  · cases hclosed
  · exact h.drop hn hne hcov
  · exact h.resolve hn hne hcov hclosed

end Invariant

/-- The invariant holds in every reached state. -/
theorem Reached.invariant (hnodup : start.Nodup) (htaut : ∀ c ∈ start, c.isTautology = false)
    {events : List Event} {s : State} (h : Reached start events s) :
    Invariant (givens events) s := by
  induction h with
  | start => exact invariant_start hnodup htaut
  | turn _ hn hclosed ih =>
    rw [givens_append, givens_turn _ (ne_empty_of_turn hclosed)]
    exact ih.turn hn hclosed

end PropProver.Saturation
