import PropProver.Proofs.Saturation.Run

/-!
# All clauses of a search

The events of a search tell which inferences were made (`inferences`), and these tell which clauses
they gave (`conclusions`). The clauses that were ever there are those of the start and the
conclusions (`history`). However many of them were removed since, every one is still covered
(`Reached.covers_history`). So a clause that is kept is new to the whole history and not only to
what is left of it: the conclusions of a search are fresh, one after the other (`Ends.fresh`).
-/

namespace PropProver.Saturation

open LiteralSet

/-- The inferences that events tell of, in order. -/
def inferences (events : List Event) : List Application := events.filterMap Event.application?

/-- The clauses that inferences give, in order. -/
def conclusions (as : List Application) : List LiteralSet := as.flatMap Application.generated

theorem inferences_append (es fs : List Event) :
    inferences (es ++ fs) = inferences es ++ inferences fs :=
  List.filterMap_append

theorem inferences_map_applied (as : List Application) : inferences (as.map .applied) = as := by
  rw [inferences, List.filterMap_map]
  exact List.filterMap_some

theorem conclusions_append (as bs : List Application) :
    conclusions (as ++ bs) = conclusions as ++ conclusions bs :=
  List.flatMap_append

/-- Leaving out tautologies is no inference. -/
theorem inferences_dropped (clauses : List LiteralSet) : inferences (dropped clauses) = [] := by
  rw [inferences, dropped, List.filterMap_map]
  exact List.filterMap_eq_nil_iff.2 fun _ _ => rfl

theorem applications_dropped_append (clauses : List LiteralSet) (o : Outcome) :
    Outcome.applications { o with events := dropped clauses ++ o.events } = o.applications := by
  change inferences (dropped clauses ++ o.events) = inferences o.events
  rw [inferences_append, inferences_dropped, List.nil_append]

/-- The clauses of the start, and those that the inferences of the events gave. -/
def history (start : List LiteralSet) (events : List Event) : List LiteralSet :=
  start ++ conclusions (inferences events)

theorem history_append (start : List LiteralSet) (es fs : List Event) :
    history start (es ++ fs) = history start es ++ conclusions (inferences fs) := by
  rw [history, inferences_append, conclusions_append, ← List.append_assoc, history]

/-! ### The inferences of a turn -/

variable {given c : LiteralSet} {s : State}

/-- A given clause that is not dropped removes clauses first, and is resolved then. -/
theorem inferences_resolved (given : LiteralSet) (s : State) :
    inferences (removals given s ++ .given given :: (pass given s).applications.map .applied) =
      (Application.subsumption? given s.processed).toList ++ (pass given s).applications := by
  rw [removals, inferences_append, inferences_map_applied]
  exact congrArg (_ ++ ·) (inferences_map_applied _)

theorem conclusions_subsumption? (c : LiteralSet) (others : List LiteralSet) :
    conclusions (Application.subsumption? c others).toList = [] := by
  unfold Application.subsumption?
  split <;> rfl

/-- Only resolution gives clauses. -/
theorem conclusions_resolved (given : LiteralSet) (s : State) :
    conclusions (inferences
      (removals given s ++ .given given :: (pass given s).applications.map .applied)) =
        (pass given s).generated := by
  rw [inferences_resolved, conclusions_append, conclusions_subsumption?]
  rfl

/-- The clauses that a turn gives are there afterwards. -/
theorem mem_all_of_mem_conclusions (h : (turn given s).closed = false)
    (hc : c ∈ conclusions (inferences (turn given s).events)) : c ∈ (turn given s).state.all := by
  rcases turn_cases given s with ⟨-, ht⟩ | ⟨-, -, ht⟩ | ⟨-, -, ht⟩ <;> rw [ht] at h hc ⊢
  · cases h
  · cases hc
  · rw [conclusions_resolved] at hc
    rw [all_resolved h]
    exact List.mem_append_right _ hc

/-- What is there after a turn was there before, or the turn gives it. -/
theorem mem_conclusions_of_mem_all (h : (turn given s).closed = false)
    (hc : c ∈ (turn given s).state.all) :
    c ∈ given :: s.all ∨ c ∈ conclusions (inferences (turn given s).events) := by
  rcases turn_cases given s with ⟨-, ht⟩ | ⟨-, -, ht⟩ | ⟨-, -, ht⟩ <;> rw [ht] at h hc ⊢
  · cases h
  · exact .inl (List.mem_cons_of_mem _ hc)
  · rw [all_resolved h] at hc
    rw [conclusions_resolved]
    exact (List.mem_append.1 hc).imp_left mem_of_mem_resolved_append

/-! ### What was there and what is there -/

variable {start : List LiteralSet} {events : List Event}

/-- The clauses of a reached state are from its history. -/
theorem Reached.mem_history (h : Reached start events s) : ∀ c ∈ s.all, c ∈ history start events := by
  induction h with
  | start =>
    intro c hc
    exact List.mem_append_left _ hc
  | turn _ hn hclosed ih =>
    intro c hc
    rw [history_append]
    rcases mem_conclusions_of_mem_all hclosed hc with hc | hc
    · exact List.mem_append_left _ (ih c ((mem_all_iff_of_next? hn).2 hc))
    · exact List.mem_append_right _ hc

/-- Everything that was ever there is covered. -/
theorem Reached.covers_history (h : Reached start events s) :
    ∀ c ∈ history start events, Covers s.all c := by
  induction h with
  | start =>
    intro c hc
    rw [history, inferences, conclusions, List.filterMap_nil, List.flatMap_nil,
      List.append_nil] at hc
    exact .of_mem hc
  | turn _ hn hclosed ih =>
    intro c hc
    rw [history_append] at hc
    rcases List.mem_append.1 hc with hc | hc
    · exact covers_turn hclosed
        ((ih c hc).of_subset fun d hd => (mem_all_iff_of_next? hn).1 hd)
    · exact .of_mem (mem_all_of_mem_conclusions hclosed hc)

/-! ### What is new -/

/-- What is new to some clauses is new to all that they cover. -/
theorem Fresh.of_covers {base old xs : List LiteralSet} (h : Fresh base xs)
    (hold : ∀ c ∈ old, Covers base c) : Fresh old xs := by
  induction xs generalizing base old with
  | nil => trivial
  | cons x xs ih =>
    obtain ⟨ht, hx, hxs⟩ := h
    refine ⟨ht, fun hcov => hx (hcov.trans hold), ih hxs fun c hc => covers_append.2 ?_⟩
    exact (List.mem_append.1 hc).imp (hold c) .of_mem

/-- In a list of fresh clauses none contains an earlier one. -/
theorem Fresh.pairwise {base xs : List LiteralSet} (h : Fresh base xs) :
    xs.Pairwise fun c d => ¬ c ⊆ d := by
  induction xs generalizing base with
  | nil => exact .nil
  | cons x xs ih =>
    obtain ⟨-, -, hxs⟩ := h
    refine List.pairwise_cons.2 ⟨fun d hd hsub => ?_, ih hxs⟩
    exact (hxs.of_mem hd).2 ⟨x, List.mem_append_right _ (List.mem_singleton_self x), hsub⟩

/-- The clauses that a turn gives are new to the whole history, also if the turn ends the
search. -/
theorem Reached.fresh_conclusions (h : Reached start events s) {rest : State}
    (hn : s.next? = some (given, rest)) :
    Fresh (history start events)
      (conclusions (inferences (Saturation.turn given rest).events)) := by
  rcases turn_cases given rest with ⟨-, ht⟩ | ⟨-, -, ht⟩ | ⟨-, -, ht⟩ <;> rw [ht]
  · trivial
  · trivial
  · rw [conclusions_resolved]
    have hpass : Fresh ((resolved given rest).processed ++ rest.unprocessed)
        (pass given rest).generated := fresh_generated ..
    refine hpass.of_covers fun c hc => covers_resolved ?_
    exact (h.covers_history c hc).of_subset fun d hd => (mem_all_iff_of_next? hn).1 hd

/-- All conclusions on the way to a reached state are fresh. -/
theorem Reached.fresh (h : Reached start events s) :
    Fresh start (conclusions (inferences events)) := by
  induction h with
  | start => trivial
  | turn hs hn _ ih =>
    rw [inferences_append, conclusions_append]
    exact fresh_append.2 ⟨ih, hs.fresh_conclusions hn⟩

/-- All conclusions of a search are fresh. -/
theorem Ends.fresh {o : Outcome} (h : Ends start o) : Fresh start (conclusions o.applications) := by
  cases h with
  | exhausted hs _ => exact hs.fresh
  | @contradiction events _ rest given hs hn _ =>
    change Fresh start (conclusions (inferences (events ++ (turn given rest).events)))
    rw [inferences_append, conclusions_append]
    exact fresh_append.2 ⟨hs.fresh, hs.fresh_conclusions hn⟩

/-- The conclusions of the search from an input are new to the input, tautologies apart. -/
theorem fresh_of_run {limit : Option Int} {clauses : List LiteralSet} {o : Outcome}
    (h : run limit clauses = .ok o) : Fresh (initial clauses) (conclusions o.applications) := by
  obtain ⟨o', ho, rfl⟩ := run_eq_ok_iff.1 h
  rw [applications_dropped_append]
  exact ho.ends_start.fresh

end PropProver.Saturation
