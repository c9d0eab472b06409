import PropProver.Proofs.Saturation.History
import PropProver.Proofs.Saturation.Verdict

/-!
# What holds before every given clause

Each time a search looks for its next given clause it is at a checkpoint, which is told by what has
happened and by the clauses that are there. A search goes from checkpoint to checkpoint
(`checkpoints`), and at the last one it is decided what it gives (`Checkpoint.finish`,
`exists_run_eq_finish`): no clause waits, or the limit is reached, or the next turn finds the empty
clause.

The states of the checkpoints are reached states, so they satisfy the invariant, and everything in
their history is covered. `Checkpoint.Sound` says what this means for the clauses of the input: no
clause that was ever there and no resolvent of processed clauses has been lost.
-/

namespace PropProver

namespace Saturation

open LiteralSet

/-! ### From checkpoint to checkpoint -/

/-- A search that looks for its next given clause. -/
structure Checkpoint where
  /-- What has happened. -/
  events : List Event
  /-- The clauses that are there. -/
  state : State
  deriving DecidableEq

namespace Checkpoint

/-- The checkpoint after the turn of the oldest waiting clause. There is none if no clause waits, or
if the turn ends the search. -/
def next? (c : Checkpoint) : Option Checkpoint :=
  match c.state.next? with
  | none => none
  | some (given, rest) =>
    if (turn given rest).closed then none
    else some ⟨c.events ++ (turn given rest).events, (turn given rest).state⟩

/-- The checkpoint and those that come after it, with no more turns between them than a number
says. -/
def follow : Nat → Checkpoint → List Checkpoint
  | 0, c => [c]
  | n + 1, c =>
    match c.next? with
    | none => [c]
    | some d => c :: follow n d

/-- What a search gives at its last checkpoint, given its limit and the number of clauses that were
given before. -/
def finish (limit : Option Int) (n : Nat) (c : Checkpoint) : Except LimitReached Outcome :=
  match c.state.next? with
  | none => .ok ⟨false, c.state, n, c.events⟩
  | some (given, rest) =>
    match limit.filter (· ≤ (n : Int)) with
    | some bound => .error ⟨bound, c.state.processed.length, c.state.unprocessed.length⟩
    | none => .ok ⟨true, (turn given rest).state, n + 1, c.events ++ (turn given rest).events⟩

/-- What a search gives that goes on from a checkpoint, given its limit, the number of clauses that
it is still allowed, and the number of those that were given before. -/
def resume (limit : Int) (n k : Nat) (c : Checkpoint) : Except LimitReached Outcome :=
  match advance n c.state with
  | .ended o => .ok { o with given := k + o.given, events := c.events ++ o.events }
  | .paused s => .error ⟨limit, s.processed.length, s.unprocessed.length⟩

variable {limit : Int} {n k : Nat} {c d : Checkpoint}

theorem next?_eq_some_iff :
    c.next? = some d ↔ ∃ given rest, c.state.next? = some (given, rest) ∧
      (turn given rest).closed = false ∧
      d = ⟨c.events ++ (turn given rest).events, (turn given rest).state⟩ := by
  unfold next?
  constructor
  · intro h
    split at h
    · cases h
    · next given rest hn =>
      split at h
      · cases h
      · next hopen =>
        cases h
        exact ⟨given, rest, hn, Bool.not_eq_true _ ▸ hopen, rfl⟩
  · rintro ⟨given, rest, hn, hopen, rfl⟩
    simp [hn, hopen]

theorem resume_of_next? (h : c.next? = some d) :
    c.resume limit (n + 1) k = d.resume limit n (k + 1) := by
  obtain ⟨given, rest, hn, hopen, rfl⟩ := next?_eq_some_iff.1 h
  rw [resume, resume, advance_succ hn, if_neg (Bool.not_eq_true _ ▸ hopen)]
  cases advance n (turn given rest).state with
  | ended o => simp [Progress.after, Nat.add_assoc, List.append_assoc]
  | paused s => rfl

/-- Without a clause that is still allowed, it is the limit that stops the search. -/
theorem resume_zero (h : limit.toNat = k) : c.resume limit 0 k = c.finish (some limit) k := by
  unfold resume finish
  cases hn : c.state.next? with
  | none => simp [advance_of_none hn]
  | some p =>
    have hle : limit ≤ k := by omega
    simp [advance_zero hn, Option.filter, hle]

/-- Without a next checkpoint, it is the turn of the oldest waiting clause that ends the search. -/
theorem resume_of_last (h : c.next? = none) (hk : k < limit.toNat) :
    c.resume limit (n + 1) k = c.finish (some limit) k := by
  unfold resume finish
  cases hn : c.state.next? with
  | none => simp [advance_of_none hn]
  | some p =>
    obtain ⟨given, rest⟩ := p
    have hclosed : (turn given rest).closed = true := by
      by_contra hopen
      rw [Bool.not_eq_true] at hopen
      rw [next?_eq_some_iff.2 ⟨given, rest, hn, hopen, rfl⟩] at h
      cases h
    have hle : ¬ limit ≤ k := by omega
    simp [advance_succ hn, hclosed, Option.filter, hle]

/-- What a search gives is decided at its last checkpoint. -/
theorem exists_resume_eq_finish (h : limit.toNat = k + n) :
    ∃ before last, c.follow n = before ++ [last] ∧
      c.resume limit n k = last.finish (some limit) (k + before.length) := by
  induction n generalizing k c with
  | zero => exact ⟨[], c, rfl, resume_zero h⟩
  | succ n ih =>
    cases hn : c.next? with
    | none => exact ⟨[], c, by simp [follow, hn], resume_of_last hn (by omega)⟩
    | some d =>
      obtain ⟨before, last, hfollow, hresume⟩ := ih (k := k + 1) (c := d) (by omega)
      refine ⟨c :: before, last, by simp [follow, hn, hfollow], ?_⟩
      rw [resume_of_next? hn, hresume, List.length_cons, Nat.add_assoc, Nat.add_comm 1]

/-- A result that is given in spite of a limit is given without one. -/
theorem finish_none {o : Outcome} (h : c.finish (some limit) n = .ok o) :
    c.finish none n = .ok o := by
  unfold finish at h ⊢
  split at h
  · exact h
  · split at h
    · cases h
    · exact h

end Checkpoint

/-- The checkpoints of the search from an input, the first one before any clause is given. -/
def checkpoints (limit : Option Int) (clauses : List LiteralSet) : List Checkpoint :=
  Checkpoint.follow (allowance limit clauses) ⟨dropped clauses, ⟨[], initial clauses⟩⟩

/-- What a search gives is decided at the last of its checkpoints, after one given clause for each
of those before it. -/
theorem exists_run_eq_finish (limit : Option Int) (clauses : List LiteralSet) :
    ∃ before last, checkpoints limit clauses = before ++ [last] ∧
      run limit clauses = last.finish limit before.length := by
  have hrun (bound : Int) : ∃ before last, checkpoints (some bound) clauses = before ++ [last] ∧
      run (some bound) clauses = last.finish (some bound) before.length := by
    obtain ⟨before, last, hfollow, hresume⟩ := Checkpoint.exists_resume_eq_finish
      (c := ⟨dropped clauses, ⟨[], initial clauses⟩⟩) (Nat.zero_add bound.toNat).symm
    rw [Nat.zero_add] at hresume
    refine ⟨before, last, hfollow, hresume ▸ ?_⟩
    rw [run, Checkpoint.resume, Option.getD_some]
    cases advance bound.toNat ⟨[], initial clauses⟩ <;> simp
  cases limit with
  | some bound => exact hrun bound
  | none =>
    obtain ⟨before, last, hcheckpoints, hfinish⟩ := hrun (3 ^ (atoms clauses).length : Nat)
    refine ⟨before, last, hcheckpoints, ?_⟩
    obtain ⟨o, ho, -⟩ := exists_run_none clauses
    rw [run_some_of_le (Int.le_refl _), ho] at hfinish
    rw [ho, Checkpoint.finish_none hfinish.symm]

/-! ### What holds at a checkpoint -/

namespace Checkpoint

variable {clauses : List LiteralSet} {c d : Checkpoint} {n : Nat}

/-- The search from an input comes to the checkpoint. -/
def IsReached (clauses : List LiteralSet) (c : Checkpoint) : Prop :=
  ∃ events, c.events = dropped clauses ++ events ∧ Reached (initial clauses) events c.state

theorem IsReached.next (h : c.IsReached clauses) (hn : c.next? = some d) : d.IsReached clauses := by
  obtain ⟨events, hevents, hreached⟩ := h
  obtain ⟨given, rest, hs, hopen, rfl⟩ := next?_eq_some_iff.1 hn
  exact ⟨_, by rw [hevents, List.append_assoc], hreached.turn hs hopen⟩

theorem IsReached.follow (h : c.IsReached clauses) : ∀ d ∈ c.follow n, d.IsReached clauses := by
  induction n generalizing c with
  | zero =>
    intro d hd
    rwa [List.mem_singleton.1 hd]
  | succ n ih =>
    intro d hd
    unfold Checkpoint.follow at hd
    split at hd
    · rwa [List.mem_singleton.1 hd]
    · next c' hn =>
      rcases List.mem_cons.1 hd with rfl | hd
      · exact h
      · exact ih (h.next hn) d hd

/-- What holds at the checkpoints of the search from an input. -/
structure Sound (cs : List (List Literal)) (c : Checkpoint) : Prop where
  /-- There are no tautologies. -/
  not_tautology : ∀ d ∈ c.state.all, d.isTautology = false
  /-- No clause is there twice. -/
  nodup : c.state.all.Nodup
  /-- No processed clause is contained in another one. -/
  antichain : Antichain c.state.processed
  /-- Every clause of the input that is no tautology contains one that is there. -/
  covers_input : ∀ d ∈ cs.map .ofList, d.isTautology = false → Covers c.state.all d
  /-- So does every clause that was given. -/
  covers_given : ∀ d ∈ givens c.events, Covers c.state.all d
  /-- So does every clause that was inferred and kept. -/
  covers_inferred : ∀ d ∈ conclusions (inferences c.events), Covers c.state.all d
  /-- So does every resolvent of processed clauses that is no tautology. -/
  covers_resolvents : ∀ d ∈ c.state.processed, ∀ e ∈ c.state.processed, ∀ r ∈ resolvents d e,
    r.isTautology = false → Covers c.state.all r
  /-- The clauses that are there say the same as the input. -/
  holds_iff : ∀ v : Assignment, (∀ d ∈ c.state.all, d.Holds v) ↔ v.Satisfies cs

/-- Everything follows from the invariant and from the history being covered. -/
theorem IsReached.sound {cs : List (List Literal)} (h : c.IsReached (cs.map .ofList)) :
    c.Sound cs := by
  obtain ⟨events, hevents, hreached⟩ := h
  have hinv := invariant_of_reached hreached
  have hhistory := hreached.covers_history
  refine ⟨hinv.not_tautology, hinv.nodup_all, hinv.antichain, ?_, ?_, ?_, hinv.closed, ?_⟩
  · intro d hd ht
    exact hhistory d (List.mem_append_left _ (mem_initial.2 ⟨hd, ht⟩))
  · intro d hd
    rw [hevents, givens_append, givens_dropped, List.nil_append] at hd
    exact (hinv.covers_seen d hd).of_subset fun e he => List.mem_append_left _ he
  · intro d hd
    rw [hevents, inferences_append, inferences_dropped, List.nil_append] at hd
    exact hhistory d (List.mem_append_right _ hd)
  · intro v
    rw [hreached.forall_holds_iff, forall_holds_initial, forall_holds_map_ofList]

end Checkpoint

end Saturation

open Saturation

/-- **Nothing is lost on the way**: whatever its limit, a search goes from checkpoint to checkpoint,
and at the last one it is decided what it gives. At all of them there are no tautologies and no
repeats, the processed clauses do not contain each other, every clause that was in the input, was
given or was inferred contains one that is there, and so do the resolvents of the processed clauses,
tautologies apart. The assignments that satisfy the clauses are those that satisfy the input. -/
theorem run_saturation_checkpoints (limit : Option Int) (cs : List (List Literal)) :
    ∃ before last, checkpoints limit (cs.map .ofList) = before ++ [last] ∧
      Strategy.saturation.run limit cs = .saturation <$> last.finish limit before.length ∧
      ∀ c ∈ before ++ [last], c.Sound cs := by
  obtain ⟨before, last, hcheckpoints, hrun⟩ := exists_run_eq_finish limit (cs.map .ofList)
  have hstart : Checkpoint.IsReached (cs.map .ofList)
      ⟨dropped (cs.map .ofList), ⟨[], initial (cs.map .ofList)⟩⟩ :=
    ⟨[], (List.append_nil _).symm, .start⟩
  refine ⟨before, last, hcheckpoints, by rw [Strategy.run, hrun], fun c hc => ?_⟩
  rw [← hcheckpoints] at hc
  exact (hstart.follow c hc).sound

end PropProver
