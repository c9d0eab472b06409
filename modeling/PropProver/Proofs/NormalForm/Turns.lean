import PropProver.Proofs.NormalForm.Operands
import PropProver.Proofs.Weight

/-!
# The turns of the work list

A normal form is worked out on a queue, and a clause leaves it once it is finished. The same work
can be told of one list of clauses and an index in it. The finished clauses stay before the index,
the clause at the index is looked at in each turn, and the work ends when the index is at the end of
the list (`WorkList.turn`). Both come to the same clauses, turn by turn
(`WorkList.exists_ends_of_ofPending`).

An expansion puts one or two clauses of less weight in the place of a clause. So a clause gives rise
to no more turns than there are nodes in a full binary tree as high as the clause is heavy, and the
number of all turns is bounded (`Table.turns_le`).
-/

namespace PropProver

universe u

variable {ι : Type u}

/-- A list of clauses and an index in it. -/
structure WorkList (ι : Type u) where
  /-- The clauses, finished and unfinished. -/
  clauses : List (Clause ι)
  /-- The index of the clause that is looked at. -/
  index : Nat

namespace WorkList

/-- One turn. The index moves on from a finished clause. An expansion that does not branch replaces
the clause at the index. One that branches takes it out and adds two clauses at the end. Past the
last clause there is no turn. -/
def turn (t : Table) (w : WorkList ι) : Except (Fault ι) (Option (WorkList ι)) :=
  match w.clauses[w.index]? with
  | none => .ok none
  | some c =>
    match c.focus with
    | .faulty f => .error f
    | .finished _ => .ok (some { w with index := w.index + 1 })
    | .compound k rest =>
      match t.expand k with
      | .extend _ p => do
        let d ← (rest.extend p).mapError .operand
        return some { w with clauses := w.clauses.set w.index d }
      | .split _ p q => do
        let d ← (rest.extend p).mapError .operand
        let e ← (rest.extend q).mapError .operand
        return some { w with clauses := w.clauses.eraseIdx w.index ++ [d, e] }

/-- `Ends t w m w'`: after `m` turns from `w` the work ends, at `w'`. -/
inductive Ends (t : Table) : WorkList ι → Nat → WorkList ι → Prop where
  /-- There is no turn. -/
  | here {w : WorkList ι} (h : w.turn t = .ok none) : Ends t w 0 w
  /-- One turn comes before all others. -/
  | turn {w w' w'' : WorkList ι} {m : Nat} (h : w.turn t = .ok (some w')) (rest : Ends t w' m w'') :
    Ends t w (m + 1) w''

/-! ### A queue as a list with an index -/

/-- The list with the finished clauses first, and then those that wait in the queue. -/
def ofQueue (done : List (List Literal)) (pending : Queue (Clause ι)) : WorkList ι :=
  ⟨done.map (·.map Literal.toTree) ++ pending.toList, done.length⟩

variable {t : Table} {done : List (List Literal)} {pending cs : Queue (Clause ι)}
  {c rest : Clause ι}

theorem turn_of_none (h : pending.pop? = none) : (ofQueue done pending).turn t = .ok none := by
  simp [ofQueue, turn, Queue.pop?_eq_none_iff.1 h]

/-- The clause at the index is the first one of the queue. -/
theorem getElem?_ofQueue (h : pending.pop? = some (c, cs)) :
    (ofQueue done pending).clauses[(ofQueue done pending).index]? = some c := by
  simp [ofQueue, Queue.toList_of_pop? h]

theorem turn_of_finished {ls : List Literal} (h : pending.pop? = some (c, cs))
    (hf : c.focus = .finished ls) :
    (ofQueue done pending).turn t = .ok (some (ofQueue (done ++ [ls]) cs)) := by
  simp only [turn, getElem?_ofQueue h, hf]
  simp [ofQueue, Queue.toList_of_pop? h, Clause.eq_map_of_focus hf]

theorem turn_of_compound {k : Compound ι} {new : List (Clause ι)}
    (h : pending.pop? = some (c, cs)) (hf : c.focus = .compound k rest)
    (hn : (t.expand k).successors rest = .ok new) :
    (ofQueue done pending).turn t = .ok (some (ofQueue done ((t.expand k).requeue new cs))) := by
  simp only [turn, getElem?_ofQueue h, hf]
  revert hn
  generalize t.expand k = e
  intro hn
  cases e with
  | extend r p =>
    obtain ⟨d, hd, rfl⟩ := Expansion.exists_of_successors_extend hn
    simp only [hd]
    simp [ofQueue, Queue.toList_of_pop? h, Expansion.requeue, Expansion.branches]
    rfl
  | split r p q =>
    obtain ⟨d, e, hd, he, rfl⟩ := Expansion.exists_of_successors_split hn
    simp only [hd, he]
    simp [ofQueue, Queue.toList_of_pop? h, Expansion.requeue, Expansion.branches,
      List.eraseIdx_append_of_length_le]
    rfl

/-- As the queue is worked off, so is the list, in no more turns than the effort of the queue. -/
theorem exists_ends_of_ofPending (done : List (List Literal)) {n : NormalForm ι}
    (h : NormalForm.ofPending t pending = .ok n) :
    ∃ m, Ends t (ofQueue done pending) m (ofQueue (done ++ n.clauses) {}) ∧
      m ≤ Clause.totalEffort pending := by
  induction pending using NormalForm.ofPending.induct t generalizing done n with
  | case1 pending hp =>
    rw [NormalForm.ofPending_of_none hp] at h
    cases h
    refine ⟨0, ?_, Nat.zero_le _⟩
    have hq : ofQueue (done ++ []) {} = ofQueue done pending := by
      rw [ofQueue, ofQueue, Queue.pop?_eq_none_iff.1 hp, List.append_nil]
      rfl
    rw [hq]
    exact .here (turn_of_none hp)
  | case2 pending c cs hp f hf =>
    rw [NormalForm.ofPending_of_some hp, hf] at h
    cases h
  | case3 pending c cs hp ls hf ih =>
    obtain ⟨n, hn, rfl⟩ := NormalForm.exists_of_ofPending_finished hp hf h
    obtain ⟨m, hm, hle⟩ := ih (done ++ [ls]) hn
    rw [List.append_assoc] at hm
    refine ⟨m + 1, .turn (turn_of_finished hp hf) hm, ?_⟩
    have := c.effort_pos
    rw [Clause.totalEffort_of_pop? hp]
    omega
  | case4 pending c cs hp k rest hf f hn =>
    rw [NormalForm.ofPending_of_some hp, hf] at h
    simp only [hn] at h
    cases h
  | case5 pending c cs hp k rest hf new hnew ih =>
    obtain ⟨n, hn, rfl⟩ := NormalForm.exists_of_ofPending_compound hp hf hnew h
    obtain ⟨m, hm, hle⟩ := ih done hn
    refine ⟨m + 1, .turn (turn_of_compound hp hf hnew) hm, ?_⟩
    have hlt : Clause.totalEffort ((t.expand k).requeue new cs) < _ :=
      Expansion.effort_requeue_lt hf hnew
    rw [Clause.totalEffort_of_pop? hp]
    omega

end WorkList

/-! ### Formulas -/

/-- A clause of formulas can be expanded at its first compound, and each clause that this leads to
weighs less. -/
theorem Table.exists_successors_weight_lt (t : Table) {c rest : Clause Empty} {k : Compound Empty}
    (h : c.focus = .compound k rest) :
    ∃ new, (t.expand k).successors rest = .ok new ∧
      ∀ d ∈ new, Weight.total Tree.weight d < Weight.total Tree.weight c := by
  have hparts : ∀ p ∈ (t.expand k).parts, Tree.WellFormed p :=
    fun p _ x _ => Formula.not_malformed x
  refine ⟨_, Expansion.successors_of_wellFormed hparts, ?_⟩
  exact List.forall_mem_map.2 fun p hp => Clause.weight_append_lt h hp

/-- The turns on the clause of a formula end with the clauses of its normal form. -/
theorem Formula.exists_ends (t : Table) (f : Formula) :
    ∃ m w, WorkList.Ends t ⟨[[f]], 0⟩ m w ∧
      w.clauses = (f.normalForm t).clauses.map (·.map Literal.toTree) ∧
      m ≤ Weight.effort f.weight := by
  obtain ⟨m, hm, hle⟩ := WorkList.exists_ends_of_ofPending []
    (f.ofPending_eq_ok_normalForm t)
  refine ⟨m, _, hm, by simp [WorkList.ofQueue, Queue.toList], ?_⟩
  simpa [Clause.totalEffort, Clause.effort] using hle

/-- **Bounded work**: with either table, an expansion replaces a clause by clauses of less weight,
where negations weigh one and binary connectives two. The turns on the clause of a formula end, with
the clauses of its normal form, and there are at most `2 ^ (k + 1) - 1` of them, where `k` is the
weight of the formula. -/
theorem Table.turns_le (t : Table) :
    (∀ (c rest : Clause Empty) (k : Compound Empty), c.focus = .compound k rest →
      ∃ new, (t.expand k).successors rest = .ok new ∧
        ∀ d ∈ new, Weight.total Tree.weight d < Weight.total Tree.weight c) ∧
    ∀ f : Formula, ∃ n m w, NormalForm.ofTree t f = .ok n ∧ WorkList.Ends t ⟨[[f]], 0⟩ m w ∧
      w.clauses = n.clauses.map (·.map Literal.toTree) ∧ m ≤ 2 ^ (f.weight + 1) - 1 := by
  refine ⟨fun c rest k h => t.exists_successors_weight_lt h, fun f => ?_⟩
  obtain ⟨m, w, hends, hclauses, hle⟩ := f.exists_ends t
  refine ⟨f.normalForm t, m, w, f.ofTree_eq_ok_normalForm t, hends, hclauses, ?_⟩
  rwa [← Weight.effort_eq]

end PropProver
