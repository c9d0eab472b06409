import PropProver.Proofs.Sequent.Shape
import PropProver.Proofs.Weight

/-!
# How far a search goes

An expansion lowers the search weight of a sequent, whichever formula it takes. It also lowers the
number of connectives, but not if it turns an equivalence into two implications, which doubles what
stands under it (`Sequent.connectives_premise_lt`).

In a trace the search weight falls with every step from an entry to its children, so no path has
more steps than the goal has weight (`Search.Unfolding.length_le_of_isPath`). Taken together, what
is in the trace already and what the queue can still bring about stay within a bound
(`Search.Reached.effort_le`). When nothing waits any more, this bounds the trace, and there was one
turn for each of its entries (`Formula.search_bounded`).
-/

namespace PropProver

universe u

variable {ι : Type u}

/-! ### One expansion -/

namespace Sequent

theorem connectives_eq_total (s : Sequent ι) : s.connectives = s.total Tree.connectives :=
  Weight.total_append _ _ _

/-- A rule for something else than an equivalence lowers the number of connectives. -/
theorem connectives_expandFormula_lt {rest : Sequent ι} {side : Side} {x : Tree ι}
    {inference : Inference ι} (hl : inference.rule ≠ .iffLeft) (hr : inference.rule ≠ .iffRight)
    (h : rest.expandFormula side x = some inference) :
    ∀ p ∈ inference.premises, p.total Tree.connectives <
      x.connectives + rest.total Tree.connectives := by
  cases side <;> simp only [expandFormula] at h
  · unfold expandLeft at h
    split at h <;> cases h <;>
      simp [Inference.rule, Inference.premises, total_add, Tree.connectives] at hl ⊢ <;> omega
  · unfold expandRight at h
    split at h <;> cases h <;>
      simp [Inference.rule, Inference.premises, total_add, Tree.connectives] at hr ⊢ <;> omega

/-- A premise has fewer connectives than the sequent, unless an equivalence was expanded. -/
theorem connectives_premise_lt {s : Sequent ι} {side : Side} {n : Nat} {inference : Inference ι}
    (h : s.expand side n = .ok inference) (hl : inference.rule ≠ .iffLeft)
    (hr : inference.rule ≠ .iffRight) :
    ∀ p ∈ inference.premises, p.connectives < s.connectives := by
  simp only [connectives_eq_total]
  exact total_premise_lt h fun _ _ => connectives_expandFormula_lt hl hr

/-- Wherever a formula is no atom, there is an expansion. -/
theorem exists_expand {s : Sequent Empty} {side : Side} {n : Nat} {x : Formula}
    (hx : (s.on side)[n]? = some x) (hatom : x.isAtom = false) :
    ∃ inference, s.expand side n = .ok inference := by
  obtain ⟨inference, hi⟩ := exists_expandFormula (s.remove side n) side hatom
  exact ⟨inference, expand_eq_ok_iff.2 ⟨x, hx, hi⟩⟩

end Sequent

/-! ### Paths -/

/-- Entries of a trace, each one made from the one before it. -/
def Trace.IsPath (t : Trace ι) (es : List (Trace.Entry ι)) : Prop :=
  (∀ e ∈ es, e ∈ t.entries) ∧ es.IsChain fun e e' => e'.parent = some e.index

theorem Trace.IsPath.tail {t : Trace ι} {e : Trace.Entry ι} {es : List (Trace.Entry ι)}
    (h : t.IsPath (e :: es)) : t.IsPath es :=
  ⟨fun e' he' => h.1 e' (List.mem_cons_of_mem e he'), h.2.tail⟩

namespace Search

namespace Unfolding

variable {goal : Sequent Empty} {t : Trace Empty} {e e' : Trace.Entry Empty}

/-- An entry has less search weight than the one it was made from. -/
theorem searchWeight_lt (h : Unfolding goal [] t) (he : e ∈ t.entries) (he' : e' ∈ t.entries)
    (hp : e'.parent = some e.index) : e'.sequent.searchWeight < e.sequent.searchWeight := by
  have hmade : e' ∈ t.made e.index := Trace.mem_made.2 ⟨he', hp⟩
  have hinner : e ∈ t.inner := h.coherent.mem_inner.2 ⟨he, List.ne_nil_of_mem hmade⟩
  obtain ⟨inference, hi, hpremises⟩ := h.exists_inference hinner
  refine Sequent.searchWeight_inference_lt hi _ ?_
  rw [← hpremises]
  exact List.mem_map_of_mem hmade

/-- No entry has more search weight than the goal. -/
theorem searchWeight_le (h : Unfolding goal [] t) {n : Nat} (he : e ∈ t.entries)
    (hn : e.index = n) : e.sequent.searchWeight ≤ goal.searchWeight := by
  induction n using Nat.strong_induction_on generalizing e with
  | _ n ih =>
    by_cases hzero : e.index = 0
    · have hroot : (⟨0, goal, none, none⟩ : Trace.Entry Empty) ∈ t.entries :=
        List.mem_of_mem_filter (h.root ▸ List.mem_singleton_self _)
      rw [h.coherent.eq_of_index he hroot hzero]
    · obtain ⟨p, hlt, hp, -⟩ := h.exists_parent he hzero
      have hsize : p < t.size := hlt.trans (h.coherent.index_lt he)
      rw [← List.mem_range, ← h.coherent.map_index, List.mem_map] at hsize
      obtain ⟨e', he', rfl⟩ := hsize
      exact (h.searchWeight_lt he' he hp).le.trans (ih _ (hn ▸ hlt) he' rfl)

/-- A path has no more steps than its first sequent has weight. -/
theorem length_le_searchWeight (h : Unfolding goal [] t) {es : List (Trace.Entry Empty)}
    (hpath : t.IsPath (e :: es)) : es.length ≤ e.sequent.searchWeight := by
  induction es generalizing e with
  | nil => exact Nat.zero_le _
  | cons e' es ih =>
    have hlt := h.searchWeight_lt (hpath.1 e (by simp)) (hpath.1 e' (by simp))
      (List.isChain_cons_cons.1 hpath.2).1
    have hle := ih hpath.tail
    rw [List.length_cons]
    omega

theorem length_le_of_isPath (h : Unfolding goal [] t) {es : List (Trace.Entry Empty)}
    (hpath : t.IsPath (e :: es)) : es.length ≤ goal.searchWeight :=
  (h.length_le_searchWeight hpath).trans (h.searchWeight_le (hpath.1 e (by simp)) rfl)

end Unfolding

/-! ### The queue -/

/-- The premises of an inference take less effort than its conclusion. -/
theorem effort_opened_lt {o : Open Empty} {inference : Sequent.Inference Empty}
    (h : o.sequent.inference? = some inference) (n : Nat) :
    Weight.total Open.effort (opened inference n) < o.effort := by
  have hlt := Sequent.searchWeight_inference_lt h
  cases inference with
  | one rule p => exact Weight.effort_lt (hlt p (by simp [Sequent.Inference.premises]))
  | two rule p q =>
    exact Weight.effort_add_lt (hlt p (by simp [Sequent.Inference.premises]))
      (hlt q (by simp [Sequent.Inference.premises]))

theorem size_expand (t : Trace ι) (parent : Nat) (inference : Sequent.Inference ι) :
    (t.expand parent inference).size = t.size + inference.premises.length := by
  rw [← Trace.length_entries, Trace.entries_expand, List.length_append, Trace.length_entries,
    inference.length_entries]

/-- What is in the trace and what the queue can still cause, but for what waits in it and is counted
twice, is no more than the effort of the goal. -/
theorem Reached.effort_le {goal : Sequent Empty} {os : List (Open Empty)} {t : Trace Empty}
    (h : Reached goal os t) :
    t.size + Weight.total Open.effort os ≤ os.length + Weight.effort goal.searchWeight := by
  induction h with
  | start => exact Nat.le_refl _
  | @leaf o os t _ _ ih =>
    have hpos : 0 < o.effort := Weight.effort_pos _
    rw [Weight.total_cons, List.length_cons] at ih
    omega
  | @expand o os os' t inference _ hi hperm ih =>
    have hlt := effort_opened_lt hi t.size
    have hlength : (opened inference t.size).length = inference.premises.length := by
      rw [opened, List.length_map, List.length_zipIdx]
    rw [Weight.total_cons, List.length_cons] at ih
    rw [size_expand, Weight.total_of_perm hperm, Weight.total_append, hperm.length_eq,
      List.length_append, hlength]
    omega

/-- There is a turn for everything in the queue and for everything that comes into the trace. -/
theorem size_visits_fromQueue {q : Queue (Open ι)} {r r' : Result ι} (h : fromQueue q r = .ok r') :
    r'.visits.size + r.trace.size = r.visits.size + q.toList.length + r'.trace.size := by
  induction q, r using fromQueue.induct with
  | case1 q r hq =>
    rw [fromQueue_of_none hq] at h
    cases h
    simp [Queue.pop?_eq_none_iff.1 hq]
  | case2 q r o rest hq e hi =>
    rw [fromQueue_of_some hq, hi] at h
    cases h
  | case3 q r o rest hq hi ih =>
    rw [fromQueue_of_some hq, hi] at h
    have := ih h
    simp [Result.visit, Queue.toList_of_pop? hq] at this ⊢
    omega
  | case4 q r o rest hq rule p hi i ih =>
    rw [fromQueue_of_some hq, hi] at h
    have := ih h
    simp [Result.visit, Result.add, Queue.toList_of_pop? hq] at this ⊢
    omega
  | case5 q r o rest hq rule p p' hi i ih =>
    rw [fromQueue_of_some hq, hi] at h
    have := ih h
    simp [Result.visit, Result.add, Queue.toList_of_pop? hq] at this ⊢
    omega

end Search

/-! ### Formulas -/

namespace Formula

variable (f : Formula)

theorem searchWeight_goal : Sequent.searchWeight ⟨[], [f]⟩ = f.searchWeight := by
  simp [Sequent.searchWeight]

theorem size_trace_search : f.search.trace.size ≤ 2 ^ (f.searchWeight + 1) - 1 := by
  have hle := f.exists_search.2.effort_le
  rw [searchWeight_goal, Weight.effort_eq] at hle
  simpa using hle

theorem length_le_of_isPath {e : Trace.Entry Empty} {es : List (Trace.Entry Empty)}
    (hpath : f.search.trace.IsPath (e :: es)) : es.length ≤ f.searchWeight := by
  have hle := f.search_unfolding.length_le_of_isPath hpath
  rwa [searchWeight_goal] at hle

theorem size_visits_search : f.search.visits.size = f.search.trace.size := by
  have hof := f.exists_search.1
  rw [Search.ofTree_of_not_foreign f.isForeign_formula] at hof
  have hstart : (({} : Trace Empty).add ⟨[], [f]⟩ none none).size = 1 := rfl
  have hsize := Search.size_visits_fromQueue hof
  rw [hstart, Queue.toList_singleton, List.length_singleton, Array.size_empty] at hsize
  omega

/-- **Bounded search**: a formula that is no atom can be expanded wherever it stands in a sequent,
every premise has less search weight, and it has fewer connectives unless the rule is one for
equivalences. The search for a derivation of a formula comes to its end, after one turn for each
entry of its trace. No path in the trace has more steps than the formula has search weight, and if
this weight is `w`, there are at most `2 ^ (w + 1) - 1` entries. -/
theorem search_bounded :
    (∀ (s : Sequent Empty) (side : Side) (n : Nat) (x : Formula),
      (s.on side)[n]? = some x → x.isAtom = false →
      ∃ inference, s.expand side n = .ok inference ∧ ∀ p ∈ inference.premises,
        p.searchWeight < s.searchWeight ∧
        (inference.rule ≠ .iffLeft → inference.rule ≠ .iffRight →
          p.connectives < s.connectives)) ∧
    ∀ f : Formula, Search.ofTree f = .ok f.search ∧
      f.search.visits.size = f.search.trace.size ∧
      (∀ e es, f.search.trace.IsPath (e :: es) → es.length ≤ f.searchWeight) ∧
      f.search.trace.size ≤ 2 ^ (f.searchWeight + 1) - 1 := by
  refine ⟨fun s side n x hx hatom => ?_, fun f => ⟨f.exists_search.1, f.size_visits_search,
    fun e es => f.length_le_of_isPath, f.size_trace_search⟩⟩
  obtain ⟨inference, hexpand⟩ := Sequent.exists_expand hx hatom
  refine ⟨inference, hexpand, fun p hp => ⟨?_, fun hl hr => ?_⟩⟩
  · exact Sequent.searchWeight_premise_lt hexpand p hp
  · exact Sequent.connectives_premise_lt hexpand hl hr p hp

end Formula

end PropProver
