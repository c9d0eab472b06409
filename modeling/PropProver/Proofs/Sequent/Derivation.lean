import Mathlib.Data.List.Range
import PropProver.Proofs.Sequent.Operands
import PropProver.Proofs.Sequent.Trace

/-!
# The trace of a search is a derivation

The queue of a search and its trace change in different ways: a sequent in the queue is replaced,
taken out or followed by two others, and entries are only added to the trace. `Search.Unfolding` is
the invariant that ties the two together: an entry that is still in the queue has no children yet,
and every other entry has the children that the inference at its sequent gives. Every turn keeps
it (`Unfolding.leaf`, `Unfolding.expand`), so the trace of a finished search is the complete
unfolding of the rules from the goal (`Formula.search_unfolding`).
-/

namespace PropProver

universe u

variable {ι : Type u}

namespace Sequent

/-- The entries for the premises of an inference, numbered on from `n`. -/
def Inference.entries (inference : Inference ι) (parent n : Nat) : List (Trace.Entry ι) :=
  (inference.premises.zipIdx n).map fun (p, i) => ⟨i, p, some parent, some inference.rule.name⟩

/-- The entries for what the search makes from a sequent, which is nothing from an axiom. -/
def successors (s : Sequent ι) (parent n : Nat) : List (Trace.Entry ι) :=
  match s.inference? with
  | none => []
  | some inference => inference.entries parent n

namespace Inference

theorem map_index_entries (inference : Inference ι) (parent n : Nat) :
    (inference.entries parent n).map Trace.Entry.index =
      List.range' n inference.premises.length := by
  rw [entries, List.map_map, ← List.zipIdx_map_snd n inference.premises]
  rfl

theorem map_sequent_entries (inference : Inference ι) (parent n : Nat) :
    (inference.entries parent n).map Trace.Entry.sequent = inference.premises := by
  rw [entries, List.map_map]
  exact List.zipIdx_map_fst n inference.premises

theorem parent_of_mem_entries {inference : Inference ι} {parent n : Nat} {e : Trace.Entry ι}
    (he : e ∈ inference.entries parent n) : e.parent = some parent := by
  obtain ⟨⟨p, i⟩, -, rfl⟩ := List.mem_map.1 he
  rfl

theorem premises_ne_nil (inference : Inference ι) : inference.premises ≠ [] := by
  cases inference <;> exact List.cons_ne_nil _ _

theorem entries_ne_nil (inference : Inference ι) (parent n : Nat) :
    inference.entries parent n ≠ [] := by
  intro h
  refine inference.premises_ne_nil ?_
  rw [← inference.map_sequent_entries parent n, h, List.map_nil]

end Inference

theorem successors_of_none {s : Sequent ι} (h : s.inference? = none) (parent n : Nat) :
    s.successors parent n = [] := by
  rw [successors, h]

theorem successors_of_some {s : Sequent ι} {inference : Inference ι}
    (h : s.inference? = some inference) (parent n : Nat) :
    s.successors parent n = inference.entries parent n := by
  rw [successors, h]

/-- Nothing is made from the axioms only. -/
theorem successors_eq_nil_iff {s : Sequent ι} {parent n : Nat} :
    s.successors parent n = [] ↔ s.inference? = none := by
  constructor
  · intro h
    cases hi : s.inference? with
    | none => rfl
    | some inference =>
      rw [successors_of_some hi] at h
      exact absurd h (inference.entries_ne_nil parent n)
  · intro h
    rw [successors_of_none h]

end Sequent

namespace Trace

/-- The trace with the premises of an inference at an entry. -/
def expand (t : Trace ι) (parent : Nat) (inference : Sequent.Inference ι) : Trace ι :=
  inference.premises.foldl (fun t p => t.add p (some parent) (some inference.rule.name)) t

variable (t : Trace ι) (parent : Nat) (inference : Sequent.Inference ι)

theorem entries_expand :
    (t.expand parent inference).entries = t.entries ++ inference.entries parent t.size := by
  cases inference <;>
    simp [expand, Sequent.Inference.premises, Sequent.Inference.entries, Sequent.Inference.rule]

variable {t parent}

theorem Coherent.expand (h : t.Coherent) (hp : parent < t.size) :
    (t.expand parent inference).Coherent := by
  have hsome {n : Nat} (hn : t.size ≤ n) : ∀ p, some parent = some p → p < n := by
    rintro p ⟨rfl⟩
    exact Nat.lt_of_lt_of_le hp hn
  cases inference with
  | one rule p => exact h.add p _ (hsome le_rfl)
  | two rule p q => exact (h.add p _ (hsome le_rfl)).add q _ (hsome (by simp))

/-- An inference at an entry gives children to this entry and to no other. -/
theorem made_expand (t : Trace ι) (parent i : Nat) (inference : Sequent.Inference ι) :
    (t.expand parent inference).made i =
      t.made i ++ if i = parent then inference.entries parent t.size else [] := by
  rw [made, entries_expand, List.filter_append]
  congr 1
  split
  · next h =>
    rw [List.filter_eq_self]
    intro e he
    rw [Sequent.Inference.parent_of_mem_entries he, h, beq_self_eq_true]
  · next h =>
    rw [List.filter_eq_nil_iff]
    intro e he
    rw [Sequent.Inference.parent_of_mem_entries he, beq_iff_eq, Option.some.injEq]
    exact Ne.symm h

end Trace

namespace Search

open Sequent

/-! ### Reached states -/

/-- The premises of an inference as they enter the queue, numbered on from `n`. -/
def opened (inference : Inference Empty) (n : Nat) : List (Open Empty) :=
  (inference.premises.zipIdx n).map fun (p, i) => ⟨i, p⟩

/-- What waits in the queue and what is in the trace after some turns of a search. -/
inductive Reached (goal : Sequent Empty) : List (Open Empty) → Trace Empty → Prop
  | start : Reached goal [⟨0, goal⟩] (({} : Trace Empty).add goal none none)
  | leaf {o : Open Empty} {os : List (Open Empty)} {t : Trace Empty} :
      Reached goal (o :: os) t → o.sequent.inference? = none → Reached goal os t
  | expand {o : Open Empty} {os os' : List (Open Empty)} {t : Trace Empty}
      {inference : Inference Empty} :
      Reached goal (o :: os) t → o.sequent.inference? = some inference →
      os'.Perm (opened inference t.size ++ os) → Reached goal os' (t.expand o.index inference)

/-- The queue starts with the tree alone on the right. -/
theorem ofTree_of_not_foreign {x : Tree ι} (h : x.isForeign = false) :
    ofTree x = fromQueue (.singleton ⟨0, ⟨[], [x]⟩⟩)
      { trace := ({} : Trace ι).add ⟨[], [x]⟩ none none } := by
  cases x with
  | foreign v => cases h
  | _ => rfl

/-- Among formulas the search finds the inference that there is. -/
theorem infer_eq (s : Sequent Empty) : infer s = .ok s.inference? :=
  infer_of_wellFormed s.wellFormed

theorem inference?_eq_of_infer {s : Sequent Empty} {i : Option (Inference Empty)}
    (h : infer s = .ok i) : s.inference? = i :=
  Except.ok.inj ((infer_eq s).symm.trans h)

/-- The search goes on until the queue is empty. -/
theorem reached_fromQueue {goal : Sequent Empty} {q : Queue (Open Empty)} {r : Result Empty}
    (h : Reached goal q.toList r.trace) :
    ∃ r', fromQueue q r = .ok r' ∧ Reached goal [] r'.trace := by
  induction q, r using fromQueue.induct with
  | case1 q r hq =>
    refine ⟨r, fromQueue_of_none hq, ?_⟩
    rwa [Queue.pop?_eq_none_iff.1 hq] at h
  | case2 q r o rest hq e hi =>
    rw [infer_eq] at hi
    cases hi
  | case3 q r o rest hq hi ih =>
    rw [fromQueue_of_some hq, hi]
    rw [Queue.toList_of_pop? hq] at h
    exact ih (h.leaf (inference?_eq_of_infer hi))
  | case4 q r o rest hq rule p hi i ih =>
    rw [fromQueue_of_some hq, hi]
    rw [Queue.toList_of_pop? hq] at h
    refine ih (h.expand (inference?_eq_of_infer hi) ?_)
    rw [Queue.toList_prepend]
    exact List.Perm.refl _
  | case5 q r o rest hq rule p p' hi i ih =>
    rw [fromQueue_of_some hq, hi]
    rw [Queue.toList_of_pop? hq] at h
    refine ih (h.expand (inference?_eq_of_infer hi) ?_)
    rw [Queue.toList_append]
    exact List.perm_append_comm

/-! ### The invariant -/

/-- The trace unfolds the rules from the goal, apart from the sequents that still wait. -/
structure Unfolding (goal : Sequent Empty) (os : List (Open Empty)) (t : Trace Empty) : Prop where
  coherent : t.Coherent
  /-- The goal is the only entry that was not made from another. -/
  root : t.entries.filter (·.parent.isNone) = [⟨0, goal, none, none⟩]
  /-- What waits is in the trace. -/
  exists_entry : ∀ o ∈ os, ∃ e ∈ t.entries, e.index = o.index ∧ e.sequent = o.sequent
  nodup : (os.map Open.index).Nodup
  /-- From what waits nothing has been made. -/
  made_eq_nil : ∀ o ∈ os, t.made o.index = []
  /-- From the other entries their premises have been made, one after the other. -/
  made_eq : ∀ e ∈ t.entries, e.index ∉ os.map Open.index →
    ∃ n, t.made e.index = e.sequent.successors e.index n

theorem map_index_opened (inference : Inference Empty) (n : Nat) :
    (opened inference n).map Open.index = List.range' n inference.premises.length := by
  rw [opened, List.map_map, ← List.zipIdx_map_snd n inference.premises]
  rfl

theorem exists_entry_of_mem_opened {inference : Inference Empty} (parent : Nat) {n : Nat}
    {o : Open Empty} (h : o ∈ opened inference n) :
    ∃ e ∈ inference.entries parent n, e.index = o.index ∧ e.sequent = o.sequent := by
  obtain ⟨⟨p, i⟩, hp, rfl⟩ := List.mem_map.1 h
  exact ⟨_, List.mem_map.2 ⟨(p, i), hp, rfl⟩, rfl, rfl⟩

theorem unfolding_start (goal : Sequent Empty) :
    Unfolding goal [⟨0, goal⟩] (({} : Trace Empty).add goal none none) where
  coherent := Trace.coherent_empty.add goal none fun _ h => by cases h
  root := rfl
  exists_entry := by
    intro o ho
    rw [List.mem_singleton] at ho
    subst ho
    exact ⟨⟨0, goal, none, none⟩, List.mem_singleton.2 rfl, rfl, rfl⟩
  nodup := List.nodup_singleton _
  made_eq_nil := fun _ _ => rfl
  made_eq := by
    intro e he hnot
    have hroot : e = ⟨0, goal, none, none⟩ := List.mem_singleton.1 he
    rw [hroot] at hnot
    exact absurd (List.mem_singleton.2 rfl) hnot

namespace Unfolding

variable {goal : Sequent Empty} {o : Open Empty} {os os' : List (Open Empty)} {t : Trace Empty}

theorem perm (h : Unfolding goal os t) (hperm : os'.Perm os) : Unfolding goal os' t where
  coherent := h.coherent
  root := h.root
  exists_entry := fun o ho => h.exists_entry o (hperm.mem_iff.1 ho)
  nodup := ((hperm.map Open.index).nodup_iff).2 h.nodup
  made_eq_nil := fun o ho => h.made_eq_nil o (hperm.mem_iff.1 ho)
  made_eq := fun e he hnot =>
    h.made_eq e he fun hmem => hnot ((hperm.map Open.index).mem_iff.2 hmem)

theorem index_lt (h : Unfolding goal os t) (ho : o ∈ os) : o.index < t.size := by
  obtain ⟨e, he, hindex, -⟩ := h.exists_entry o ho
  rw [← hindex]
  exact h.coherent.index_lt he

/-- Where the queue and the trace have the same index, they have the same sequent. -/
theorem sequent_eq (h : Unfolding goal os t) (ho : o ∈ os) {e : Trace.Entry Empty}
    (he : e ∈ t.entries) (hindex : e.index = o.index) : e.sequent = o.sequent := by
  obtain ⟨e', he', hindex', hsequent⟩ := h.exists_entry o ho
  rw [h.coherent.eq_of_index he he' (hindex.trans hindex'.symm), hsequent]

/-- The first sequent of the queue has no children. -/
theorem made_of_head (h : Unfolding goal (o :: os) t) {e : Trace.Entry Empty} (he : e ∈ t.entries)
    (hindex : e.index = o.index) : e.sequent = o.sequent ∧ t.made e.index = [] := by
  refine ⟨h.sequent_eq List.mem_cons_self he hindex, ?_⟩
  rw [hindex, h.made_eq_nil o List.mem_cons_self]

/-- An entry that waits neither at the head of the queue nor behind it has its children. -/
theorem made_of_not_head (h : Unfolding goal (o :: os) t) {e : Trace.Entry Empty}
    (he : e ∈ t.entries) (hne : e.index ≠ o.index) (hnot : e.index ∉ os.map Open.index) :
    ∃ n, t.made e.index = e.sequent.successors e.index n := by
  refine h.made_eq e he fun hmem => ?_
  rcases List.mem_cons.1 hmem with heq | hmem
  · exact hne heq
  · exact hnot hmem

/-- An axiom leaves the queue: to have no children is right for it. -/
theorem leaf (h : Unfolding goal (o :: os) t) (hi : o.sequent.inference? = none) :
    Unfolding goal os t where
  coherent := h.coherent
  root := h.root
  exists_entry := fun o' ho' => h.exists_entry o' (List.mem_cons_of_mem _ ho')
  nodup := (List.nodup_cons.1 h.nodup).2
  made_eq_nil := fun o' ho' => h.made_eq_nil o' (List.mem_cons_of_mem _ ho')
  made_eq := by
    intro e he hnot
    by_cases hindex : e.index = o.index
    · obtain ⟨hsequent, hmade⟩ := h.made_of_head he hindex
      refine ⟨0, ?_⟩
      rw [hmade, hsequent, successors_of_none hi]
    · exact h.made_of_not_head he hindex hnot

section Expand

variable (h : Unfolding goal (o :: os) t) (inference : Inference Empty)
include h

theorem root_expand : (t.expand o.index inference).entries.filter (·.parent.isNone) =
    [⟨0, goal, none, none⟩] := by
  rw [Trace.entries_expand, List.filter_append, h.root, List.append_right_eq_self,
    List.filter_eq_nil_iff]
  intro e he
  rw [Inference.parent_of_mem_entries he]
  exact Bool.false_ne_true

theorem exists_entry_expand : ∀ o' ∈ opened inference t.size ++ os,
    ∃ e ∈ (t.expand o.index inference).entries,
      e.index = o'.index ∧ e.sequent = o'.sequent := by
  intro o' ho'
  simp only [Trace.entries_expand, List.mem_append] at ho' ⊢
  rcases ho' with ho' | ho'
  · obtain ⟨e, he, heq⟩ := exists_entry_of_mem_opened o.index ho'
    exact ⟨e, .inr he, heq⟩
  · obtain ⟨e, he, heq⟩ := h.exists_entry o' (List.mem_cons_of_mem _ ho')
    exact ⟨e, .inl he, heq⟩

/-- The new indices start where the old ones end. -/
theorem nodup_expand : ((opened inference t.size ++ os).map Open.index).Nodup := by
  rw [List.map_append, List.nodup_append, map_index_opened]
  refine ⟨List.nodup_range', (List.nodup_cons.1 h.nodup).2, ?_⟩
  rintro i hnew j hold rfl
  obtain ⟨o', ho', rfl⟩ := List.mem_map.1 hold
  have hlt := h.index_lt (List.mem_cons_of_mem _ ho')
  have hle := (List.mem_range'_1.1 hnew).1
  omega

/-- Only the entry that was expanded gets children. -/
theorem made_eq_nil_expand : ∀ o' ∈ opened inference t.size ++ os,
    (t.expand o.index inference).made o'.index = [] := by
  intro o' ho'
  have hlt : o.index < t.size := h.index_lt List.mem_cons_self
  rw [Trace.made_expand]
  rcases List.mem_append.1 ho' with ho' | ho'
  · have hnew := List.mem_map_of_mem (f := Open.index) ho'
    rw [map_index_opened, List.mem_range'_1] at hnew
    rw [h.coherent.made_eq_nil hnew.1, if_neg (by omega), List.append_nil]
  · have hne : o'.index ≠ o.index := by
      intro heq
      have hmem : o'.index ∈ os.map Open.index := List.mem_map_of_mem ho'
      exact (List.nodup_cons.1 h.nodup).1 (heq ▸ hmem)
    rw [h.made_eq_nil o' (List.mem_cons_of_mem _ ho'), if_neg hne, List.append_nil]

theorem made_eq_expand (hi : o.sequent.inference? = some inference) :
    ∀ e ∈ (t.expand o.index inference).entries,
      e.index ∉ (opened inference t.size ++ os).map Open.index →
      ∃ n, (t.expand o.index inference).made e.index = e.sequent.successors e.index n := by
  intro e he hnot
  rw [List.map_append, List.mem_append, not_or] at hnot
  rw [Trace.made_expand]
  rw [Trace.entries_expand, List.mem_append] at he
  rcases he with he | he
  · by_cases hindex : e.index = o.index
    · obtain ⟨hsequent, hmade⟩ := h.made_of_head he hindex
      refine ⟨t.size, ?_⟩
      rw [if_pos hindex, hmade, hsequent, successors_of_some hi, hindex, List.nil_append]
    · rw [if_neg hindex, List.append_nil]
      exact h.made_of_not_head he hindex hnot.2
  · refine absurd ?_ hnot.1
    rw [map_index_opened, ← inference.map_index_entries o.index]
    exact List.mem_map_of_mem he

/-- An expanded sequent gets its premises as children, and these wait instead of it. -/
theorem expand (hi : o.sequent.inference? = some inference) :
    Unfolding goal (opened inference t.size ++ os) (t.expand o.index inference) where
  coherent := h.coherent.expand inference (h.index_lt List.mem_cons_self)
  root := h.root_expand inference
  exists_entry := h.exists_entry_expand inference
  nodup := h.nodup_expand inference
  made_eq_nil := h.made_eq_nil_expand inference
  made_eq := h.made_eq_expand inference hi

end Expand

end Unfolding

/-- Every reached state satisfies the invariant. -/
theorem Reached.unfolding {goal : Sequent Empty} {os : List (Open Empty)} {t : Trace Empty}
    (h : Reached goal os t) : Unfolding goal os t := by
  induction h with
  | start => exact unfolding_start goal
  | leaf _ hi ih => exact ih.leaf hi
  | expand _ hi hperm ih => exact (ih.expand _ hi).perm hperm

end Search

/-- The search for a derivation of a formula comes to its end. -/
theorem Formula.exists_search (f : Formula) :
    Search.ofTree f = .ok f.search ∧ Search.Reached ⟨[], [f]⟩ [] f.search.trace := by
  obtain ⟨r, hr, hreached⟩ := Search.reached_fromQueue
    (q := .singleton ⟨0, ⟨[], [f]⟩⟩) (r := { trace := ({} : Trace Empty).add ⟨[], [f]⟩ none none })
    .start
  have hof : Search.ofTree f = .ok r := by
    rw [← hr]
    exact Search.ofTree_of_not_foreign f.isForeign_formula
  rw [search_eq hof]
  exact ⟨hof, hreached⟩

/-- The trace of a search is the complete unfolding of the rules from the formula. -/
theorem Formula.search_unfolding (f : Formula) : Search.Unfolding ⟨[], [f]⟩ [] f.search.trace :=
  f.exists_search.2.unfolding

end PropProver
