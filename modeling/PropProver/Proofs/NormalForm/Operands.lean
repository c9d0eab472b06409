import PropProver.Proofs.Formula.Operands
import PropProver.Proofs.NormalForm.WorkList

/-!
# Clauses that hold foreign values

The rows of both tables keep every operand of the formula that they replace
(`Table.wellFormed_expand`), and no clause leaves the work list before all its members are literals.
So a foreign value is met in the end, wherever it stands: a work list is worked off exactly if all
its clauses are well formed (`NormalForm.exists_ofPending_iff`).
-/

namespace PropProver

universe u

variable {ι : Type u}

open PropProver.Tree (WellFormed)

/-- No row of a table leaves an operand out. -/
theorem Table.wellFormed_expand (t : Table) (k : Compound ι) :
    (∀ p ∈ (t.expand k).parts, WellFormed p) ↔ ¬ k.toTree.Malformed := by
  rcases k with x | ⟨op, l, r⟩ | ⟨op, l, r⟩
  · simp [expand, Expansion.parts, Compound.toTree]
  · cases op <;> cases t <;>
      simp [expand, expandBinary, Expansion.parts, Compound.toTree]
  · cases op <;> cases t <;>
      simp [expand, expandNegated, Expansion.parts, Compound.toTree]

theorem Expansion.parts_ne_nil (e : Expansion ι) : e.parts ≠ [] := by
  cases e <;> exact List.cons_ne_nil _ _

namespace Clause

theorem ofTrees_of_wellFormed {ts : List (Tree ι)} (h : WellFormed ts) : ofTrees ts = .ok ts := by
  induction ts with
  | nil => rfl
  | cons x xs ih =>
    rw [Tree.wellFormed_cons] at h
    cases x with
    | foreign v => exact absurd (Tree.malformed_foreign v) h.1
    | _ =>
      rw [ofTrees, ih h.2]
      · rfl
      · simp

theorem extend_of_wellFormed {c : Clause ι} {ts : List (Tree ι)} (h : WellFormed ts) :
    c.extend ts = .ok (c ++ ts) := by
  rw [extend, ofTrees_of_wellFormed h]
  rfl

theorem wellFormed_map_toTree (ls : List Literal) :
    WellFormed (ls.map Literal.toTree : Clause ι) := by
  refine List.forall_mem_map.2 fun l _ => ?_
  obtain ⟨a, p⟩ := l
  cases p <;> simp [Literal.toTree]

theorem wellFormed_of_focus {c rest : Clause ι} {k : Compound ι} (h : c.focus = .compound k rest) :
    WellFormed c ↔ WellFormed rest ∧ ¬ k.toTree.Malformed := by
  obtain ⟨ls, xs, rfl, rfl⟩ := exists_append_of_focus h
  simp only [Tree.wellFormed_append, Tree.wellFormed_cons]
  tauto

/-- What is at fault in a clause is malformed. -/
theorem not_wellFormed_of_focus {c : Clause ι} {f : Fault ι} (h : c.focus = .faulty f) :
    ¬ WellFormed c := by
  induction c with
  | nil => cases h
  | cons x xs ih =>
    rw [Tree.wellFormed_cons, not_and_or, not_not]
    unfold focus at h
    split at h
    · right
      apply ih
      cases hf : focus xs with
      | faulty f' =>
        rw [hf] at h
        cases h
        rfl
      | _ =>
        rw [hf] at h
        cases h
    · cases h
    · next hx =>
      left
      unfold Tree.view at hx
      split at hx <;> cases hx <;> simp

end Clause

/-- Parts without foreign values can enter a clause. -/
theorem Expansion.successors_of_wellFormed {e : Expansion ι} {rest : Clause ι}
    (h : ∀ p ∈ e.parts, WellFormed p) : e.successors rest = .ok (e.parts.map (rest ++ ·)) := by
  cases e with
  | extend r p =>
    rw [successors, Clause.extend_of_wellFormed (h p (by simp [parts]))]
    rfl
  | split r p q =>
    rw [successors, Clause.extend_of_wellFormed (h p (by simp [parts])),
      Clause.extend_of_wellFormed (h q (by simp [parts]))]
    rfl

/-- An expansion gives well-formed clauses exactly if it is made in one. -/
theorem Expansion.wellFormed_successors {t : Table} {c rest : Clause ι} {k : Compound ι}
    (h : c.focus = .compound k rest) :
    (∀ d ∈ (t.expand k).parts.map (rest ++ ·), WellFormed d) ↔ WellFormed c := by
  rw [Clause.wellFormed_of_focus h, ← Table.wellFormed_expand t k, List.forall_mem_map]
  simp only [Tree.wellFormed_append, forall_and]
  have hne := List.exists_mem_of_ne_nil _ (t.expand k).parts_ne_nil
  constructor
  · rintro ⟨hrest, hparts⟩
    obtain ⟨p, hp⟩ := hne
    exact ⟨hrest p hp, hparts⟩
  · rintro ⟨hrest, hparts⟩
    exact ⟨fun _ _ => hrest, hparts⟩

/-- A work list is worked off exactly if all its clauses are well formed. -/
theorem NormalForm.exists_ofPending_iff {t : Table} {pending : Queue (Clause ι)} :
    (∃ n, ofPending t pending = .ok n) ↔ ∀ c ∈ pending.toList, WellFormed c := by
  induction pending using ofPending.induct t with
  | case1 pending hp =>
    rw [ofPending_of_none hp, Queue.pop?_eq_none_iff.1 hp]
    simp
  | case2 pending c cs hp f hf =>
    rw [ofPending_of_some hp, hf, Queue.toList_of_pop? hp, List.forall_mem_cons]
    simp [Clause.not_wellFormed_of_focus hf]
  | case3 pending c cs hp ls hf ih =>
    have hc : WellFormed c := by
      rw [Clause.eq_map_of_focus hf]
      exact Clause.wellFormed_map_toTree ls
    rw [ofPending_of_some hp, hf, Queue.toList_of_pop? hp, List.forall_mem_cons, and_iff_right hc,
      ← ih]
    cases ofPending t cs <;> simp [Except.map]
  | case4 pending c cs hp k others hf f hn =>
    have hc : ¬ WellFormed c := by
      intro hc
      have hparts := (t.wellFormed_expand k).2 ((Clause.wellFormed_of_focus hf).1 hc).2
      rw [Expansion.successors_of_wellFormed hparts] at hn
      cases hn
    rw [ofPending_of_some hp, hf, Queue.toList_of_pop? hp, List.forall_mem_cons]
    simp [hn, hc]
  | case5 pending c cs hp k others hf new hn ih =>
    have hperm := (t.expand k).toList_requeue_perm new cs
    rw [ofPending_of_some hp, hf, Queue.toList_of_pop? hp, List.forall_mem_cons,
      ← Expansion.wellFormed_successors hf, ← Expansion.successors_eq hn, ← List.forall_mem_append,
      ← forall_congr' fun d => imp_congr_left hperm.mem_iff, ← ih]
    simp only [hn]
    cases ofPending t ((t.expand k).requeue new cs) <;> simp [Except.map]

end PropProver
