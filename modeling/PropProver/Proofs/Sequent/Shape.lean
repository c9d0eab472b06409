import PropProver.Proofs.Sequent.Leaves

/-!
# The shape of a finished search

In a finished search nothing is missing and nothing is there twice. The first entry is the goal, and
every other one is a child of an earlier entry (`Unfolding.root?_eq`, `Unfolding.exists_parent`), so
that every entry can be written with the step that made it (`Unfolding.exists_text`). An entry whose
sequent has nothing to select has no children. Every other entry has the premises of the selected
formula as its children, one behind the other (`Unfolding.children_of_select`).

So every entry has one child, or two, or is a leaf, and counting the entries in two ways, as leaves
and inner ones, and as the goal and the children of inner ones, gives one leaf more than there are
branchings (`Unfolding.length_leaves`).
-/

namespace PropProver

universe u

variable {ι : Type u}

namespace Sequent

theorem Inference.length_premises (inference : Inference ι) :
    inference.premises.length = 1 ∨ inference.premises.length = 2 := by
  cases inference with
  | one rule p => exact .inl rfl
  | two rule p q => exact .inr rfl

theorem Inference.length_entries (inference : Inference ι) (parent n : Nat) :
    (inference.entries parent n).length = inference.premises.length := by
  rw [← inference.map_sequent_entries parent n, List.length_map]

theorem length_successors_le (s : Sequent ι) (parent n : Nat) :
    (s.successors parent n).length ≤ 2 := by
  unfold successors
  split
  · exact Nat.zero_le 2
  · next inference _ =>
    rw [inference.length_entries]
    have := inference.length_premises
    omega

end Sequent

namespace Search.Unfolding

variable {goal : Sequent Empty} {t : Trace Empty} {e : Trace.Entry Empty}

/-! ### Parents and children -/

theorem root?_eq (h : Unfolding goal [] t) : t.root? = some ⟨0, goal, none, none⟩ := by
  have hmem : (⟨0, goal, none, none⟩ : Trace.Entry Empty) ∈ t.entries :=
    List.mem_of_mem_filter (h.root ▸ List.mem_singleton_self _)
  have hzero := h.coherent.getElem?_index hmem
  rwa [← Array.getElem?_toList, ← List.head?_eq_getElem?] at hzero

/-- Every entry but the goal is a child of an earlier one. -/
theorem exists_parent (h : Unfolding goal [] t) (he : e ∈ t.entries) (hi : e.index ≠ 0) :
    ∃ p < e.index, e.parent = some p ∧ ∃ cs, t.children p = some cs ∧ e ∈ cs := by
  cases hp : e.parent with
  | none =>
    have hroot : e ∈ t.entries.filter (·.parent.isNone) :=
      List.mem_filter.2 ⟨he, by rw [hp]; rfl⟩
    rw [h.root, List.mem_singleton] at hroot
    rw [hroot] at hi
    exact absurd rfl hi
  | some p =>
    have hlt : p < e.index := h.coherent.parent_lt e he p hp
    have hsize : p < t.size := Nat.lt_trans hlt (h.coherent.index_lt he)
    exact ⟨p, hlt, rfl, t.made p, h.coherent.children_eq hsize, Trace.mem_made.2 ⟨he, hp⟩⟩

/-- Every rule was applied to an entry. -/
theorem exists_origin (h : Unfolding goal [] t) (he : e ∈ t.entries) :
    ∃ origin, e.origin? = some origin := by
  unfold Trace.Entry.origin?
  by_cases hi : e.index = 0
  · have hroot := h.coherent.getElem?_index he
    rw [hi, ← Array.getElem?_toList, ← List.head?_eq_getElem?] at hroot
    obtain rfl := Option.some.inj (hroot.symm.trans h.root?_eq)
    exact ⟨"", rfl⟩
  · obtain ⟨p, -, hp, -⟩ := h.exists_parent he hi
    rw [hp]
    cases e.rule <;> exact ⟨_, rfl⟩

/-- A finished search can be written. -/
theorem exists_text (h : Unfolding goal [] t) (order : Trace.Order) :
    ∃ s, t.text order = .ok s := by
  have hlines : ∃ ls, t.lines order = .ok ls := by
    rw [Trace.lines_eq_mapM, exists_mapM_iff]
    intro e he
    have hmem : e ∈ t.entries := by
      cases order with
      | chronological => exact he
      | reverse => exact List.mem_reverse.1 he
    obtain ⟨origin, horigin⟩ := h.exists_origin hmem
    obtain ⟨s, hs⟩ := Sequent.exists_check_iff.2 e.sequent.wellFormed
    simp only [Trace.Entry.line, hs, horigin]
    exact ⟨_, rfl⟩
  obtain ⟨ls, hls⟩ := hlines
  simp only [Trace.text, hls]
  exact ⟨_, rfl⟩

theorem children_eq_successors (h : Unfolding goal [] t) (he : e ∈ t.entries) :
    ∃ n, t.children e.index = some (e.sequent.successors e.index n) := by
  obtain ⟨n, hmade⟩ := h.made_eq_successors he
  exact ⟨n, by rw [h.coherent.children_eq (h.coherent.index_lt he), hmade]⟩

theorem children_of_select_eq_none (h : Unfolding goal [] t) (he : e ∈ t.entries)
    (hs : e.sequent.select = none) : t.children e.index = some [] := by
  obtain ⟨n, hchildren⟩ := h.children_eq_successors he
  rw [hchildren, Sequent.successors_of_none (Sequent.inference?_of_select_eq_none hs)]

/-- The children are what expanding the selected formula gives. -/
theorem children_of_select (h : Unfolding goal [] t) (he : e ∈ t.entries) {side : Side} {n : Nat}
    (hs : e.sequent.select = some (side, n)) :
    ∃ inference k, e.sequent.expand side n = .ok inference ∧
      t.children e.index = some (inference.entries e.index k) := by
  obtain ⟨inference, hexpand, hi⟩ := Sequent.exists_inference_of_select hs
  obtain ⟨k, hchildren⟩ := h.children_eq_successors he
  exact ⟨inference, k, hexpand, by rw [hchildren, Sequent.successors_of_some hi]⟩

/-! ### Counting -/

/-- An inner entry has one child, or two. -/
theorem outDegree_of_mem_inner (h : Unfolding goal [] t) (he : e ∈ t.inner) :
    t.outDegree e.index = 1 ∨ t.outDegree e.index = 2 := by
  obtain ⟨inference, -, hmade⟩ := h.exists_inference he
  rw [h.coherent.outDegree_eq, ← List.length_map (f := (·.sequent)), hmade]
  exact inference.length_premises

/-- Inner entries have one child each, and one more for each branching. -/
theorem length_flatMap_made (h : Unfolding goal [] t) {es : List (Trace.Entry Empty)}
    (hes : ∀ e ∈ es, e ∈ t.inner) :
    (es.flatMap fun e => t.made e.index).length =
      es.length + es.countP fun e => 1 < t.outDegree e.index := by
  induction es with
  | nil => rfl
  | cons e es ih =>
    obtain ⟨he, hes⟩ := List.forall_mem_cons.1 hes
    rw [List.flatMap_cons, List.length_append, ih hes, ← h.coherent.outDegree_eq, List.countP_cons,
      List.length_cons]
    rcases h.outDegree_of_mem_inner he with hone | htwo
    · simp [hone]
      omega
    · simp [htwo]
      omega

/-- Branchings are at inner entries. -/
theorem branchCount_eq_countP_inner (h : Unfolding goal [] t) :
    t.branchCount = t.inner.countP fun e => 1 < t.outDegree e.index := by
  have hleaves : (t.leaves.countP fun e => 1 < t.outDegree e.index) = 0 := by
    rw [List.countP_eq_zero]
    intro e he
    rw [h.coherent.outDegree_eq, (h.coherent.mem_leaves.1 he).2]
    exact of_decide_eq_false rfl
  rw [t.branchCount_eq_countP, ← (leaves_append_inner_perm t).countP_eq, List.countP_append,
    hleaves, Nat.zero_add]

/-- There is one leaf more than there are branchings. -/
theorem length_leaves (h : Unfolding goal [] t) : t.leaves.length = t.branchCount + 1 := by
  have hsplit : t.leaves.length + t.inner.length = t.entries.length := by
    rw [← List.length_append, (leaves_append_inner_perm t).length_eq]
  have hroot : t.entries.length = t.inner.length + t.branchCount + 1 := by
    rw [h.entries_perm.length_eq, List.length_cons, h.length_flatMap_made fun e he => he,
      h.branchCount_eq_countP_inner]
  omega

end Search.Unfolding

/-- **The trace is a complete derivation**: entries are numbered in order, and the first one is the
formula alone on the right, made from nothing. An entry has no children if there is nothing to
select in its sequent; otherwise its children are the premises that the expansion of the selected
formula gives, in order and with consecutive indices, and they name the rule. Every entry but the
first is a child of an earlier one. So no entry has more than two children, and there is one leaf
more than there are branchings. -/
theorem Formula.search_complete_derivation (f : Formula) :
    (f.search.trace.root? = some ⟨0, ⟨[], [f]⟩, none, none⟩ ∧
      f.search.trace.entries.map Trace.Entry.index = List.range f.search.trace.size) ∧
    (∀ e ∈ f.search.trace.entries,
      (e.sequent.select = none → f.search.trace.children e.index = some []) ∧
      ∀ side n, e.sequent.select = some (side, n) →
        ∃ inference k, e.sequent.expand side n = .ok inference ∧
          f.search.trace.children e.index = some (inference.entries e.index k)) ∧
    (∀ e ∈ f.search.trace.entries, e.index ≠ 0 →
      ∃ p < e.index, e.parent = some p ∧ ∃ cs, f.search.trace.children p = some cs ∧ e ∈ cs) ∧
    (∀ e ∈ f.search.trace.entries,
      ∃ cs, f.search.trace.children e.index = some cs ∧ cs.length ≤ 2) ∧
    f.search.trace.leaves.length = f.search.trace.branchCount + 1 := by
  have h := f.search_unfolding
  refine ⟨⟨h.root?_eq, h.coherent.map_index⟩, fun e he => ⟨?_, ?_⟩, ?_, fun e he => ?_,
    h.length_leaves⟩
  · exact h.children_of_select_eq_none he
  · exact fun side n => h.children_of_select he
  · exact fun e he hi => h.exists_parent he hi
  · obtain ⟨n, hchildren⟩ := h.children_eq_successors he
    exact ⟨_, hchildren, e.sequent.length_successors_le e.index n⟩

end PropProver
