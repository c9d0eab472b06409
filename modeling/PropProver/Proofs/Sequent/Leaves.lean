import Mathlib.Algebra.BigOperators.Group.List.Basic
import PropProver.Proofs.Refutation
import PropProver.Proofs.Sequent.Derivation

/-!
# The leaves of a search

A quantity that every inference distributes over its premises is distributed over the leaves of a
finished search (`Search.Unfolding.total_leaves`). In particular the branches of the goal are those
of the leaves, and so the goal holds where all leaves hold. The leaves are axioms, so that a formula
is valid if all of them are closed, and one that is open gives an assignment which makes the
formula false (`Formula.search_sound_and_complete`).
-/

namespace PropProver

namespace Search

/-! ### Totals -/

section Totals

variable {M : Type*} [AddCommMonoid M]

/-- Every inference distributes a quantity over its premises. -/
def Distributes (g : Sequent Empty → M) : Prop :=
  ∀ s inference, s.inference? = some inference → (inference.premises.map g).sum = g s

theorem distributes_branches : Distributes Sequent.branches :=
  fun _ _ => Sequent.branches_inference

/-- What the sequents of some entries have together. -/
def total (g : Sequent Empty → M) (es : List (Trace.Entry Empty)) : M :=
  (es.map fun e => g e.sequent).sum

variable {g : Sequent Empty → M}

theorem total_cons (e : Trace.Entry Empty) (es : List (Trace.Entry Empty)) :
    total g (e :: es) = g e.sequent + total g es := by
  rw [total, List.map_cons, List.sum_cons]
  rfl

theorem total_append (es es' : List (Trace.Entry Empty)) :
    total g (es ++ es') = total g es + total g es' := by
  rw [total, List.map_append, List.sum_append]
  rfl

theorem total_of_perm {es es' : List (Trace.Entry Empty)} (h : es.Perm es') :
    total g es = total g es' :=
  (h.map _).sum_eq

end Totals

/-! ### Finished searches -/

namespace Unfolding

variable {M : Type*} [AddCommMonoid M] {g : Sequent Empty → M}
variable {goal : Sequent Empty} {t : Trace Empty} {e : Trace.Entry Empty}

/-- In a finished search the children of every entry are what the inference at its sequent
gives. -/
theorem made_eq_successors (h : Unfolding goal [] t) (he : e ∈ t.entries) :
    ∃ n, t.made e.index = e.sequent.successors e.index n :=
  h.made_eq e he List.not_mem_nil

theorem made_eq_nil_iff (h : Unfolding goal [] t) (he : e ∈ t.entries) :
    t.made e.index = [] ↔ e.sequent.inference? = none := by
  obtain ⟨n, hmade⟩ := h.made_eq_successors he
  rw [hmade, Sequent.successors_eq_nil_iff]

/-- The leaves of a finished search are axioms. -/
theorem isAxiom_of_mem_leaves (h : Unfolding goal [] t) (he : e ∈ t.leaves) :
    e.sequent.isAxiom = true := by
  obtain ⟨he, hmade⟩ := h.coherent.mem_leaves.1 he
  rw [h.made_eq_nil_iff he] at hmade
  exact Sequent.inference?_eq_none_iff.1 hmade

/-- The entries are the leaves and the inner ones. -/
theorem leaves_append_inner_perm (t : Trace Empty) : (t.leaves ++ t.inner).Perm t.entries := by
  rw [t.leaves_eq_filter]
  exact List.filter_append_perm t.isLeaf t.entries

/-- The entries are the goal and the children of the inner ones. -/
theorem entries_perm (h : Unfolding goal [] t) :
    t.entries.Perm (⟨0, goal, none, none⟩ :: t.inner.flatMap fun e => t.made e.index) := by
  have hroot := List.filter_append_perm (fun e => e.parent.isNone) t.entries
  have hsome : (fun e : Trace.Entry Empty => !e.parent.isNone) = fun e => e.parent.isSome := by
    funext e
    cases e.parent <;> rfl
  rw [h.root, hsome] at hroot
  have hchildren := (leaves_append_inner_perm t).flatMap_right fun e => t.made e.index
  rw [List.flatMap_append] at hchildren
  have hnone : (t.leaves.flatMap fun e => t.made e.index) = [] := by
    rw [List.flatMap_eq_nil_iff]
    exact fun e he => (h.coherent.mem_leaves.1 he).2
  rw [hnone, List.nil_append] at hchildren
  exact hroot.symm.trans ((hchildren.trans h.coherent.flatMap_made_perm).symm.cons _)

/-- The children of an inner entry are the premises of the inference at its sequent. -/
theorem exists_inference (h : Unfolding goal [] t) (he : e ∈ t.inner) :
    ∃ inference, e.sequent.inference? = some inference ∧
      (t.made e.index).map (·.sequent) = inference.premises := by
  obtain ⟨he, hinner⟩ := h.coherent.mem_inner.1 he
  obtain ⟨n, hmade⟩ := h.made_eq_successors he
  cases hi : e.sequent.inference? with
  | none => exact absurd ((h.made_eq_nil_iff he).2 hi) hinner
  | some inference =>
    refine ⟨inference, rfl, ?_⟩
    rw [hmade, Sequent.successors_of_some hi, inference.map_sequent_entries]

/-- An inner entry has as much as its children together. -/
theorem total_made (h : Unfolding goal [] t) (hg : Distributes g) (he : e ∈ t.inner) :
    total g (t.made e.index) = g e.sequent := by
  obtain ⟨inference, hi, hmade⟩ := h.exists_inference he
  rw [← hg _ _ hi, ← hmade, List.map_map]
  rfl

/-- Inner entries have as much as all their children together. -/
theorem total_flatMap_made (h : Unfolding goal [] t) (hg : Distributes g)
    {es : List (Trace.Entry Empty)} (hes : ∀ e ∈ es, e ∈ t.inner) :
    total g (es.flatMap fun e => t.made e.index) = total g es := by
  induction es with
  | nil => rfl
  | cons e es ih =>
    obtain ⟨he, hes⟩ := List.forall_mem_cons.1 hes
    rw [List.flatMap_cons, total_append, total_cons, h.total_made hg he, ih hes]

/-- What every inference distributes over its premises is distributed over the leaves. -/
theorem total_leaves [IsCancelAdd M] (h : Unfolding goal [] t) (hg : Distributes g) :
    total g t.leaves = g goal := by
  -- The entries are leaves and inner ones, and they are the goal and the children of inner ones.
  have hsplit : total g t.leaves + total g t.inner = total g t.entries := by
    rw [← total_append, total_of_perm (leaves_append_inner_perm t)]
  have hroot : total g t.entries = g goal + total g t.inner := by
    rw [total_of_perm h.entries_perm, total_cons, h.total_flatMap_made hg fun e he => he]
  exact add_right_cancel (hsplit.trans hroot)

/-- An entry with children holds where all its children hold. -/
theorem holds_iff_children (h : Unfolding goal [] t) (he : e ∈ t.entries) :
    ∃ cs, t.children e.index = some cs ∧
      (cs ≠ [] → ∀ v, e.sequent.Holds v ↔ ∀ c ∈ cs, c.sequent.Holds v) := by
  refine ⟨_, h.coherent.children_eq (h.coherent.index_lt he), fun hinner v => ?_⟩
  obtain ⟨inference, hi, hmade⟩ := h.exists_inference (h.coherent.mem_inner.2 ⟨he, hinner⟩)
  rw [Sequent.holds_inference hi, ← hmade, List.forall_mem_map]

end Unfolding

end Search

namespace Formula

variable (f : Formula)

/-- The leaves have the branches of the formula. -/
theorem total_leaves_search :
    Search.total Sequent.branches f.search.trace.leaves = f.branches true := by
  rw [f.search_unfolding.total_leaves Search.distributes_branches]
  simp [Sequent.branches, Sequent.branchesOn, Side.sign]

/-- The formula is true where all leaves hold. -/
theorem eval_iff_leaves (v : Assignment) :
    f.eval v = true ↔ ∀ e ∈ f.search.trace.leaves, e.sequent.Holds v := by
  rw [← holds_branches, ← total_leaves_search, Search.total, Cnf.holds_sum]
  simp only [List.forall_mem_map, Sequent.holds_branches]

/-- A leaf that is not closed tells where the formula is false. -/
theorem eval_eq_false_of_leaf {f : Formula} {e : Trace.Entry Empty}
    (he : e ∈ f.search.trace.leaves) (hopen : e.sequent.isClosed = false) :
    f.eval (fun a => decide (.atom a ∈ e.sequent.antecedent)) = false := by
  rw [← Bool.not_eq_true, eval_iff_leaves]
  intro hall
  have hatoms := f.search_unfolding.isAxiom_of_mem_leaves he
  exact Sequent.not_holds_of_not_isClosed hatoms hopen (hall e he)

/-- The formula is valid if every leaf is closed. -/
theorem valid_iff_leaves :
    f.Valid ↔ ∀ e ∈ f.search.trace.leaves, e.sequent.isClosed = true := by
  constructor
  · intro hvalid e he
    by_contra hopen
    have hfalse := eval_eq_false_of_leaf he (Bool.not_eq_true _ ▸ hopen)
    rw [hvalid] at hfalse
    cases hfalse
  · intro hclosed v
    rw [eval_iff_leaves]
    exact fun e he => Sequent.holds_of_isClosed (hclosed e he) v

/-- **Proof search**: the leaves of a search are axioms, and an entry with children holds under an
assignment exactly if its children hold. The formula is valid exactly if every leaf is closed, and
refutation by saturation then calls it a theorem. A leaf that is not closed gives an assignment
which makes the formula false. -/
theorem search_sound_and_complete :
    (∀ e ∈ f.search.trace.leaves, e.sequent.isAxiom = true) ∧
    (∀ e ∈ f.search.trace.entries, ∃ cs, f.search.trace.children e.index = some cs ∧
      (cs ≠ [] → ∀ v, e.sequent.Holds v ↔ ∀ c ∈ cs, c.sequent.Holds v)) ∧
    (f.Valid ↔ ∀ e ∈ f.search.trace.leaves, e.sequent.isClosed = true) ∧
    (∃ r, f.refute .saturation .classical none = .ok r ∧
      (r.isTheorem = true ↔ ∀ e ∈ f.search.trace.leaves, e.sequent.isClosed = true)) ∧
    ∀ e ∈ f.search.trace.leaves, e.sequent.isClosed = false →
      f.eval (fun a => decide (.atom a ∈ e.sequent.antecedent)) = false := by
  have hsearch := f.search_unfolding
  refine ⟨fun e he => hsearch.isAxiom_of_mem_leaves he, fun e he => hsearch.holds_iff_children he,
    f.valid_iff_leaves, ?_, fun e he hopen => eval_eq_false_of_leaf he hopen⟩
  obtain ⟨r, hr, htheorem⟩ := f.exists_refute_saturation .classical
  refine ⟨r, hr, ?_⟩
  rw [htheorem, ← valid_iff_not_satisfiable, valid_iff_leaves]

end Formula

end PropProver
