import PropProver.Proofs.Resolution.Completeness
import PropProver.Refutation.Saturation

/-!
# What one given clause does

The inferences of a given clause with its partners add clauses to the waiting ones. Each of them is
a resolvent, no tautology, and not covered by the clauses that are there when it is added
(`Fresh`); and unless the empty clause was found, every resolvent is a tautology or covered
afterwards (`Pass.covers_resolvents`).

A turn drops the given clause if a processed clause covers it. Otherwise the given clause takes the
place of the processed clauses that contain it (`turn_cases`). Either way no clause that was covered
before loses its cover (`covers_turn`, `covers_processed_turn`).
-/

namespace PropProver.Saturation

open LiteralSet

/-! ### Clauses that are kept -/

/-- One after the other, the clauses are no tautologies and are not covered by what is there. -/
def Fresh (base : List LiteralSet) : List LiteralSet → Prop
  | [] => True
  | r :: rs => r.isTautology = false ∧ ¬ Covers base r ∧ Fresh (base ++ [r]) rs

theorem fresh_append {base xs ys : List LiteralSet} :
    Fresh base (xs ++ ys) ↔ Fresh base xs ∧ Fresh (base ++ xs) ys := by
  induction xs generalizing base with
  | nil => simp [Fresh]
  | cons x xs ih =>
    rw [List.cons_append, Fresh, ih, Fresh, List.append_assoc, List.singleton_append]
    simp only [and_assoc]

/-- A fresh clause is not covered by what was there at the beginning. -/
theorem Fresh.of_mem {base xs : List LiteralSet} (h : Fresh base xs) {r : LiteralSet}
    (hr : r ∈ xs) : r.isTautology = false ∧ ¬ Covers base r := by
  induction xs generalizing base with
  | nil => cases hr
  | cons x xs ih =>
    obtain ⟨ht, hc, hxs⟩ := h
    rcases List.mem_cons.1 hr with rfl | hr
    · exact ⟨ht, hc⟩
    · obtain ⟨ht, hc⟩ := ih hxs hr
      exact ⟨ht, fun hcov => hc (covers_append.2 (.inl hcov))⟩

theorem Fresh.nodup {base xs : List LiteralSet} (h : Fresh base xs) : xs.Nodup := by
  induction xs generalizing base with
  | nil => exact .nil
  | cons x xs ih =>
    obtain ⟨-, -, hxs⟩ := h
    refine List.nodup_cons.2 ⟨fun hx => (hxs.of_mem hx).2 ?_, ih hxs⟩
    exact .of_mem (List.mem_append_right _ (List.mem_singleton_self x))

theorem keep_subset {processed waiting rs : List LiteralSet} {r : LiteralSet}
    (h : r ∈ keep processed waiting rs) : r ∈ rs := by
  fun_induction keep processed waiting rs with
  | case1 => cases h
  | case2 waiting r' rs _ ih => exact List.mem_cons_of_mem _ (ih h)
  | case3 waiting r' rs _ ih =>
    rcases List.mem_cons.1 h with rfl | h
    · exact List.mem_cons_self
    · exact List.mem_cons_of_mem _ (ih h)

theorem fresh_keep (processed waiting rs : List LiteralSet) :
    Fresh (processed ++ waiting) (keep processed waiting rs) := by
  fun_induction keep processed waiting rs with
  | case1 => trivial
  | case2 waiting r rs _ ih => exact ih
  | case3 waiting r rs hr ih =>
    simp only [Bool.or_eq_true, not_or, Bool.not_eq_true, isSubsumedBy_eq_false_iff] at hr
    refine ⟨hr.1.1, ?_, by rwa [List.append_assoc]⟩
    rw [covers_append, not_or]
    exact ⟨hr.1.2, hr.2⟩

/-- Tautologies are not kept. -/
theorem keep_eq_nil {processed waiting rs : List LiteralSet} (h : ∀ x ∈ rs, x.isTautology = true) :
    keep processed waiting rs = [] := by
  refine List.eq_nil_iff_forall_not_mem.2 fun x hx => ?_
  have ht := ((fresh_keep processed waiting rs).of_mem hx).1
  rw [h x (keep_subset hx)] at ht
  cases ht

/-- What is not kept is a tautology or covered. -/
theorem covers_keep {processed waiting rs : List LiteralSet} {r : LiteralSet} (hr : r ∈ rs)
    (ht : r.isTautology = false) :
    Covers (processed ++ waiting ++ keep processed waiting rs) r := by
  fun_induction keep processed waiting rs with
  | case1 => cases hr
  | case2 waiting r' rs h ih =>
    rcases List.mem_cons.1 hr with rfl | hr
    · simp only [Bool.or_eq_true, ht, Bool.false_eq_true, false_or, isSubsumedBy_iff] at h
      rw [covers_append, covers_append]
      exact .inl h
    · exact ih hr
  | case3 waiting r' rs h ih =>
    rcases List.mem_cons.1 hr with rfl | hr
    · exact .of_mem (List.mem_append_right _ List.mem_cons_self)
    · simpa [List.append_assoc] using ih hr

/-! ### The inferences of a given clause -/

/-- All clauses that a pass gives. -/
def Pass.generated (p : Pass) : List LiteralSet := p.applications.flatMap Application.generated

theorem fresh_generated (given : LiteralSet) (processed unprocessed partners : List LiteralSet) :
    Fresh (processed ++ unprocessed)
      (resolveWith given processed unprocessed partners).generated := by
  fun_induction resolveWith given processed unprocessed partners with
  | case1 => trivial
  | case2 unprocessed partner partners _ ih => exact ih
  | case3 unprocessed partner partners _ a _ =>
    simpa [Pass.generated, a] using fresh_keep processed unprocessed (partner.resolvents given)
  | case4 unprocessed partner partners _ a _ rest ih =>
    have := fresh_keep processed unprocessed (partner.resolvents given)
    rw [← List.append_assoc] at ih
    simpa [Pass.generated, a, rest] using fresh_append.2 ⟨this, ih⟩

/-- Every clause that a pass gives is a resolvent of a partner with the given clause. -/
theorem mem_resolvents_of_mem_generated {given r : LiteralSet}
    {processed unprocessed partners : List LiteralSet}
    (h : r ∈ (resolveWith given processed unprocessed partners).generated) :
    ∃ p ∈ partners, r ∈ p.resolvents given := by
  fun_induction resolveWith given processed unprocessed partners with
  | case1 => simp [Pass.generated] at h
  | case2 unprocessed partner partners _ ih =>
    obtain ⟨p, hp, hr⟩ := ih h
    exact ⟨p, List.mem_cons_of_mem _ hp, hr⟩
  | case3 unprocessed partner partners _ a _ =>
    simp only [Pass.generated, a, List.flatMap_cons, List.flatMap_nil, List.append_nil] at h
    exact ⟨partner, List.mem_cons_self, keep_subset h⟩
  | case4 unprocessed partner partners _ a _ rest ih =>
    simp only [Pass.generated, a, List.flatMap_cons, List.mem_append] at h
    rcases h with h | h
    · exact ⟨partner, List.mem_cons_self, keep_subset h⟩
    · obtain ⟨p, hp, hr⟩ := ih h
      exact ⟨p, List.mem_cons_of_mem _ hp, hr⟩

/-- The pass ends early only on the empty clause. -/
theorem empty_mem_generated {given : LiteralSet} {processed unprocessed partners : List LiteralSet}
    (h : (resolveWith given processed unprocessed partners).closed = true) :
    ∅ ∈ (resolveWith given processed unprocessed partners).generated := by
  fun_induction resolveWith given processed unprocessed partners with
  | case1 => cases h
  | case2 unprocessed partner partners _ ih => exact ih h
  | case3 unprocessed partner partners _ a hempty =>
    obtain ⟨r, hr, he⟩ := List.any_eq_true.1 hempty
    rw [LiteralSet.isEmpty_iff] at he
    subst he
    simpa [Pass.generated, a] using hr
  | case4 unprocessed partner partners _ a _ rest ih =>
    simp only [Pass.generated, a, List.flatMap_cons, List.mem_append]
    exact .inr (ih h)

/-- A pass that is not ended early lets all its clauses wait. -/
theorem unprocessed_resolveWith {given : LiteralSet}
    {processed unprocessed partners : List LiteralSet}
    (h : (resolveWith given processed unprocessed partners).closed = false) :
    (resolveWith given processed unprocessed partners).unprocessed =
      unprocessed ++ (resolveWith given processed unprocessed partners).generated := by
  fun_induction resolveWith given processed unprocessed partners with
  | case1 => simp [Pass.generated]
  | case2 unprocessed partner partners _ ih => exact ih h
  | case3 unprocessed partner partners _ a _ => cases h
  | case4 unprocessed partner partners _ a _ rest ih =>
    simpa [Pass.generated, a, rest] using ih h

/-- A pass that is not ended early covers the resolvents of all partners. -/
theorem covers_resolvents {given r : LiteralSet} {processed unprocessed partners : List LiteralSet}
    (h : (resolveWith given processed unprocessed partners).closed = false) {p : LiteralSet}
    (hp : p ∈ partners) (hr : r ∈ p.resolvents given) (ht : r.isTautology = false) :
    Covers (processed ++ unprocessed ++
      (resolveWith given processed unprocessed partners).generated) r := by
  fun_induction resolveWith given processed unprocessed partners with
  | case1 => cases hp
  | case2 unprocessed partner partners hkeep ih =>
    rcases List.mem_cons.1 hp with rfl | hp
    · have hcov : Covers (processed ++ unprocessed ++ keep processed unprocessed _) r :=
        covers_keep hr ht
      rw [hkeep, List.append_nil] at hcov
      exact covers_append.2 (.inl hcov)
    · exact ih h hp
  | case3 unprocessed partner partners _ a _ => cases h
  | case4 unprocessed partner partners _ a _ rest ih =>
    simp only [Pass.generated, a, List.flatMap_cons]
    rcases List.mem_cons.1 hp with rfl | hp
    · rw [← List.append_assoc]
      exact covers_append.2 (.inl (covers_keep hr ht))
    · simpa [Pass.generated, rest, List.append_assoc] using ih h hp

/-! ### Turns -/

/-- The processed clauses that stay beside a given clause. -/
def remaining (given : LiteralSet) (s : State) : List LiteralSet :=
  s.processed.filter fun c => !decide (given ⊆ c)

theorem mem_remaining {given c : LiteralSet} {s : State} :
    c ∈ remaining given s ↔ c ∈ s.processed ∧ ¬ given ⊆ c := by
  simp [remaining]

/-- The inferences of a given clause with the clauses that stay. -/
def pass (given : LiteralSet) (s : State) : Pass :=
  resolveWith given (remaining given s ++ [given]) s.unprocessed (remaining given s)

/-- The state after the inferences of a given clause. -/
def resolved (given : LiteralSet) (s : State) : State :=
  ⟨remaining given s ++ [given], (pass given s).unprocessed⟩

theorem mem_of_mem_resolved {given c : LiteralSet} {s : State}
    (h : c ∈ (resolved given s).processed) : c ∈ given :: s.processed := by
  rcases List.mem_append.1 h with h | h
  · exact List.mem_cons_of_mem _ (mem_remaining.1 h).1
  · exact List.mem_singleton.1 h ▸ List.mem_cons_self

/-- What stays or waits was there before. -/
theorem mem_of_mem_resolved_append {given c : LiteralSet} {s : State}
    (h : c ∈ (resolved given s).processed ++ s.unprocessed) : c ∈ given :: s.all := by
  rw [State.all, ← List.cons_append]
  rcases List.mem_append.1 h with h | h
  · exact List.mem_append_left _ (mem_of_mem_resolved h)
  · exact List.mem_append_right _ h

/-- A pass that is not ended early leaves the clauses that waited, and its own. -/
theorem all_resolved {given : LiteralSet} {s : State} (h : (pass given s).closed = false) :
    (resolved given s).all =
      remaining given s ++ [given] ++ s.unprocessed ++ (pass given s).generated := by
  rw [State.all, resolved, pass, unprocessed_resolveWith h, ← List.append_assoc]

/-- The clauses that the inferences of a turn remove. -/
def removals (given : LiteralSet) (s : State) : List Event :=
  (Application.subsumption? given s.processed).toList.map .applied

/-- A given clause that is covered is dropped. -/
theorem turn_of_covers {given : LiteralSet} {s : State} (hne : given ≠ ∅)
    (hcov : Covers s.processed given) : turn given s = ⟨false, s, [.subsumed given]⟩ := by
  unfold turn
  rw [if_neg (fun h => hne (LiteralSet.isEmpty_iff.1 h)), if_pos (isSubsumedBy_iff.2 hcov)]

/-- A given clause that is not covered is resolved with the clauses that stay. -/
theorem turn_of_not_covers {given : LiteralSet} {s : State} (hne : given ≠ ∅)
    (hcov : ¬ Covers s.processed given) :
    turn given s = ⟨(pass given s).closed, resolved given s,
      removals given s ++ .given given :: (pass given s).applications.map .applied⟩ := by
  unfold turn
  rw [if_neg (fun h => hne (LiteralSet.isEmpty_iff.1 h)),
    if_neg (fun h => hcov (isSubsumedBy_iff.1 h))]
  rfl

/-- A given clause is empty, or covered and dropped, or else it is resolved with what stays. -/
theorem turn_cases (given : LiteralSet) (s : State) :
    given = ∅ ∧ turn given s = ⟨true, s, []⟩ ∨
    given ≠ ∅ ∧ Covers s.processed given ∧ turn given s = ⟨false, s, [.subsumed given]⟩ ∨
    given ≠ ∅ ∧ ¬ Covers s.processed given ∧
      turn given s = ⟨(pass given s).closed, resolved given s,
        removals given s ++ .given given :: (pass given s).applications.map .applied⟩ := by
  by_cases he : given = ∅
  · refine .inl ⟨he, ?_⟩
    rw [turn, if_pos (LiteralSet.isEmpty_iff.2 he)]
  · by_cases hcov : Covers s.processed given
    · exact .inr (.inl ⟨he, hcov, turn_of_covers he hcov⟩)
    · exact .inr (.inr ⟨he, hcov, turn_of_not_covers he hcov⟩)

/-- The clauses that a given clause replaces contain it. -/
theorem covers_processed_resolved {given c : LiteralSet} {s : State}
    (hc : Covers (given :: s.processed) c) : Covers (resolved given s).processed c := by
  refine hc.trans fun d hd => ?_
  have hgiven : given ∈ remaining given s ++ [given] :=
    List.mem_append_right _ (List.mem_singleton_self given)
  rcases List.mem_cons.1 hd with rfl | hd
  · exact .of_mem hgiven
  · by_cases hsub : given ⊆ d
    · exact ⟨given, hgiven, hsub⟩
    · exact .of_mem (List.mem_append_left _ (mem_remaining.2 ⟨hd, hsub⟩))

/-- Before its inferences, a given clause leaves covered what is covered. -/
theorem covers_resolved {given c : LiteralSet} {s : State} (hc : Covers (given :: s.all) c) :
    Covers ((resolved given s).processed ++ s.unprocessed) c := by
  rw [State.all, ← List.cons_append] at hc
  exact covers_append.2 ((covers_append.1 hc).imp_left covers_processed_resolved)

/-- A turn keeps covered what the processed clauses cover, and covers the given clause. -/
theorem covers_processed_turn {given c : LiteralSet} {s : State}
    (h : (turn given s).closed = false) (hc : Covers (given :: s.processed) c) :
    Covers (turn given s).state.processed c := by
  rcases turn_cases given s with ⟨-, ht⟩ | ⟨-, hcov, ht⟩ | ⟨-, -, ht⟩
  · rw [ht] at h
    cases h
  · rw [ht]
    refine hc.trans fun d hd => ?_
    rcases List.mem_cons.1 hd with rfl | hd
    · exact hcov
    · exact .of_mem hd
  · rw [ht]
    exact covers_processed_resolved hc

/-- Clauses that wait go on waiting. -/
theorem mem_unprocessed_turn {given c : LiteralSet} {s : State}
    (h : (turn given s).closed = false) (hc : c ∈ s.unprocessed) :
    c ∈ (turn given s).state.unprocessed := by
  rcases turn_cases given s with ⟨-, ht⟩ | ⟨-, -, ht⟩ | ⟨-, -, ht⟩ <;> rw [ht] at h ⊢
  · cases h
  · exact hc
  · rw [resolved, pass, unprocessed_resolveWith h]
    exact List.mem_append_left _ hc

/-- A turn keeps covered what is covered. -/
theorem covers_turn {given c : LiteralSet} {s : State} (h : (turn given s).closed = false)
    (hc : Covers (given :: s.all) c) : Covers (turn given s).state.all c := by
  refine hc.trans fun d hd => covers_append.2 ?_
  rw [State.all, ← List.cons_append] at hd
  rcases List.mem_append.1 hd with hd | hd
  · exact .inl (covers_processed_turn h (.of_mem hd))
  · exact .inr (.of_mem (mem_unprocessed_turn h hd))

/-- What is there after a turn was there before, or is a resolvent. -/
theorem mem_all_turn {given c : LiteralSet} {s : State} (h : (turn given s).closed = false)
    (hc : c ∈ (turn given s).state.all) :
    c ∈ given :: s.all ∨ ∃ p ∈ s.processed, c ∈ p.resolvents given := by
  rcases turn_cases given s with ⟨-, ht⟩ | ⟨-, -, ht⟩ | ⟨-, -, ht⟩ <;> rw [ht] at h hc
  · cases h
  · exact .inl (List.mem_cons_of_mem _ hc)
  · rw [all_resolved h] at hc
    rcases List.mem_append.1 hc with hc | hc
    · exact .inl (mem_of_mem_resolved_append hc)
    · obtain ⟨p, hp, hr⟩ := mem_resolvents_of_mem_generated hc
      exact .inr ⟨p, (mem_remaining.1 hp).1, hr⟩

end PropProver.Saturation
