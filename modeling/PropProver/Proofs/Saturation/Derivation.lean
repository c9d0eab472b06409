import PropProver.Proofs.Saturation.History

/-!
# Inferences that can be checked

The inferences of a search are what its readers take for a proof, so they should be able to check
each of them by itself. An inference `Checks` against the clauses known before if it is the
resolution of two of them in the only literal they clash in, or the removal of some that properly
contain another one. A list of inferences is a `Derivation` if each of them checks against what was
known at the start or inferred earlier, and removed clauses are not used again.

Clauses that clash in two literals have no resolvents but tautologies, which is why a resolution
that is kept gives a single clause (`LiteralSet.resolvents_eq_singleton`, `checks_keep`). So the
inferences of a turn are a derivation from the given clause and the processed ones
(`derivation_turn`).
-/

namespace PropProver

namespace Saturation

open LiteralSet

/-! ### Inferences that can be checked -/

/-- The inferences from known clauses that are right by themselves. -/
inductive Checks (known : List LiteralSet) : Application → Prop where
  /-- Two clauses that clash in a single literal give their resolvent, which is no tautology. -/
  | resolution {c d : LiteralSet} {l : Literal} : c ∈ known → d ∈ known → l ∈ c →
      l.complement ∈ d → (∀ m ∈ c, m.complement ∈ d → m = l) →
      (c.erase l ∪ d.erase l.complement).isTautology = false →
      Checks known { rule := "resolution", parents := [c, d]
                     generated := [c.erase l ∪ d.erase l.complement] }
  /-- A clause removes clauses that properly contain it. -/
  | subsumption {c : LiteralSet} {ds : List LiteralSet} : c ∈ known → ds ≠ [] →
      (∀ d ∈ ds, d ∈ known ∧ c ⊆ d ∧ d ≠ c) →
      Checks known { rule := "subsumption", parents := [c], deleted := ds }

/-- The lists of inferences in which each one checks against what is known or was inferred before,
and which do not use removed clauses. -/
inductive Derivation : List LiteralSet → List Application → Prop where
  /-- There is nothing to check. -/
  | nil {known : List LiteralSet} : Derivation known []
  /-- The first inference checks, and the others follow. -/
  | cons {known : List LiteralSet} {a : Application} {as : List Application} : Checks known a →
      (∀ c ∈ a.deleted, ∀ b ∈ as, c ∉ b.parents) → Derivation (known ++ a.generated) as →
      Derivation known (a :: as)

theorem Checks.mono {known known' : List LiteralSet} {a : Application} (h : Checks known a)
    (hsub : ∀ c ∈ known, c ∈ known') : Checks known' a := by
  cases h with
  | resolution hc hd hl hl' hclash ht =>
    exact .resolution (hsub _ hc) (hsub _ hd) hl hl' hclash ht
  | subsumption hc hne hds =>
    exact .subsumption (hsub _ hc) hne fun d hd => (hds d hd).imp_left (hsub d)

theorem Derivation.mono {known known' : List LiteralSet} {as : List Application}
    (h : Derivation known as) (hsub : ∀ c ∈ known, c ∈ known') : Derivation known' as := by
  induction h generalizing known' with
  | nil => exact .nil
  | cons ha hdel _ ih =>
    refine .cons (ha.mono hsub) hdel (ih fun c hc => List.mem_append.2 ?_)
    exact (List.mem_append.1 hc).imp_left (hsub c)

theorem Derivation.append {known : List LiteralSet} {as bs : List Application}
    (has : Derivation known as) (hbs : Derivation (known ++ conclusions as) bs)
    (hdel : ∀ a ∈ as, ∀ c ∈ a.deleted, ∀ b ∈ bs, c ∉ b.parents) : Derivation known (as ++ bs) := by
  induction has with
  | nil => simpa [conclusions] using hbs
  | @cons known a as ha hdel' _ ih =>
    refine .cons ha (fun c hc b hb => ?_) (ih ?_ fun a' ha' => hdel a' (List.mem_cons_of_mem _ ha'))
    · rcases List.mem_append.1 hb with hb | hb
      · exact hdel' c hc b hb
      · exact hdel a List.mem_cons_self c hc b hb
    · rwa [conclusions, List.flatMap_cons, ← List.append_assoc] at hbs

/-- After an inference that removes nothing, anything may be used. -/
theorem Derivation.cons_of_deleted {known : List LiteralSet} {a : Application}
    {as : List Application} (ha : Checks known a) (hdel : a.deleted = [])
    (has : Derivation (known ++ a.generated) as) : Derivation known (a :: as) := by
  refine .cons ha (fun c hc => ?_) has
  rw [hdel] at hc
  cases hc

/-- Only known clauses are removed. -/
theorem Derivation.mem_of_deleted {known : List LiteralSet} {as : List Application}
    (h : Derivation known as) :
    ∀ a ∈ as, ∀ c ∈ a.deleted, c ∈ known ++ conclusions as := by
  induction h with
  | nil =>
    intro a ha
    cases ha
  | @cons known b bs hb _ _ ih =>
    intro a ha c hc
    rw [conclusions, List.flatMap_cons, ← List.append_assoc]
    rcases List.mem_cons.1 ha with rfl | ha
    · refine List.mem_append_left _ (List.mem_append_left _ ?_)
      cases hb with
      | resolution => cases hc
      | subsumption _ _ hds => exact (hds c hc).1
    · exact ih a ha c hc

/-! ### The inferences of a pass -/

variable {given c : LiteralSet} {processed unprocessed partners known : List LiteralSet}

/-- Of the resolvents of two clauses no more than one is kept. -/
theorem keep_resolvents {c d r : LiteralSet}
    (hr : r ∈ keep processed unprocessed (resolvents c d)) :
    keep processed unprocessed (resolvents c d) = [r] := by
  have ht : r.isTautology = false := ((fresh_keep processed unprocessed _).of_mem hr).1
  obtain ⟨l, hl, hl', rfl⟩ := mem_resolvents.1 (keep_subset hr)
  rw [resolvents_eq_singleton hl hl' ht] at hr ⊢
  unfold keep at hr ⊢
  split at hr
  · cases hr
  · next hnew => rw [if_neg hnew, keep]

/-- The resolution by which a clause is kept checks. -/
theorem checks_keep {c d : LiteralSet} (hc : c ∈ known) (hd : d ∈ known)
    (h : keep processed unprocessed (resolvents c d) ≠ []) :
    Checks known { rule := "resolution", parents := [c, d]
                   generated := keep processed unprocessed (resolvents c d) } := by
  obtain ⟨r, hr⟩ := List.exists_mem_of_ne_nil _ h
  have ht : r.isTautology = false := ((fresh_keep processed unprocessed _).of_mem hr).1
  rw [keep_resolvents hr]
  obtain ⟨l, hl, hl', rfl⟩ := mem_resolvents.1 (keep_subset hr)
  exact .resolution hc hd hl hl' (fun m hm hm' => eq_of_clash ht hm hm') ht

/-- The resolutions of a pass are between the given clause and its partners. -/
theorem parents_resolveWith : ∀ a ∈ (resolveWith given processed unprocessed partners).applications,
    a.deleted = [] ∧ ∀ c ∈ a.parents, c ∈ partners ∨ c = given := by
  fun_induction resolveWith given processed unprocessed partners with
  | case1 =>
    intro a ha
    cases ha
  | case2 unprocessed partner partners _ ih =>
    exact fun a ha => (ih a ha).imp_right fun h c hc => (h c hc).imp_left (List.mem_cons_of_mem _)
  | case3 unprocessed partner partners _ a _ =>
    intro b hb
    rw [List.mem_singleton.1 hb]
    exact ⟨rfl, by simp [a]⟩
  | case4 unprocessed partner partners _ a _ rest ih =>
    intro b hb
    rcases List.mem_cons.1 hb with rfl | hb
    · exact ⟨rfl, by simp [a]⟩
    · exact (ih b hb).imp_right fun h c hc => (h c hc).imp_left (List.mem_cons_of_mem _)

/-- The inferences of a pass follow from the given clause and its partners. -/
theorem derivation_resolveWith : ∀ known, given ∈ known → (∀ p ∈ partners, p ∈ known) →
    Derivation known (resolveWith given processed unprocessed partners).applications := by
  fun_induction resolveWith given processed unprocessed partners with
  | case1 => exact fun _ _ _ => .nil
  | case2 unprocessed partner partners _ ih =>
    intro known hgiven hpartners
    exact ih known hgiven fun p hp => hpartners p (List.mem_cons_of_mem _ hp)
  | case3 unprocessed partner partners hkeep a _ =>
    intro known hgiven hpartners
    exact .cons_of_deleted (checks_keep (hpartners _ List.mem_cons_self) hgiven hkeep) rfl .nil
  | case4 unprocessed partner partners hkeep a _ rest ih =>
    intro known hgiven hpartners
    refine .cons_of_deleted (checks_keep (hpartners _ List.mem_cons_self) hgiven hkeep) rfl ?_
    exact ih _ (List.mem_append_left _ hgiven) fun p hp =>
      List.mem_append_left _ (hpartners p (List.mem_cons_of_mem _ hp))

/-- A pass that is not ended early gives clauses that are not empty. -/
theorem empty_notMem_generated
    (h : (resolveWith given processed unprocessed partners).closed = false) :
    ∅ ∉ (resolveWith given processed unprocessed partners).generated := by
  fun_induction resolveWith given processed unprocessed partners with
  | case1 => exact List.not_mem_nil
  | case2 unprocessed partner partners _ ih => exact ih h
  | case3 unprocessed partner partners _ a _ => cases h
  | case4 unprocessed partner partners _ a hempty rest ih =>
    rw [Pass.generated, List.flatMap_cons, List.mem_append, not_or]
    refine ⟨fun he => hempty (List.any_eq_true.2 ⟨∅, he, rfl⟩), ih h⟩

/-- A pass is ended early by the resolution that gives the empty clause, and only by that. -/
theorem applications_of_closed
    (h : (resolveWith given processed unprocessed partners).closed = true) :
    ∃ as a, (resolveWith given processed unprocessed partners).applications = as ++ [a] ∧
      ∅ ∉ conclusions as ∧ a.rule = "resolution" ∧ a.generated = [∅] := by
  fun_induction resolveWith given processed unprocessed partners with
  | case1 => cases h
  | case2 unprocessed partner partners _ ih => exact ih h
  | case3 unprocessed partner partners hkeep a hempty =>
    obtain ⟨r, hr, he⟩ := List.any_eq_true.1 hempty
    rw [LiteralSet.isEmpty_iff] at he
    exact ⟨[], a, rfl, List.not_mem_nil, rfl, he ▸ keep_resolvents hr⟩
  | case4 unprocessed partner partners _ a hempty rest ih =>
    obtain ⟨as, b, has, hnew, hb⟩ := ih h
    refine ⟨a :: as, b, congrArg (a :: ·) has, ?_, hb⟩
    rw [conclusions, List.flatMap_cons, List.mem_append, not_or]
    exact ⟨fun he => hempty (List.any_eq_true.2 ⟨∅, he, rfl⟩), hnew⟩

/-! ### The inferences of a turn -/

variable {s : State}

theorem subsumption?_eq_some {others : List LiteralSet} {a : Application}
    (h : Application.subsumption? c others = some a) :
    ∃ ds, ds ≠ [] ∧ (∀ d, d ∈ ds ↔ d ∈ others ∧ c ⊆ d) ∧
      a = { rule := "subsumption", parents := [c], deleted := ds } := by
  unfold Application.subsumption? at h
  split at h
  · cases h
  · next hne =>
    cases h
    exact ⟨_, hne, fun d => by simp, rfl⟩

/-- A turn uses its given clause and processed ones, and removes processed clauses that properly
contain the given one. -/
theorem parents_turn : ∀ a ∈ inferences (turn given s).events,
    (∀ c ∈ a.parents, c ∈ given :: s.processed) ∧
      ∀ c ∈ a.deleted, c ∈ s.processed ∧ given ⊆ c ∧ c ≠ given := by
  intro a ha
  rcases turn_cases given s with ⟨-, ht⟩ | ⟨-, -, ht⟩ | ⟨-, hcov, ht⟩ <;> rw [ht] at ha
  · cases ha
  · cases ha
  · rw [inferences_resolved] at ha
    rcases List.mem_append.1 ha with ha | ha
    · obtain ⟨ds, -, hds, rfl⟩ := subsumption?_eq_some (Option.mem_toList.1 ha)
      refine ⟨fun c hc => List.mem_singleton.1 hc ▸ List.mem_cons_self, fun c hc => ?_⟩
      obtain ⟨hc, hsub⟩ := (hds c).1 hc
      exact ⟨hc, hsub, fun h => hcov (h ▸ .of_mem hc)⟩
    · obtain ⟨hdel, hparents⟩ := parents_resolveWith a ha
      refine ⟨fun c hc => ?_, fun c hc => by rw [hdel] at hc; cases hc⟩
      rcases hparents c hc with hc | rfl
      · exact List.mem_cons_of_mem _ (mem_remaining.1 hc).1
      · exact List.mem_cons_self

/-- The inferences of a turn follow from the given clause and the processed ones. -/
theorem derivation_turn (hknown : ∀ c ∈ given :: s.processed, c ∈ known) :
    Derivation known (inferences (turn given s).events) := by
  have hgiven : given ∈ known := hknown given List.mem_cons_self
  rcases turn_cases given s with ⟨-, ht⟩ | ⟨-, -, ht⟩ | ⟨-, hcov, ht⟩ <;> rw [ht]
  · exact .nil
  · exact .nil
  · have hpass : Derivation known (pass given s).applications :=
      derivation_resolveWith known hgiven fun p hp =>
        hknown p (List.mem_cons_of_mem _ (mem_remaining.1 hp).1)
    rw [inferences_resolved]
    cases hsub : Application.subsumption? given s.processed with
    | none => exact hpass
    | some a =>
      obtain ⟨ds, hne, hds, rfl⟩ := subsumption?_eq_some hsub
      refine .cons (.subsumption hgiven hne fun d hd => ?_) (fun c hc b hb hcb => ?_) (by simpa)
      · obtain ⟨hd, hgd⟩ := (hds d).1 hd
        exact ⟨hknown d (List.mem_cons_of_mem _ hd), hgd, fun h => hcov (h ▸ .of_mem hd)⟩
      · -- the pass is left with clauses that do not contain the given one
        obtain ⟨hprocessed, hgc⟩ := (hds c).1 hc
        rcases (parents_resolveWith b hb).2 c hcb with hstays | rfl
        · exact (mem_remaining.1 hstays).2 hgc
        · exact hcov (.of_mem hprocessed)

/-- What a turn removes is not there afterwards. -/
theorem notMem_all_of_deleted (h : (turn given s).closed = false) {a : Application}
    (ha : a ∈ inferences (turn given s).events) (hc : c ∈ a.deleted) (hwait : c ∉ s.unprocessed) :
    c ∉ (turn given s).state.all := by
  obtain ⟨-, hsub, hne⟩ := (parents_turn a ha).2 c hc
  rcases turn_cases given s with ⟨-, ht⟩ | ⟨-, -, ht⟩ | ⟨-, -, ht⟩ <;> rw [ht] at h ha ⊢
  · cases ha
  · cases ha
  · have hfresh : Fresh (remaining given s ++ [given] ++ s.unprocessed) (pass given s).generated :=
      fresh_generated ..
    rw [all_resolved h, List.mem_append, List.mem_append, List.mem_append, List.mem_singleton]
    rintro (((hstays | rfl) | hw) | hnew)
    · exact (mem_remaining.1 hstays).2 hsub
    · exact hne rfl
    · exact hwait hw
    · refine (hfresh.of_mem hnew).2 ⟨given, ?_, hsub⟩
      exact List.mem_append_left _ (List.mem_append_right _ (List.mem_singleton_self given))

/-- The empty clause is inferred only in a turn that ends the search. -/
theorem empty_notMem_conclusions (h : (turn given s).closed = false) :
    ∅ ∉ conclusions (inferences (turn given s).events) := by
  rcases turn_cases given s with ⟨-, ht⟩ | ⟨-, -, ht⟩ | ⟨-, -, ht⟩ <;> rw [ht] at h ⊢
  · exact List.not_mem_nil
  · exact List.not_mem_nil
  · rw [conclusions_resolved]
    exact empty_notMem_generated h

/-- A turn that ends the search, and not because the empty clause was given, ends with the inference
of the empty clause. -/
theorem inferences_of_closed (hne : given ≠ ∅) (h : (turn given s).closed = true) :
    ∃ as a, inferences (turn given s).events = as ++ [a] ∧
      ∅ ∉ conclusions as ∧ a.rule = "resolution" ∧ a.generated = [∅] := by
  rcases turn_cases given s with ⟨he, -⟩ | ⟨-, -, ht⟩ | ⟨-, -, ht⟩
  · exact absurd he hne
  · rw [ht] at h
    cases h
  · rw [ht] at h ⊢
    obtain ⟨as, a, has, hnew, ha⟩ := applications_of_closed h
    refine ⟨(Application.subsumption? given s.processed).toList ++ as, a, ?_, ?_, ha⟩
    · rw [inferences_resolved, pass, has, List.append_assoc]
    · rwa [conclusions_append, conclusions_subsumption?, List.nil_append]

end Saturation

end PropProver
