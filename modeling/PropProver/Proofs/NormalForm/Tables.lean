import PropProver.Proofs.NormalForm.WorkList

/-!
# Where the tables agree

The tables have the same rows for double negations, conjunctions, disjunctions and implications. An
implication leaves the negation of its left side behind, which must not meet one of the other rows
later on. The formulas that are taken apart by common rows to the end are the `Formula.Shared` ones:
whatever a row makes of such a formula consists of such formulas again (`Table.shared_expand`).

So a work list of shared formulas is worked off in the same way with either table, step by step
(`NormalForm.ofPending_of_shared`), and the normal forms by both are one and the same
(`Formula.ofTree_uniform_eq_classical`).
-/

namespace PropProver

/-- The formulas that are taken apart by common rows of the tables. -/
inductive Formula.Shared : Formula → Prop where
  /-- An atom. -/
  | atom (a : String) : Shared (.atom a)
  /-- A negated atom. -/
  | negAtom (a : String) : Shared (.neg (.atom a))
  /-- The double negation of a shared formula. -/
  | doubleNegation {x : Formula} (h : Shared x) : Shared (.neg (.neg x))
  /-- The conjunction of shared formulas. -/
  | and {l r : Formula} (hl : Shared l) (hr : Shared r) : Shared (.bin .and l r)
  /-- The disjunction of shared formulas. -/
  | or {l r : Formula} (hl : Shared l) (hr : Shared r) : Shared (.bin .or l r)
  /-- An implication from a formula whose negation is shared to a shared one. -/
  | imply {l r : Formula} (hl : Shared (.neg l)) (hr : Shared r) : Shared (.bin .imply l r)

/-- All members of the clause are shared. -/
def Clause.Shared (c : Clause Empty) : Prop := ∀ x ∈ c, Formula.Shared x

variable {t t' : Table} {k : Compound Empty} {c rest : Clause Empty} {new : List (Clause Empty)}
  {pending cs : Queue (Clause Empty)} {f : Formula}

/-! ### Rows -/

/-- The tables have the same row for a shared compound, and its parts are shared. -/
theorem Table.shared_expand (t t' : Table) (h : Formula.Shared k.toTree) :
    t.expand k = t'.expand k ∧ ∀ p ∈ (t.expand k).parts, Clause.Shared p := by
  cases k with
  | doubleNegation x =>
    cases h with
    | doubleNegation hx => exact ⟨rfl, by simpa [expand, Expansion.parts, Clause.Shared] using hx⟩
  | negated op l r => cases h
  | binary op l r =>
    cases h with
    | and hl hr =>
      exact ⟨rfl, by simpa [expand, expandBinary, Expansion.parts, Clause.Shared] using ⟨hl, hr⟩⟩
    | or hl hr =>
      exact ⟨rfl, by simpa [expand, expandBinary, Expansion.parts, Clause.Shared] using ⟨hl, hr⟩⟩
    | imply hl hr =>
      exact ⟨rfl, by simpa [expand, expandBinary, Expansion.parts, Clause.Shared] using ⟨hl, hr⟩⟩

/-- The first compound of a shared clause is shared, and so is the rest of the clause. -/
theorem Clause.shared_focus (hf : c.focus = .compound k rest) (h : c.Shared) :
    Formula.Shared k.toTree ∧ rest.Shared := by
  obtain ⟨ls, xs, rfl, rfl⟩ := exists_append_of_focus hf
  obtain ⟨hls, hxs⟩ := List.forall_mem_append.1 h
  obtain ⟨hk, hxs⟩ := List.forall_mem_cons.1 hxs
  exact ⟨hk, List.forall_mem_append.2 ⟨hls, hxs⟩⟩

/-- After an expansion a shared work list is shared. -/
theorem Expansion.shared_requeue (hf : c.focus = .compound k rest) (hc : c.Shared)
    (hcs : ∀ d ∈ cs.toList, Clause.Shared d) (hn : (t.expand k).successors rest = .ok new) :
    ∀ d ∈ ((t.expand k).requeue new cs).toList, Clause.Shared d := by
  obtain ⟨hk, hrest⟩ := Clause.shared_focus hf hc
  intro d hd
  rw [((t.expand k).toList_requeue_perm new cs).mem_iff, List.mem_append] at hd
  rcases hd with hd | hd
  · rw [successors_eq hn, List.mem_map] at hd
    obtain ⟨p, hp, rfl⟩ := hd
    exact List.forall_mem_append.2 ⟨hrest, (t.shared_expand t hk).2 p hp⟩
  · exact hcs d hd

/-! ### The work list -/

/-- A shared work list is worked off in the same way with either table. -/
theorem NormalForm.ofPending_of_shared (t t' : Table)
    (h : ∀ c ∈ pending.toList, Clause.Shared c) : ofPending t pending = ofPending t' pending := by
  induction pending using ofPending.induct t with
  | case1 pending hp => rw [ofPending_of_none hp, ofPending_of_none hp]
  | case2 pending c cs hp f hf => exact (not_fault f).elim
  | case3 pending c cs hp ls hf ih =>
    rw [Queue.toList_of_pop? hp, List.forall_mem_cons] at h
    rw [ofPending_of_some hp, ofPending_of_some hp, hf, ih h.2]
  | case4 pending c cs hp k rest hf f hn => exact (not_fault f).elim
  | case5 pending c cs hp k rest hf new hn ih =>
    rw [Queue.toList_of_pop? hp, List.forall_mem_cons] at h
    have hrow := (t.shared_expand t' (Clause.shared_focus hf h.1).1).1
    have hrest := ih (Expansion.shared_requeue hf h.1 h.2 hn)
    rw [hrow] at hn hrest
    rw [ofPending_of_some hp, ofPending_of_some hp, hf]
    simp only [hrow, hn, hrest]

/-- **Agreement of the tables**: a formula that is taken apart by common rows has the same normal
form by both tables, with the same clauses and literals in the same order. So the uniform table
keeps the meaning of such a formula. -/
theorem Formula.ofTree_uniform_eq_classical (h : f.Shared) :
    ∃ n, NormalForm.ofTree .uniform f = .ok n ∧ NormalForm.ofTree .classical f = .ok n ∧
      ∀ v : Assignment, v.Satisfies n.clauses ↔ f.eval v = true := by
  have hpending : ∀ c ∈ (Queue.singleton [f]).toList, Clause.Shared c := by
    simpa [Clause.Shared] using h
  have heq : NormalForm.ofTree .uniform f = NormalForm.ofTree .classical f := by
    rw [NormalForm.ofTree_of_not_foreign _ f.isForeign_formula,
      NormalForm.ofTree_of_not_foreign _ f.isForeign_formula,
      NormalForm.ofPending_of_shared .uniform .classical hpending]
  have hclassical := f.ofTree_eq_ok_normalForm .classical
  exact ⟨f.normalForm .classical, heq.trans hclassical, hclassical,
    fun v => satisfies_normalForm v f⟩

/-- The left side of an implication may be the negation of another implication. -/
theorem Formula.ofTree_uniform_eq_classical_imply :
    ∃ f : Formula, f = .bin .imply (.neg (.bin .imply (.atom "P") (.atom "Q")))
        (.bin .and (.atom "R") (.neg (.neg (.atom "S")))) ∧ f.Shared ∧
      ∃ n, NormalForm.ofTree .uniform f = .ok n ∧ NormalForm.ofTree .classical f = .ok n ∧
        ∀ v : Assignment, v.Satisfies n.clauses ↔ f.eval v = true :=
  have h : Shared (.bin .imply (.neg (.bin .imply (.atom "P") (.atom "Q")))
      (.bin .and (.atom "R") (.neg (.neg (.atom "S"))))) :=
    .imply (.doubleNegation (.imply (.negAtom "P") (.atom "Q")))
      (.and (.atom "R") (.doubleNegation (.atom "S")))
  ⟨_, rfl, h, ofTree_uniform_eq_classical h⟩

end PropProver
