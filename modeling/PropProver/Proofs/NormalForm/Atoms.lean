import PropProver.Proofs.NormalForm.WorkList

/-!
# What a normal form keeps

No row of a table leaves a part of its formula out, and none leaves a clause empty. So a formula has
at least one clause, each of them has at least one literal (`Formula.proper_cnf`), and the atoms of
the clauses are those of the formula (`Formula.mentions_cnf`). Both hold of either table.

With the classical table the normal form is equivalent to the formula as well
(`Formula.ofTree_classical`).
-/

namespace PropProver

universe u

/-! ### Atoms of conjunctions -/

namespace Cnf

/-- There is a clause, and no clause is empty. -/
structure Proper (C : Cnf) : Prop where
  /-- Some clause is there. -/
  exists_mem : ∃ c, c ∈ C
  /-- Every clause has a literal. -/
  ne_zero : ∀ c ∈ C, c ≠ 0

theorem Proper.single {l : Literal} : (single {l}).Proper where
  exists_mem := ⟨_, mem_single.2 rfl⟩
  ne_zero c hc := by
    rw [mem_single.1 hc]
    exact Multiset.singleton_ne_zero l

theorem Proper.add {C D : Cnf} (hC : C.Proper) (hD : D.Proper) : (C + D).Proper where
  exists_mem := by
    obtain ⟨c, hc⟩ := hC.exists_mem
    exact ⟨c, mem_add.2 (.inl hc)⟩
  ne_zero c hc := (mem_add.1 hc).elim (hC.ne_zero c) (hD.ne_zero c)

theorem Proper.mul {C D : Cnf} (hC : C.Proper) (hD : D.Proper) : (C * D).Proper where
  exists_mem := by
    obtain ⟨c, hc⟩ := hC.exists_mem
    obtain ⟨d, hd⟩ := hD.exists_mem
    exact ⟨c + d, mem_mul.2 ⟨c, hc, d, hd, rfl⟩⟩
  ne_zero e he := by
    obtain ⟨c, hc, d, -, rfl⟩ := mem_mul.1 he
    obtain ⟨l, hl⟩ := Multiset.exists_mem_of_ne_zero (hC.ne_zero c hc)
    intro h
    exact Multiset.notMem_zero l (h ▸ Multiset.mem_add.2 (.inl hl))

/-- Some clause has a literal of the atom. -/
def Mentions (C : Cnf) (a : String) : Prop := ∃ c ∈ C, ∃ l ∈ c, l.atom = a

variable {a : String}

theorem mentions_single {l : Literal} : (single {l}).Mentions a ↔ a = l.atom := by
  simp [Mentions, eq_comm]

theorem mentions_add {C D : Cnf} : (C + D).Mentions a ↔ C.Mentions a ∨ D.Mentions a := by
  simp only [Mentions, mem_add, or_and_right, exists_or]

/-- Joining clauses loses no atom as long as there are clauses to join with. -/
theorem mentions_mul {C D : Cnf} (hC : C.Proper) (hD : D.Proper) :
    (C * D).Mentions a ↔ C.Mentions a ∨ D.Mentions a := by
  constructor
  · rintro ⟨e, he, l, hl, hla⟩
    obtain ⟨c, hc, d, hd, rfl⟩ := mem_mul.1 he
    rcases Multiset.mem_add.1 hl with hl | hl
    · exact .inl ⟨c, hc, l, hl, hla⟩
    · exact .inr ⟨d, hd, l, hl, hla⟩
  · rintro (⟨c, hc, l, hl, hla⟩ | ⟨d, hd, l, hl, hla⟩)
    · obtain ⟨d, hd⟩ := hD.exists_mem
      exact ⟨c + d, mem_mul.2 ⟨c, hc, d, hd, rfl⟩, l, Multiset.mem_add.2 (.inl hl), hla⟩
    · obtain ⟨c, hc⟩ := hC.exists_mem
      exact ⟨c + d, mem_mul.2 ⟨c, hc, d, hd, rfl⟩, l, Multiset.mem_add.2 (.inr hl), hla⟩

end Cnf

/-! ### The rows of the tables -/

namespace Formula

/-- Every row of both tables is a sum or a product of sums and products of the parts. -/
theorem proper_cnf (t : Table) (f : Formula) (p : Bool) : (f.cnf t p).Proper := by
  induction f generalizing p with
  | atom a => exact .single
  | neg x ih => exact ih (!p)
  | bin op l r ihl ihr =>
    cases p <;> cases op <;> cases t <;>
      simp only [cnf, Cnf.Proper.add, Cnf.Proper.mul, ihl, ihr]
  | foreign v => exact v.elim

/-- The atoms of the clauses are those of the formula. -/
theorem mentions_cnf (t : Table) (f : Formula) (p : Bool) (a : String) :
    (f.cnf t p).Mentions a ↔ a ∈ f.names := by
  induction f generalizing p with
  | atom b =>
    rw [cnf, Cnf.mentions_single, Tree.names, List.mem_singleton]
  | neg x ih => exact ih (!p)
  | bin op l r ihl ihr =>
    have hmul (q s : Bool) :
        (cnf t q l * cnf t s r).Mentions a ↔ a ∈ l.names ∨ a ∈ r.names := by
      rw [Cnf.mentions_mul (proper_cnf t l q) (proper_cnf t r s), ihl, ihr]
    rw [Tree.names, List.mem_append]
    cases p <;> cases op <;> cases t <;>
      simp only [cnf, Cnf.mentions_add, hmul, ihl, ihr, or_self]
  | foreign v => exact v.elim

end Formula

/-! ### The normal form -/

/-- The clauses of a normal form as lists of formulas. -/
def NormalForm.formulas {ι : Type u} (n : NormalForm ι) : ClauseSet ι :=
  n.clauses.map fun c => c.map Literal.toTree

namespace Formula

/-- A clause of literals is normal, and true where one of the literals is. -/
theorem exists_eval_toTree_iff {v : Assignment} {c : List Literal} :
    (∃ x ∈ c.map Literal.toTree, Formula.eval v x = true) ↔ ∃ l ∈ c, l.eval v = true := by
  have hlit (l : Literal) : Formula.eval v l.toTree = l.eval v := by
    obtain ⟨a, p⟩ := l
    cases p <;> simp [Literal.toTree, Literal.eval, eval]
  simp [hlit]

theorem isNormal_map_toTree (c : List Literal) :
    Clause.isNormal (c.map Literal.toTree : Clause Empty) = true := by
  simp [Clause.isNormal, Tree.isLiteral]

/-- No clause of the normal form is empty. -/
theorem ne_nil_of_mem_normalForm (t : Table) (f : Formula) {c : List Literal}
    (hc : c ∈ (f.normalForm t).clauses) : c ≠ [] := by
  have hmem : Multiset.ofList c ∈ f.cnf t true := by
    rw [← ofList_normalForm]
    exact Cnf.mem_ofList.2 ⟨c, hc, rfl⟩
  rintro rfl
  exact (f.proper_cnf t true).ne_zero _ hmem rfl

/-- The atoms of the normal form are those of the formula. -/
theorem mem_atoms_normalForm (t : Table) (f : Formula) (a : String) :
    a ∈ ClauseSet.atoms (f.normalForm t).formulas ↔ a ∈ f.atoms := by
  have hnames (l : Literal) : a ∈ (l.toTree : Formula).names ↔ l.atom = a := by
    obtain ⟨b, p⟩ := l
    cases p <;> simp [Literal.toTree, Tree.names, eq_comm]
  rw [Tree.atoms, List.mem_eraseDups, ← mentions_cnf t f true, ← ofList_normalForm]
  simp [ClauseSet.atoms, NormalForm.formulas, Cnf.Mentions, hnames, and_assoc]

/-- **Normal form**: every formula has a normal form by the classical table. It is true where the
formula is, its clauses have literals only and at least one of them, and its atoms are those of the
formula. -/
theorem ofTree_classical (f : Formula) :
    ∃ n, NormalForm.ofTree .classical f = .ok n ∧
      (∀ v, f.eval v = true ↔ ∀ c ∈ n.formulas, ∃ x ∈ c, Formula.eval v x = true) ∧
      (∀ c ∈ n.formulas, c ≠ [] ∧ Clause.isNormal c = true) ∧
      ∀ a, a ∈ ClauseSet.atoms n.formulas ↔ a ∈ f.atoms := by
  refine ⟨f.normalForm .classical, ofTree_eq_ok_normalForm .classical f, fun v => ?_,
    fun c hc => ?_, f.mem_atoms_normalForm .classical⟩
  · rw [← satisfies_normalForm]
    simp only [NormalForm.formulas, List.forall_mem_map, exists_eval_toTree_iff]
    rfl
  · obtain ⟨ls, hls, rfl⟩ := List.mem_map.1 hc
    exact ⟨fun h => f.ne_nil_of_mem_normalForm .classical hls (List.map_eq_nil_iff.1 h),
      isNormal_map_toTree ls⟩

end Formula

end PropProver
