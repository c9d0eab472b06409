import Mathlib.Tactic.Ring.RingNF
import PropProver.Proofs.NormalForm.Cnf

/-!
# Clauses with a complementary pair

A clause with a literal and its complement holds under every assignment, and no other clause does
(`clashes_iff`). What is left of a conjunction without such clauses is its residue. The residue of
a sum or of a product depends on the residues of its parts only (`Cnf.residue_add_congr`,
`Cnf.residue_mul_congr`), since a clause that is joined with another keeps its complementary pairs.
-/

namespace PropProver

/-- The clause has a literal and its complement. -/
def Clashes (c : Multiset Literal) : Prop := ∃ l ∈ c, l.complement ∈ c

instance : DecidablePred Clashes := fun _ =>
  Multiset.decidableExistsMultiset

theorem Clashes.mono {c d : Multiset Literal} (h : Clashes c) (hcd : c ⊆ d) : Clashes d := by
  obtain ⟨l, hl, hcomp⟩ := h
  exact ⟨l, hcd hl, hcd hcomp⟩

/-- A clause has a complementary pair exactly if it holds under every assignment. -/
theorem clashes_iff {c : Multiset Literal} :
    Clashes c ↔ ∀ v : Assignment, ∃ l ∈ c, l.eval v = true := by
  constructor
  · rintro ⟨l, hl, hcomp⟩ v
    cases hv : l.eval v with
    | true => exact ⟨l, hl, hv⟩
    | false =>
      refine ⟨l.complement, hcomp, ?_⟩
      rw [Literal.eval_complement, hv]
      rfl
  · intro h
    -- Make the atoms true that stand negatively: only a positive literal can then hold.
    obtain ⟨⟨a, p⟩, hl, hv⟩ := h fun a => decide (⟨a, false⟩ ∈ c)
    rw [Literal.eval, beq_iff_eq] at hv
    cases p with
    | true => exact ⟨_, hl, of_decide_eq_true hv⟩
    | false => exact absurd hl (of_decide_eq_false hv)

namespace Cnf

/-- The clauses without a complementary pair. -/
def residue (C : Cnf) : Cnf := Multiset.filter (fun c => ¬ Clashes c) C

theorem residue_ofClauses (cs : List (Multiset Literal)) :
    (ofClauses cs).residue = ofClauses (cs.filter fun c => ¬ Clashes c) :=
  Multiset.filter_coe ..

theorem residue_add (C D : Cnf) : (C + D).residue = C.residue + D.residue :=
  Multiset.filter_add ..

theorem residue_eq_zero_iff {C : Cnf} : C.residue = 0 ↔ ∀ v, C.Holds v := by
  have hfilter : C.residue = 0 ↔ ∀ c ∈ C, ¬ ¬ Clashes c := Multiset.filter_eq_nil
  simp only [hfilter, not_not, clashes_iff]
  exact ⟨fun h v c hc => h c hc v, fun h c hc v => h v c hc⟩

/-- A conjunction is its residue and clauses that always hold. -/
theorem exists_eq_residue_add (C : Cnf) : ∃ T : Cnf, T.residue = 0 ∧ C = C.residue + T := by
  refine ⟨Multiset.filter (fun c => ¬ ¬ Clashes c) C, ?_, (Multiset.filter_add_not _ _).symm⟩
  exact Multiset.filter_eq_nil.2 fun c hc => (Multiset.mem_filter.1 hc).2

/-- The residue of a product depends on the residues of its factors only. -/
theorem residue_mul (C D : Cnf) : (C * D).residue = (C.residue * D.residue).residue := by
  obtain ⟨T, hT, hC⟩ := C.exists_eq_residue_add
  obtain ⟨U, hU, hD⟩ := D.exists_eq_residue_add
  have hzero {X Y : Cnf} (hX : X.residue = 0) : (X * Y).residue = 0 := by
    rw [residue_eq_zero_iff] at hX ⊢
    exact fun v => holds_mul.2 (.inl (hX v))
  have hsplit : C * D = C.residue * D.residue + (T * D + U * C.residue) := by
    calc C * D = (C.residue + T) * D := by rw [← hC]
      _ = C.residue * D + T * D := add_mul ..
      _ = C.residue * (D.residue + U) + T * D := by rw [← hD]
      _ = C.residue * D.residue + (T * D + U * C.residue) := by ring
  rw [hsplit, residue_add, residue_add, hzero hT, hzero hU, add_zero, add_zero]

theorem residue_add_congr {C C' D D' : Cnf} (hC : C.residue = C'.residue)
    (hD : D.residue = D'.residue) : (C + D).residue = (C' + D').residue := by
  rw [residue_add, residue_add, hC, hD]

theorem residue_mul_congr {C C' D D' : Cnf} (hC : C.residue = C'.residue)
    (hD : D.residue = D'.residue) : (C * D).residue = (C' * D').residue := by
  rw [residue_mul, hC, hD, ← residue_mul]

end Cnf

end PropProver
