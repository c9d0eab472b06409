import PropProver.Proofs.NormalForm.Clash
import PropProver.Proofs.NormalForm.WorkList
import PropProver.Proofs.Sequent.Leaves

/-!
# Leaves and clauses

The leaves of a search and the clauses of the normal form by the classical table are the two ways of
taking a formula apart. The rules and the rows say the same of every connective but one: an
equivalence on the left has two further branches, and those always hold
(`Formula.residue_branches`). So the leaves that are not closed are the clauses without a
complementary pair, each as often and with each literal as often, and in a formula without
equivalences all leaves are all clauses (`Formula.leaves_search_perm_clauses`).
-/

namespace PropProver

universe u

namespace Formula

/-! ### Rules and rows -/

/-- No equivalence occurs in the formula. -/
def iffFree : Formula → Bool
  | .atom _ => true
  | .neg x => iffFree x
  | .bin op l r => op != .iff && iffFree l && iffFree r

/-- Without equivalences the rules lead to the clauses that the rows give. -/
theorem branches_eq_cnf {f : Formula} (h : f.iffFree = true) (p : Bool) :
    f.branches p = f.cnf .classical p := by
  induction f generalizing p with
  | atom a => rfl
  | neg x ih => exact ih h (!p)
  | bin op l r ihl ihr =>
    rw [iffFree, Bool.and_eq_true, Bool.and_eq_true, bne_iff_ne] at h
    obtain ⟨⟨hop, hl⟩, hr⟩ := h
    cases op with
    | iff => exact absurd rfl hop
    | _ => cases p <;> simp only [branches, cnf, ihl hl, ihr hr]
  | foreign v => exact v.elim

/-- The branches of a formula on the one side joined with those on the other always hold. -/
theorem residue_branches_mul (f : Formula) : (f.branches true * f.branches false).residue = 0 := by
  rw [Cnf.residue_eq_zero_iff]
  intro v
  rw [Cnf.holds_mul, holds_branches, holds_branches]
  cases f.eval v
  · exact .inr rfl
  · exact .inl rfl

/-- The branches of an equivalence on the left are those of the row and two that always hold. -/
theorem residue_branches_iff (l r : Formula) :
    (branches false (.bin .iff l r)).residue =
      (branches true l * branches true r + branches false l * branches false r).residue := by
  have hsplit : branches false (.bin .iff l r) =
      branches true l * branches true r + branches false l * branches false r +
        (branches true l * branches false l + branches true r * branches false r) := by
    rw [branches]
    ring
  rw [hsplit, Cnf.residue_add, Cnf.residue_add _ (branches true r * _), residue_branches_mul,
    residue_branches_mul, add_zero, add_zero]

/-- The rules lead to the clauses that the rows give, apart from some with a complementary pair. -/
theorem residue_branches (f : Formula) (p : Bool) :
    (f.branches p).residue = (f.cnf .classical p).residue := by
  induction f generalizing p with
  | atom a => rfl
  | neg x ih => exact ih (!p)
  | bin op l r ihl ihr =>
    cases p with
    | true =>
      cases op with
      | and => exact Cnf.residue_add_congr (ihl true) (ihr true)
      | or => exact Cnf.residue_mul_congr (ihl true) (ihr true)
      | imply => exact Cnf.residue_mul_congr (ihl false) (ihr true)
      | iff =>
        rw [branches, mul_comm (branches false r)]
        exact Cnf.residue_add_congr (Cnf.residue_mul_congr (ihl false) (ihr true))
          (Cnf.residue_mul_congr (ihl true) (ihr false))
    | false =>
      cases op with
      | and => exact Cnf.residue_mul_congr (ihl false) (ihr false)
      | or => exact Cnf.residue_add_congr (ihl false) (ihr false)
      | imply => exact Cnf.residue_add_congr (ihl true) (ihr false)
      | iff =>
        rw [residue_branches_iff]
        exact Cnf.residue_add_congr (Cnf.residue_mul_congr (ihl true) (ihr true))
          (Cnf.residue_mul_congr (ihl false) (ihr false))
  | foreign v => exact v.elim

end Formula

/-! ### Leaves and clauses -/

/-- A literal of a sequent is an atom on the left or on the right, as its polarity says. -/
theorem Sequent.mem_literals {ι : Type u} {s : Sequent ι} {a : String} {p : Bool} :
    ⟨a, p⟩ ∈ s.literals ↔
      Tree.atom a ∈ s.antecedent ∧ p = false ∨ Tree.atom a ∈ s.succedent ∧ p = true := by
  simp only [literals, Multiset.mem_add, Multiset.mem_coe, List.mem_map, mem_names,
    Literal.mk.injEq]
  refine or_congr ?_ ?_ <;>
  · constructor
    · rintro ⟨b, hb, rfl, rfl⟩
      exact ⟨hb, rfl⟩
    · rintro ⟨ha, rfl⟩
      exact ⟨a, ha, rfl, rfl⟩

/-- A sequent is closed if its literals have a complementary pair. -/
theorem Sequent.isClosed_iff_clashes {ι : Type u} {s : Sequent ι} :
    s.isClosed = true ↔ Clashes s.literals := by
  rw [isClosed_iff]
  constructor
  · rintro ⟨a, hl, hr⟩
    exact ⟨⟨a, true⟩, mem_literals.2 (.inr ⟨hr, rfl⟩), mem_literals.2 (.inl ⟨hl, rfl⟩)⟩
  · rintro ⟨⟨a, p⟩, hl, hcomp⟩
    rw [Literal.complement, mem_literals] at hcomp
    rw [mem_literals] at hl
    cases p with
    | false => exact ⟨a, by simpa using hl, by simpa using hcomp⟩
    | true => exact ⟨a, by simpa using hcomp, by simpa using hl⟩

namespace Formula

/-- Read as clauses, the leaves of a search are the branches of the formula. -/
theorem ofClauses_leaves (f : Formula) :
    Cnf.ofClauses (f.search.trace.leaves.map (·.sequent.literals)) = f.branches true := by
  have hleaves {es : List (Trace.Entry Empty)} (h : ∀ e ∈ es, e.sequent.isAxiom = true) :
      Cnf.ofClauses (es.map (·.sequent.literals)) = Search.total Sequent.branches es := by
    induction es with
    | nil => rfl
    | cons e es ih =>
      obtain ⟨he, hes⟩ := List.forall_mem_cons.1 h
      rw [List.map_cons, Cnf.ofClauses_cons, ih hes, Search.total_cons,
        Sequent.branches_of_isAxiom he]
  rw [hleaves fun e he => f.search_unfolding.isAxiom_of_mem_leaves he, total_leaves_search]

/-- The clauses of the normal form and the leaves of the search have the same residue. -/
theorem residue_clauses (f : Formula) :
    (Cnf.ofList (f.normalForm .classical).clauses).residue =
      (Cnf.ofClauses (f.search.trace.leaves.map (·.sequent.literals))).residue := by
  rw [ofList_normalForm, ofClauses_leaves, residue_branches]

/-- **Leaves and clauses**: the leaves of a search that are not closed, read as clauses, are the
clauses of the normal form that have no complementary pair. In a formula without equivalences all
leaves are all clauses, and the closed ones are those with a complementary pair. -/
theorem leaves_search_perm_clauses (f : Formula) :
    ((f.search.trace.leaves.filter fun e => !e.sequent.isClosed).map (·.sequent.literals)).Perm
      (((f.normalForm .classical).clauses.filter fun c => ¬ Clashes (.ofList c)).map
        Multiset.ofList) ∧
    (f.iffFree = true →
      (f.search.trace.leaves.map (·.sequent.literals)).Perm
        ((f.normalForm .classical).clauses.map Multiset.ofList) ∧
      ((f.search.trace.leaves.filter (·.sequent.isClosed)).map (·.sequent.literals)).Perm
        (((f.normalForm .classical).clauses.filter fun c => Clashes (.ofList c)).map
          Multiset.ofList)) := by
  have hclosed (e : Trace.Entry Empty) :
      e.sequent.isClosed = decide (Clashes e.sequent.literals) := by
    rw [Bool.eq_iff_iff, decide_eq_true_eq, Sequent.isClosed_iff_clashes]
  simp only [hclosed, ← decide_not]
  constructor
  · have h := f.residue_clauses
    rw [Cnf.ofList, Cnf.residue_ofClauses, Cnf.residue_ofClauses, Cnf.ofClauses_eq_iff,
      List.filter_map, List.filter_map] at h
    exact h.symm
  · intro hf
    have hall : (f.search.trace.leaves.map (·.sequent.literals)).Perm
        ((f.normalForm .classical).clauses.map Multiset.ofList) := by
      rw [← Cnf.ofClauses_eq_iff, ofClauses_leaves, branches_eq_cnf hf, ← ofList_normalForm]
      rfl
    have hclash := hall.filter fun c => decide (Clashes c)
    rw [List.filter_map, List.filter_map] at hclash
    exact ⟨hall, hclash⟩

end Formula

end PropProver
