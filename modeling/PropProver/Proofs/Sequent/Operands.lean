import PropProver.Proofs.Formula.Operands
import PropProver.Proofs.Sequent.Branches
import PropProver.Sequent.Search

/-!
# Sequents that hold foreign values

A sequent is well formed if nothing on its sides is malformed. No rule leaves an operand out, so the
premises of an expansion are well formed together if the sequent is
(`Sequent.wellFormed_expandFormula`). The search looks at the premises when it writes them, and so
it infers something, or finds an axiom, exactly at the well-formed sequents
(`Search.exists_infer_iff`).
-/

namespace PropProver

universe u

variable {ι : Type u}

namespace Sequent

/-- No formula on either side is malformed. -/
def WellFormed (s : Sequent ι) : Prop :=
  Tree.WellFormed s.antecedent ∧ Tree.WellFormed s.succedent

theorem wellFormed_add {s : Sequent ι} {side : Side} {xs : List (Tree ι)} :
    (s.add side xs).WellFormed ↔ s.WellFormed ∧ Tree.WellFormed xs := by
  cases side <;> simp only [add, replace, on, WellFormed, Tree.wellFormed_append] <;> tauto

theorem wellFormed_remove {s : Sequent ι} {side : Side} {n : Nat} {x : Tree ι}
    (h : (s.on side)[n]? = some x) :
    s.WellFormed ↔ (s.remove side n).WellFormed ∧ ¬ x.Malformed := by
  obtain ⟨hn, rfl⟩ := List.getElem?_eq_some_iff.1 h
  have hperm := Tree.wellFormed_of_perm (List.getElem_cons_eraseIdx_perm hn)
  rw [Tree.wellFormed_cons] at hperm
  cases side <;>
    simp only [remove, replace, Position.remove_ofNat, WellFormed, on] at hperm ⊢ <;>
    tauto

/-- No rule leaves an operand of its formula out. -/
theorem wellFormed_expandFormula {rest : Sequent ι} {side : Side} {x : Tree ι}
    {inference : Inference ι} (h : rest.expandFormula side x = some inference) :
    (∀ p ∈ inference.premises, p.WellFormed) ↔ rest.WellFormed ∧ ¬ x.Malformed := by
  cases side <;> simp only [expandFormula] at h
  · unfold expandLeft at h
    split at h <;> cases h <;> simp [Inference.premises, wellFormed_add] <;> tauto
  · unfold expandRight at h
    split at h <;> cases h <;> simp [Inference.premises, wellFormed_add] <;> tauto

theorem wellFormed_expand {s : Sequent ι} {side : Side} {n : Nat} {inference : Inference ι}
    (h : s.expand side n = .ok inference) :
    (∀ p ∈ inference.premises, p.WellFormed) ↔ s.WellFormed := by
  obtain ⟨x, hx, hi⟩ := expand_eq_ok_iff.1 h
  rw [wellFormed_expandFormula hi, wellFormed_remove hx]

theorem wellFormed_of_isAxiom {s : Sequent ι} (h : s.isAxiom = true) : s.WellFormed := by
  obtain ⟨hl, hr⟩ := isAxiom_iff.1 h
  have hatoms {xs : List (Tree ι)} (hxs : ∀ x ∈ xs, ∃ a, x = .atom a) : Tree.WellFormed xs := by
    intro x hx
    obtain ⟨a, rfl⟩ := hxs x hx
    exact Tree.not_malformed_atom a
  exact ⟨hatoms hl, hatoms hr⟩

/-- A sequent is read as one of formulas if it is well formed. -/
theorem exists_check_iff {s : Sequent ι} : (∃ t, s.check = .ok t) ↔ s.WellFormed := by
  rw [WellFormed, ← Tree.exists_mapM_check_iff, ← Tree.exists_mapM_check_iff, check]
  cases s.antecedent.mapM Tree.check <;> cases s.succedent.mapM Tree.check <;>
    simp [bind, Except.bind, pure, Except.pure]

/-- A sequent of formulas is well formed. -/
theorem wellFormed (s : Sequent Empty) : s.WellFormed :=
  ⟨fun f _ => Formula.not_malformed f, fun f _ => Formula.not_malformed f⟩

end Sequent

namespace Search

open Sequent

/-- The premises of an expansion are written out, which fails if one of them is not well formed. -/
theorem infer_of_expand {s : Sequent ι} {side : Side} {n : Nat} {inference : Inference ι}
    (hs : s.select = some (side, n)) (he : s.expand side n = .ok inference) :
    infer s = ((inference.premises.mapM Sequent.check).mapError Error.foreign).map fun _ =>
      some inference := by
  simp only [infer, hs, he]
  cases inference.premises.mapM Sequent.check <;> rfl

theorem infer_of_wellFormed {s : Sequent ι} (h : s.WellFormed) : infer s = .ok s.inference? := by
  cases hs : s.select with
  | none =>
    rw [inference?_of_select_eq_none hs, infer, hs]
  | some place =>
    obtain ⟨side, n⟩ := place
    obtain ⟨x, hx, hatom⟩ := exists_of_select hs
    have hforeign := Tree.isForeign_eq_false ((wellFormed_remove hx).1 h).2
    obtain ⟨inference, hi⟩ :=
      exists_expandFormula_of_not_foreign (s.remove side n) side hatom hforeign
    have he := expand_eq_ok_iff.2 ⟨x, hx, hi⟩
    obtain ⟨ps, hps⟩ := exists_mapM_iff.2 fun p hp =>
      exists_check_iff.2 ((wellFormed_expand he).2 h p hp)
    rw [infer_of_expand hs he, hps, inference?_eq_some_iff.2 ⟨side, n, hs, he⟩]
    rfl

/-- An expansion with a premise that is not well formed fails when this premise is written. -/
theorem infer_of_not_wellFormed {s : Sequent ι} {side : Side} {n : Nat} {inference : Inference ι}
    (hs : s.select = some (side, n)) (he : s.expand side n = .ok inference)
    (h : ¬ s.WellFormed) : ∃ v, infer s = .error (.foreign v) := by
  rw [infer_of_expand hs he]
  cases hps : inference.premises.mapM Sequent.check with
  | error v => exact ⟨v, rfl⟩
  | ok ps =>
    refine absurd ((wellFormed_expand he).1 fun p hp => ?_) h
    exact exists_check_iff.1 (exists_mapM_iff.1 ⟨ps, hps⟩ p hp)

/-- The search comes past a sequent exactly if it is well formed. -/
theorem exists_infer_iff {s : Sequent ι} : (∃ i, infer s = .ok i) ↔ s.WellFormed := by
  constructor
  · rintro ⟨i, hi⟩
    by_contra h
    cases hs : s.select with
    | none => exact h (wellFormed_of_isAxiom (select_eq_none_iff.1 hs))
    | some place =>
      obtain ⟨side, n⟩ := place
      cases he : s.expand side n with
      | error e => simp [infer, hs, he] at hi
      | ok inference =>
        obtain ⟨v, hv⟩ := infer_of_not_wellFormed hs he h
        rw [hv] at hi
        cases hi
  · exact fun h => ⟨_, infer_of_wellFormed h⟩

/-- What the search makes is well formed. -/
theorem wellFormed_of_infer {s : Sequent ι} {inference : Inference ι}
    (h : infer s = .ok (some inference)) : ∀ p ∈ inference.premises, p.WellFormed := by
  obtain ⟨side, n, -, he⟩ := inference?_eq_some_iff.1 (inference?_of_infer h)
  exact (wellFormed_expand he).2 (exists_infer_iff.1 ⟨_, h⟩)

end Search

end PropProver
