import PropProver.Proofs.NormalForm.WorkList
import PropProver.Proofs.Saturation.Verdict

/-!
# Refutation decides validity

A formula is valid if no assignment satisfies the normal form of its negation
(`Formula.valid_iff_not_satisfiable`). Saturation finds that out
(`Formula.exists_refute_saturation`), so refutation with the classical table always comes to a
verdict, and the verdict is right (`Formula.refute_saturation_classical`).
-/

namespace PropProver

namespace Formula

/-- Refutation is the strategy on the normal form of the negation. -/
theorem refute_eq_map (s : Strategy) (t : Table) (limit : Option Int) (f : Formula) :
    f.refute s t limit =
      (⟨s, t, normalForm t (.neg f), ·⟩) <$> s.run limit (normalForm t (.neg f)).clauses := by
  have hof : Refutation.ofTree s t limit f =
      match s.run limit (normalForm t (.neg f)).clauses with
      | .ok o => .ok ⟨s, t, normalForm t (.neg f), o⟩
      | .error e => .error (.limit e) := by
    unfold Refutation.ofTree
    split
    · next v => exact v.elim
    · rw [ofTree_eq_ok_normalForm]
      dsimp only
      cases s.run limit (normalForm t (.neg f)).clauses <;> rfl
  rw [refute, hof]
  cases s.run limit (normalForm t (.neg f)).clauses <;> rfl

theorem refute_eq_ok_iff {s : Strategy} {t : Table} {limit : Option Int} {f : Formula}
    {r : Refutation Empty} :
    f.refute s t limit = .ok r ↔ ∃ o, s.run limit (normalForm t (.neg f)).clauses = .ok o ∧
      ⟨s, t, normalForm t (.neg f), o⟩ = r := by
  rw [refute_eq_map]
  cases s.run limit (normalForm t (.neg f)).clauses <;> simp [Functor.map, Except.map]

/-- A formula is valid exactly if the clauses of its negation contradict each other. -/
theorem valid_iff_not_satisfiable (f : Formula) :
    f.Valid ↔ ¬ ∃ v : Assignment, v.Satisfies (normalForm .classical (.neg f)).clauses := by
  have hneg (v : Assignment) :
      v.Satisfies (normalForm .classical (.neg f)).clauses ↔ ¬ f.eval v = true := by
    rw [satisfies_normalForm, eval, Bool.not_eq_true', Bool.not_eq_true]
  constructor
  · rintro hvalid ⟨v, hv⟩
    exact (hneg v).1 hv (hvalid v)
  · intro hnone v
    by_contra hv
    exact hnone ⟨v, (hneg v).2 hv⟩

/-- Saturation decides whether the clauses of the negation contradict each other. -/
theorem exists_refute_saturation (t : Table) (f : Formula) :
    ∃ r, f.refute .saturation t none = .ok r ∧
      (r.isTheorem = true ↔
        ¬ ∃ v : Assignment, v.Satisfies (normalForm t (.neg f)).clauses) := by
  obtain ⟨o, hends, hrun⟩ :=
    Strategy.exists_run_saturation (normalForm t (.neg f)).clauses
  have hunsat := hends.verdict.1
  simp only [LiteralSet.forall_holds_map_ofList] at hunsat
  exact ⟨_, refute_eq_ok_iff.2 ⟨_, hrun, rfl⟩, hunsat⟩

/-- **Refutation decides validity**: saturation with the classical table and no limit comes to a
verdict on every formula, and it calls a formula a theorem exactly if the formula is valid. -/
theorem refute_saturation_classical (f : Formula) :
    ∃ r, f.refute .saturation .classical none = .ok r ∧ (r.isTheorem = true ↔ f.Valid) := by
  obtain ⟨r, hr, htheorem⟩ := f.exists_refute_saturation .classical
  refine ⟨r, hr, ?_⟩
  rw [htheorem, valid_iff_not_satisfiable]

end Formula

end PropProver
