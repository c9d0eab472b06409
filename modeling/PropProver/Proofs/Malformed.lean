import PropProver.Proofs.NormalForm.Operands
import PropProver.Proofs.Refutation
import PropProver.Proofs.Sequent.Derivation
import PropProver.Value.Complaint

/-!
# Trees that are no formulas

No tree is looked through before the work on it begins. The root is checked, and what stands below
it is met when the work comes there: when a part enters a clause, when a negation is expanded, or
when a premise is written. Since no rule and no row of a table leaves an operand out, this is
enough. The normal form, the refutation and the search exist exactly for the trees that are not
malformed (`Tree.malformed_refused`).
-/

namespace PropProver

universe u

variable {ι : Type u}

/-- How something that is asked of a tree ends. There is a result exactly if the tree is not
malformed. One error tells that the tree itself is no formula, and others tell that it is one at its
root but holds something that is none. -/
structure Tree.CheckedBy {ε α : Type*} (x : Tree ι) (result : Except ε α) (notFormula : ι → ε)
    (Fault : ε → Prop) : Prop where
  exists_ok_iff : (∃ a, result = .ok a) ↔ ¬ x.Malformed
  notFormula_iff : ∀ v, result = .error (notFormula v) ↔ x = .foreign v
  fault_iff : (∃ e, result = .error e ∧ Fault e) ↔ x.isForeign = false ∧ x.Malformed

namespace Tree

/-- A tree is foreign, or malformed below its root, or a formula all through. -/
theorem CheckedBy.of_cases {ε α : Type*} {x : Tree ι} {result : Except ε α} {notFormula : ι → ε}
    {Fault : ε → Prop} (hinj : ∀ v w, notFormula v = notFormula w → v = w)
    (hdisjoint : ∀ v, ¬ Fault (notFormula v))
    (hforeign : ∀ v, x = .foreign v → result = .error (notFormula v))
    (hfault : x.isForeign = false → x.Malformed → ∃ e, result = .error e ∧ Fault e)
    (hok : ¬ x.Malformed → ∃ a, result = .ok a) : x.CheckedBy result notFormula Fault := by
  by_cases hx : x.isForeign = true
  · obtain ⟨w, rfl⟩ := isForeign_iff.1 hx
    rw [hforeign w rfl]
    refine ⟨by simp, fun v => ?_, ?_⟩
    · rw [Except.error.injEq, foreign.injEq]
      exact ⟨hinj w v, fun h => by rw [h]⟩
    · simp [isForeign, hdisjoint]
  · have hroot : ∀ v, x ≠ .foreign v := fun v h => hx (isForeign_iff.2 ⟨v, h⟩)
    rw [Bool.not_eq_true] at hx
    by_cases hm : x.Malformed
    · obtain ⟨e, rfl, he⟩ := hfault hx hm
      refine ⟨by simp [hm], fun v => ?_, ?_⟩
      · rw [Except.error.injEq]
        exact ⟨fun h => absurd (h ▸ he) (hdisjoint v), fun h => absurd h (hroot v)⟩
      · simp [hx, hm, he]
    · obtain ⟨a, rfl⟩ := hok hm
      exact ⟨by simp [hm], fun v => by simp [hroot v], by simp [hm]⟩

end Tree

/-! ### Normal forms -/

namespace NormalForm

theorem exists_ofPending_singleton_iff {t : Table} {x : Tree ι} :
    (∃ n, ofPending t (.singleton [x]) = .ok n) ↔ ¬ x.Malformed := by
  rw [exists_ofPending_iff, Queue.toList_singleton]
  simp

theorem checkedBy_ofTree (t : Table) (x : Tree ι) :
    x.CheckedBy (ofTree t x) .notFormula fun e => ∃ f, e = .fault f := by
  refine .of_cases (fun v w h => Error.notFormula.inj h) (by simp) ?_ (fun hx hm => ?_) fun hm => ?_
  · rintro v rfl
    rfl
  · rw [ofTree_of_not_foreign t hx]
    cases hn : ofPending t (.singleton [x]) with
    | error f => exact ⟨.fault f, rfl, f, rfl⟩
    | ok n => exact absurd hm (exists_ofPending_singleton_iff.1 ⟨n, hn⟩)
  · obtain ⟨n, hn⟩ := exists_ofPending_singleton_iff.2 hm
    refine ⟨n, ?_⟩
    rw [ofTree_of_not_foreign t (Tree.isForeign_eq_false hm), hn]
    rfl

end NormalForm

/-! ### Refutations -/

/-- Without a limit both strategies come to a verdict. -/
theorem Strategy.exists_run_none (s : Strategy) (cs : List (List Literal)) :
    ∃ o, s.run none cs = .ok o := by
  cases s with
  | saturation =>
    obtain ⟨o, -, hrun⟩ := exists_run_saturation cs
    exact ⟨_, hrun⟩
  | cancellation => exact ⟨_, rfl⟩

namespace Refutation

theorem ofTree_of_not_foreign (s : Strategy) (t : Table) (limit : Option Int) {x : Tree ι}
    (h : x.isForeign = false) :
    ofTree s t limit x =
      match NormalForm.ofTree t (.neg x) with
      | .error e => .error (.normalForm e)
      | .ok n =>
        match s.run limit n.clauses with
        | .error e => .error (.limit e)
        | .ok o => .ok ⟨s, t, n, o⟩ := by
  cases x with
  | foreign v => cases h
  | _ => rfl

theorem checkedBy_ofTree (s : Strategy) (t : Table) (x : Tree ι) :
    x.CheckedBy (ofTree s t none x) (fun v => .normalForm (.notFormula v))
      fun e => ∃ f, e = .normalForm (.fault f) := by
  have hneg := NormalForm.checkedBy_ofTree t (.neg x)
  refine .of_cases (by simp) (by simp) ?_ (fun hx hm => ?_) fun hm => ?_
  · rintro v rfl
    rfl
  · obtain ⟨e, he, f, rfl⟩ := hneg.fault_iff.2 ⟨rfl, Tree.malformed_neg.2 hm⟩
    rw [ofTree_of_not_foreign s t none hx, he]
    exact ⟨_, rfl, f, rfl⟩
  · obtain ⟨n, hn⟩ := hneg.exists_ok_iff.2 (by rwa [Tree.malformed_neg])
    obtain ⟨o, ho⟩ := s.exists_run_none n.clauses
    refine ⟨⟨s, t, n, o⟩, ?_⟩
    rw [ofTree_of_not_foreign s t none (Tree.isForeign_eq_false hm), hn]
    simp only [ho]

end Refutation

/-! ### Searches -/

namespace Search

open Sequent

/-- A queue is worked off exactly if all its sequents are well formed. -/
theorem exists_fromQueue_iff {q : Queue (Open ι)} {r : Result ι} :
    (∃ r', fromQueue q r = .ok r') ↔ ∀ o ∈ q.toList, o.sequent.WellFormed := by
  induction q, r using fromQueue.induct with
  | case1 q r hq =>
    rw [fromQueue_of_none hq, Queue.pop?_eq_none_iff.1 hq]
    simp
  | case2 q r o rest hq e hi =>
    have ho : ¬ o.sequent.WellFormed := by
      rw [← exists_infer_iff, hi]
      simp
    rw [fromQueue_of_some hq, hi, Queue.toList_of_pop? hq, List.forall_mem_cons]
    simp [ho]
  | case3 q r o rest hq hi ih =>
    rw [fromQueue_of_some hq, hi, ih, Queue.toList_of_pop? hq, List.forall_mem_cons,
      and_iff_right (exists_infer_iff.1 ⟨_, hi⟩)]
  | case4 q r o rest hq rule p hi i ih =>
    have hp : p.WellFormed := wellFormed_of_infer hi p (by simp [Inference.premises])
    rw [fromQueue_of_some hq, hi, ih, Queue.toList_of_pop? hq, List.forall_mem_cons,
      and_iff_right (exists_infer_iff.1 ⟨_, hi⟩), Queue.toList_prepend]
    simp [hp]
  | case5 q r o rest hq rule p p' hi i ih =>
    have hp : p.WellFormed := wellFormed_of_infer hi p (by simp [Inference.premises])
    have hp' : p'.WellFormed := wellFormed_of_infer hi p' (by simp [Inference.premises])
    rw [fromQueue_of_some hq, hi, ih, Queue.toList_of_pop? hq, List.forall_mem_cons,
      and_iff_right (exists_infer_iff.1 ⟨_, hi⟩), Queue.toList_append]
    simp [or_imp, forall_and, hp, hp']

theorem wellFormed_goal_iff {x : Tree ι} : WellFormed ⟨[], [x]⟩ ↔ ¬ x.Malformed := by
  simp [WellFormed]

/-- A tree that is malformed below its root is met when the first premises are written. -/
theorem exists_ofTree_eq_foreign {x : Tree ι} (hx : x.isForeign = false) (hm : x.Malformed) :
    ∃ v, ofTree x = .error (.foreign v) := by
  have hatom : x.isAtom = false := by
    cases x with
    | atom a => exact absurd hm (Tree.not_malformed_atom a)
    | _ => rfl
  have hs : select ⟨[], [x]⟩ = some (.right, 0) := by
    simp [select, hatom]
  obtain ⟨inference, hi⟩ := exists_expandFormula_of_not_foreign
    (remove ⟨[], [x]⟩ .right (0 : Nat)) .right hatom hx
  obtain ⟨v, hv⟩ := infer_of_not_wellFormed hs (expand_eq_ok_iff.2 ⟨x, rfl, hi⟩) fun h =>
    wellFormed_goal_iff.1 h hm
  refine ⟨v, ?_⟩
  rw [ofTree_of_not_foreign hx, fromQueue_of_some rfl]
  simp only [hv]

theorem checkedBy_ofTree (x : Tree ι) :
    x.CheckedBy (ofTree x) .notFormula fun e => ∃ v, e = .foreign v := by
  refine .of_cases (fun v w h => Error.notFormula.inj h) (by simp) ?_ (fun hx hm => ?_) fun hm => ?_
  · rintro v rfl
    rfl
  · obtain ⟨v, hv⟩ := exists_ofTree_eq_foreign hx hm
    exact ⟨_, hv, v, rfl⟩
  · rw [ofTree_of_not_foreign (Tree.isForeign_eq_false hm), exists_fromQueue_iff]
    simpa using wellFormed_goal_iff.2 hm

end Search

/-! ### Complaints -/

theorem Fault.kind_complaint (f : Fault Value) : f.complaint.kind = .type := by
  cases f <;> rfl

/-- A member of a clause that is no literal is of the right type exactly if it is a formula. -/
theorem Clause.kind_notLiteral_iff {t : Tree Value} :
    (Clause.notLiteral t).kind = .value ↔ ¬ t.Malformed := by
  rw [← Tree.exists_check_iff, Clause.notLiteral]
  cases t.check <;> simp [Complaint.noFormula]

/-- What is no formula at all is complained about in the same way by the normal form and by the
search. What only holds something that is no formula is of the wrong type for either, although the
two may come to different places of it. -/
theorem Tree.complaints {x : Tree Value} {t : Table} {e : NormalForm.Error Value}
    {e' : Search.Error Value} (hn : NormalForm.ofTree t x = .error e)
    (hs : Search.ofTree x = .error e') :
    (x.isForeign = true → e.complaint = e'.complaint) ∧
    (x.isForeign = false → e.complaint.kind = .type ∧ e'.complaint.kind = .type) := by
  refine ⟨fun hx => ?_, fun hx => ?_⟩
  · obtain ⟨v, rfl⟩ := isForeign_iff.1 hx
    cases hn
    cases hs
    rfl
  · have hm : x.Malformed := by
      by_contra hm
      obtain ⟨r, hr⟩ := (Search.checkedBy_ofTree x).exists_ok_iff.2 hm
      rw [hr] at hs
      cases hs
    obtain ⟨_, he, f, rfl⟩ := (NormalForm.checkedBy_ofTree t x).fault_iff.2 ⟨hx, hm⟩
    obtain ⟨_, he', v, rfl⟩ := (Search.checkedBy_ofTree x).fault_iff.2 ⟨hx, hm⟩
    rw [hn] at he
    rw [hs] at he'
    cases he
    cases he'
    exact ⟨f.kind_complaint, rfl⟩

/-- **Malformed trees are refused**: with either table, either strategy and no limit, a tree has a
normal form, a refutation and a search exactly if it reaches no foreign value through its operands.
If the tree itself is foreign, the error tells that it is no formula. If only something below is,
there is an error too, and it tells of a foreign value in the place of an operand. -/
theorem Tree.malformed_refused (x : Tree ι) (t : Table) (s : Strategy) :
    x.CheckedBy (NormalForm.ofTree t x) .notFormula (fun e => ∃ f, e = .fault f) ∧
    x.CheckedBy (Refutation.ofTree s t none x) (fun v => .normalForm (.notFormula v))
      (fun e => ∃ f, e = .normalForm (.fault f)) ∧
    x.CheckedBy (Search.ofTree x) .notFormula (fun e => ∃ v, e = .foreign v) :=
  ⟨NormalForm.checkedBy_ofTree t x, Refutation.checkedBy_ofTree s t x, Search.checkedBy_ofTree x⟩

end PropProver
