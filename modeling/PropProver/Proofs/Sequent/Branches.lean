import Mathlib.Algebra.BigOperators.Group.List.Basic
import Mathlib.Tactic.Ring.RingNF
import PropProver.Proofs.NormalForm.Cnf
import PropProver.Sequent.Rules

/-!
# What a sequent comes to

A sequent holds if a formula on its left is false or one on its right is true. `Formula.branches`
reads the rules as the equations of a function: the atomic sequents that a formula on the right or
on the left leads to, each as a clause. The inference that the search makes splits the branches of
a sequent among the premises (`Sequent.branches_inference`), and an assignment makes a sequent hold
if it makes its branches hold (`Sequent.holds_branches`). So every inference is sound and can be
inverted (`Sequent.holds_inference`).

The search finds no inference at the axioms only (`Sequent.inference?_eq_none_iff`), and an axiom is
its own only branch (`Sequent.branches_of_isAxiom`).
-/

namespace PropProver

/-! ### Formulas -/

/-- The branches that a formula on the right (`true`) or on the left (`false`) leads to. -/
def Formula.branches : Bool → Formula → Cnf
  | p, .atom a => .single {⟨a, p⟩}
  | p, .neg x => branches (!p) x
  | true, .bin .and l r => branches true l + branches true r
  | true, .bin .or l r => branches true l * branches true r
  | true, .bin .imply l r => branches false l * branches true r
  | true, .bin .iff l r => branches false l * branches true r + branches false r * branches true l
  | false, .bin .and l r => branches false l * branches false r
  | false, .bin .or l r => branches false l + branches false r
  | false, .bin .imply l r => branches true l + branches false r
  | false, .bin .iff l r =>
    (branches true l + branches false r) * (branches true r + branches false l)

/-- The branches of a formula on the right hold where it is true, those of one on the left where it
is false. -/
theorem Formula.holds_branches (v : Assignment) (f : Formula) (p : Bool) :
    (f.branches p).Holds v ↔ f.eval v = p := by
  induction f generalizing p with
  | atom a => simp [branches, Cnf.holds_single, Literal.eval, eval]
  | neg x ih =>
    rw [branches, ih, eval]
    cases p <;> cases eval v x <;> simp
  | bin op l r ihl ihr =>
    cases p <;> cases op <;>
      simp only [branches, Cnf.holds_add, Cnf.holds_mul, ihl, ihr, eval, Connective.eval] <;>
      cases eval v l <;> cases eval v r <;> simp
  | foreign v => exact v.elim

/-- A formula counts as true on the right and as false on the left. -/
def Side.sign : Side → Bool
  | .left => false
  | .right => true

namespace Sequent

universe u

variable {ι : Type u}

/-! ### Sequents -/

/-- Some formula on the left is false, or some formula on the right is true. -/
def Holds (v : Assignment) (s : Sequent Empty) : Prop :=
  (∃ x ∈ s.antecedent, Formula.eval v x = false) ∨ ∃ x ∈ s.succedent, Formula.eval v x = true

/-- The branches of formulas that stand together on one side. -/
def branchesOn (side : Side) (xs : List Formula) : Cnf :=
  (xs.map (Formula.branches side.sign)).prod

/-- The branches that a sequent leads to. -/
def branches (s : Sequent Empty) : Cnf :=
  branchesOn .left s.antecedent * branchesOn .right s.succedent

theorem holds_branchesOn {v : Assignment} {side : Side} {xs : List Formula} :
    (branchesOn side xs).Holds v ↔ ∃ x ∈ xs, Formula.eval v x = side.sign := by
  rw [branchesOn, Cnf.holds_prod]
  simp only [List.mem_map, exists_exists_and_eq_and, Formula.holds_branches]

theorem holds_branches {v : Assignment} {s : Sequent Empty} : s.branches.Holds v ↔ s.Holds v := by
  rw [branches, Cnf.holds_mul, holds_branchesOn, holds_branchesOn]
  rfl

theorem branchesOn_append (side : Side) (xs ys : List Formula) :
    branchesOn side (xs ++ ys) = branchesOn side xs * branchesOn side ys := by
  rw [branchesOn, List.map_append, List.prod_append]
  rfl

theorem branchesOn_eraseIdx {side : Side} {xs : List Formula} {n : Nat} {x : Formula}
    (h : xs[n]? = some x) :
    branchesOn side xs = branchesOn side (xs.eraseIdx n) * x.branches side.sign := by
  obtain ⟨hn, rfl⟩ := List.getElem?_eq_some_iff.1 h
  have hperm := (List.getElem_cons_eraseIdx_perm hn).map (Formula.branches side.sign)
  rw [branchesOn, ← hperm.prod_eq, List.map_cons, List.prod_cons, mul_comm]
  rfl

theorem branches_replace (s : Sequent Empty) (side : Side) {xs : List Formula} {C : Cnf}
    (h : branchesOn side xs = branchesOn side (s.on side) * C) :
    (s.replace side xs).branches = s.branches * C := by
  cases side with
  | left =>
    show branchesOn .left xs * branchesOn .right s.succedent = _
    rw [h, branches, on]
    ring
  | right =>
    show branchesOn .left s.antecedent * branchesOn .right xs = _
    rw [h, branches, on]
    ring

theorem branches_add (s : Sequent Empty) (side : Side) (xs : List Formula) :
    (s.add side xs).branches = s.branches * branchesOn side xs :=
  s.branches_replace side (branchesOn_append side _ xs)

theorem branches_remove {s : Sequent Empty} {side : Side} {n : Nat} {x : Formula}
    (h : (s.on side)[n]? = some x) :
    s.branches = (s.remove side n).branches * x.branches side.sign := by
  have hrest : (s.remove side n).on side = (s.on side).eraseIdx n := by
    rw [remove, Position.remove_ofNat]
    cases side <;> rfl
  have hback : (s.remove side n).replace side (s.on side) = s := by
    cases side <;> rfl
  have hon : branchesOn side (s.on side) =
      branchesOn side ((s.remove side n).on side) * x.branches side.sign := by
    rw [hrest, ← branchesOn_eraseIdx h]
  have := branches_replace _ side hon
  rwa [hback] at this

/-! ### The rules -/

/-- A rule splits the branches among its premises, whatever the rest of the sequent. -/
theorem branches_expandFormula {rest : Sequent Empty} {side : Side} {x : Formula}
    {inference : Inference Empty} (h : rest.expandFormula side x = some inference) :
    (inference.premises.map branches).sum = rest.branches * x.branches side.sign := by
  cases side <;> simp only [expandFormula] at h
  · unfold expandLeft at h
    split at h <;> cases h <;>
      simp [Inference.premises, branches_add, branchesOn, Formula.branches, Side.sign] <;> ring
  · unfold expandRight at h
    split at h <;> cases h <;>
      simp [Inference.premises, branches_add, branchesOn, Formula.branches, Side.sign] <;> ring

/-- The search makes the inference for the place that is selected. -/
theorem inference?_eq_some_iff {s : Sequent ι} {inference : Inference ι} :
    s.inference? = some inference ↔
      ∃ side n, s.select = some (side, n) ∧ s.expand side n = .ok inference := by
  have hok (side : Side) (n : Nat) :
      (s.expand side n).toOption = some inference ↔ s.expand side n = .ok inference := by
    cases s.expand side n <;> simp [Except.toOption]
  simp only [inference?, Option.bind_eq_some_iff, Prod.exists, hok]

/-- An inference splits the branches of a sequent among the premises. -/
theorem branches_inference {s : Sequent Empty} {inference : Inference Empty}
    (h : s.inference? = some inference) :
    (inference.premises.map branches).sum = s.branches := by
  obtain ⟨side, n, -, he⟩ := inference?_eq_some_iff.1 h
  obtain ⟨x, hx, hi⟩ := expand_eq_ok_iff.1 he
  rw [branches_expandFormula hi, branches_remove hx]

/-- Every inference is sound and can be inverted. -/
theorem holds_inference {s : Sequent Empty} {inference : Inference Empty}
    (h : s.inference? = some inference) (v : Assignment) :
    s.Holds v ↔ ∀ p ∈ inference.premises, p.Holds v := by
  rw [← holds_branches, ← branches_inference h, Cnf.holds_sum]
  simp only [List.forall_mem_map, holds_branches]

/-! ### Axioms -/

theorem isAtom_iff {x : Tree ι} : x.isAtom = true ↔ ∃ a, x = .atom a := by
  cases x <;> simp [Tree.isAtom]

/-- An axiom has only atoms on both sides. -/
theorem isAxiom_iff {s : Sequent ι} :
    s.isAxiom = true ↔
      (∀ x ∈ s.antecedent, ∃ a, x = .atom a) ∧ ∀ x ∈ s.succedent, ∃ a, x = .atom a := by
  simp only [isAxiom, List.all_append, Bool.and_eq_true, List.all_eq_true, isAtom_iff]

theorem select_eq_none_iff {s : Sequent ι} : s.select = none ↔ s.isAxiom = true := by
  unfold select isAxiom
  rw [List.all_append, Bool.and_eq_true, List.all_eq_true, List.all_eq_true]
  cases hl : s.antecedent.findIdx? (!·.isAtom) with
  | none =>
    rw [List.findIdx?_eq_none_iff] at hl
    simp only [Option.map_eq_none_iff, List.findIdx?_eq_none_iff, Bool.not_eq_false'] at hl ⊢
    exact ⟨fun hr => ⟨hl, hr⟩, fun h => h.2⟩
  | some i =>
    obtain ⟨hi, hx, -⟩ := List.findIdx?_eq_some_iff_getElem.1 hl
    rw [Bool.not_eq_true'] at hx
    constructor
    · intro h
      cases h
    · intro h
      rw [h.1 _ (List.getElem_mem hi)] at hx
      cases hx

/-- There is a rule for every formula that is no atom, on either side. -/
theorem exists_expandFormula (rest : Sequent Empty) (side : Side) {x : Formula}
    (h : x.isAtom = false) : ∃ inference, rest.expandFormula side x = some inference :=
  exists_expandFormula_of_not_foreign rest side h x.isForeign_formula

theorem inference?_of_select_eq_none {s : Sequent ι} (h : s.select = none) :
    s.inference? = none := by
  rw [inference?, h]
  rfl

/-- What is selected can be expanded. -/
theorem exists_inference_of_select {s : Sequent Empty} {side : Side} {n : Nat}
    (h : s.select = some (side, n)) :
    ∃ inference, s.expand side n = .ok inference ∧ s.inference? = some inference := by
  obtain ⟨x, hx, hatom⟩ := exists_of_select h
  obtain ⟨inference, hi⟩ := exists_expandFormula (s.remove side n) side hatom
  have he := expand_eq_ok_iff.2 ⟨x, hx, hi⟩
  exact ⟨inference, he, inference?_eq_some_iff.2 ⟨side, n, h, he⟩⟩

/-- The search finds no inference at the axioms only. -/
theorem inference?_eq_none_iff {s : Sequent Empty} : s.inference? = none ↔ s.isAxiom = true := by
  rw [← select_eq_none_iff]
  constructor
  · intro h
    cases hs : s.select with
    | none => rfl
    | some place =>
      obtain ⟨inference, -, hi⟩ := exists_inference_of_select hs
      rw [hi] at h
      cases h
  · exact inference?_of_select_eq_none

/-- The literals of the atoms of a sequent, negative on the left and positive on the right. -/
def literals (s : Sequent ι) : Multiset Literal :=
  Multiset.ofList ((s.antecedent.filterMap name?).map (⟨·, false⟩)) +
    Multiset.ofList ((s.succedent.filterMap name?).map (⟨·, true⟩))

theorem mem_names {xs : List (Tree ι)} {a : String} :
    a ∈ xs.filterMap name? ↔ Tree.atom a ∈ xs := by
  rw [List.mem_filterMap]
  constructor
  · rintro ⟨x, hx, hname⟩
    unfold name? at hname
    split at hname <;> cases hname
    exact hx
  · exact fun h => ⟨_, h, rfl⟩

/-- A sequent is closed if some atom stands on both sides. -/
theorem isClosed_iff {s : Sequent ι} :
    s.isClosed = true ↔ ∃ a, Tree.atom a ∈ s.antecedent ∧ Tree.atom a ∈ s.succedent := by
  simp only [isClosed, List.any_eq_true, decide_eq_true_eq, mem_names]
  exact exists_congr fun a => and_comm

theorem branchesOn_of_atoms {side : Side} {xs : List Formula} (h : ∀ x ∈ xs, ∃ a, x = .atom a) :
    branchesOn side xs =
      .single (Multiset.ofList ((xs.filterMap name?).map (⟨·, side.sign⟩))) := by
  induction xs with
  | nil => rfl
  | cons x xs ih =>
    obtain ⟨⟨a, rfl⟩, hxs⟩ := List.forall_mem_cons.1 h
    have hcons : branchesOn side (.atom a :: xs) = .single {⟨a, side.sign⟩} * branchesOn side xs :=
      List.prod_cons
    rw [hcons, ih hxs, Cnf.single_mul_single]
    rfl

/-- An axiom is its own only branch. -/
theorem branches_of_isAxiom {s : Sequent Empty} (h : s.isAxiom = true) :
    s.branches = .single s.literals := by
  obtain ⟨hl, hr⟩ := isAxiom_iff.1 h
  rw [branches, branchesOn_of_atoms hl, branchesOn_of_atoms hr, Cnf.single_mul_single]
  rfl

/-- A closed sequent holds under every assignment. -/
theorem holds_of_isClosed {s : Sequent Empty} (h : s.isClosed = true) (v : Assignment) :
    s.Holds v := by
  obtain ⟨a, hl, hr⟩ := isClosed_iff.1 h
  cases hv : v a with
  | false => exact .inl ⟨_, hl, hv⟩
  | true => exact .inr ⟨_, hr, hv⟩

/-- An axiom that is not closed fails where exactly the atoms on its left are true. -/
theorem not_holds_of_not_isClosed {s : Sequent Empty} (hatoms : s.isAxiom = true)
    (h : s.isClosed = false) : ¬ s.Holds fun a => decide (.atom a ∈ s.antecedent) := by
  obtain ⟨hleft, hright⟩ := isAxiom_iff.1 hatoms
  rintro (⟨x, hx, hv⟩ | ⟨x, hx, hv⟩)
  · obtain ⟨a, rfl⟩ := hleft x hx
    exact of_decide_eq_false hv hx
  · obtain ⟨a, rfl⟩ := hright x hx
    rw [isClosed_iff.2 ⟨a, of_decide_eq_true hv, hx⟩] at h
    cases h

end Sequent

end PropProver
