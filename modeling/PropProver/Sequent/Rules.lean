import PropProver.Sequent.Basic

/-!
# The rules of the sequent calculus

There is one rule for negation and for each connective on either side. Read upwards, a rule takes
a formula out of a sequent and puts its parts back, into one premise or into two. The rules for
equivalence first turn it into two implications.

Every premise has less search weight than the sequent that it comes from
(`Sequent.searchWeight_premise_lt`).
-/

namespace PropProver

universe u

variable {ι : Type u}

/-- The names of the rules. -/
inductive Sequent.Rule where
  | notLeft | andLeft | orLeft | implyLeft | iffLeft
  | notRight | andRight | orRight | implyRight | iffRight
  deriving DecidableEq, Repr

/-- The name of a rule in writing. -/
def Sequent.Rule.name : Sequent.Rule → String
  | .notLeft => "not-left"
  | .andLeft => "and-left"
  | .orLeft => "or-left"
  | .implyLeft => "imply-left"
  | .iffLeft => "iff-left"
  | .notRight => "not-right"
  | .andRight => "and-right"
  | .orRight => "or-right"
  | .implyRight => "imply-right"
  | .iffRight => "iff-right"

/-- A rule with the premises that it gives. -/
inductive Sequent.Inference (ι : Type u) where
  /-- A rule with one premise. -/
  | one (rule : Sequent.Rule) (premise : Sequent ι)
  /-- A rule with two premises. -/
  | two (rule : Sequent.Rule) (first second : Sequent ι)
  deriving DecidableEq, Repr

namespace Sequent

/-- The rule of an inference. -/
def Inference.rule : Inference ι → Rule
  | .one r _ => r
  | .two r _ _ => r

/-- The premises of an inference. -/
def Inference.premises : Inference ι → List (Sequent ι)
  | .one _ p => [p]
  | .two _ p q => [p, q]

/-- The rule for a formula on the left, given the rest of the sequent. -/
def expandLeft (rest : Sequent ι) : Tree ι → Option (Inference ι)
  | .neg x => some (.one .notLeft (rest.add .right [x]))
  | .bin .and l r => some (.one .andLeft (rest.add .left [l, r]))
  | .bin .or l r => some (.two .orLeft (rest.add .left [l]) (rest.add .left [r]))
  | .bin .imply l r => some (.two .implyLeft (rest.add .right [l]) (rest.add .left [r]))
  | .bin .iff l r => some (.one .iffLeft (rest.add .left [.bin .imply l r, .bin .imply r l]))
  | .atom _ | .foreign _ => none

/-- The rule for a formula on the right, given the rest of the sequent. -/
def expandRight (rest : Sequent ι) : Tree ι → Option (Inference ι)
  | .neg x => some (.one .notRight (rest.add .left [x]))
  | .bin .and l r => some (.two .andRight (rest.add .right [l]) (rest.add .right [r]))
  | .bin .or l r => some (.one .orRight (rest.add .right [l, r]))
  | .bin .imply l r => some (.one .implyRight ((rest.add .left [l]).add .right [r]))
  | .bin .iff l r =>
    some (.two .iffRight (rest.add .right [.bin .imply l r]) (rest.add .right [.bin .imply r l]))
  | .atom _ | .foreign _ => none

/-- The rule for a formula of one side, given the rest of the sequent. -/
def expandFormula (rest : Sequent ι) : Side → Tree ι → Option (Inference ι)
  | .left => rest.expandLeft
  | .right => rest.expandRight

/-- Why no rule applies at a position. -/
inductive ExpandError (ι : Type u) where
  /-- The side has no formula there. -/
  | noFormula (f : Position.Fault)
  /-- There is no rule for what stands there. -/
  | noRule (side : Side) (t : Tree ι)
  deriving DecidableEq, Repr

/-- Applies the rule for the formula at a position of one side. -/
def expand (s : Sequent ι) (side : Side) (i : Int) : Except (ExpandError ι) (Inference ι) :=
  match Position.find (s.on side) i with
  | .error f => .error (.noFormula f)
  | .ok t =>
    match (s.remove side i).expandFormula side t with
    | none => .error (.noRule side t)
    | some inference => .ok inference

/-- The place of the first formula that is no atom, the left side before the right. -/
def select (s : Sequent ι) : Option (Side × Nat) :=
  match s.antecedent.findIdx? (!·.isAtom) with
  | some i => some (.left, i)
  | none => (s.succedent.findIdx? (!·.isAtom)).map fun i => (.right, i)

/-- The inference that the search makes at a sequent; there is none at an axiom. -/
def inference? (s : Sequent ι) : Option (Inference ι) :=
  s.select.bind fun (side, i) => (s.expand side i).toOption

/-! ### Which formulas have a rule -/

/-- A rule applies at a place if a formula stands there for which there is a rule. -/
theorem expand_eq_ok_iff {s : Sequent ι} {side : Side} {n : Nat} {inference : Inference ι} :
    s.expand side n = .ok inference ↔ ∃ x, (s.on side)[n]? = some x ∧
      (s.remove side n).expandFormula side x = some inference := by
  constructor
  · intro h
    unfold expand at h
    split at h
    · cases h
    · next x hx =>
      rw [Position.find_eq_ok_iff, Position.get?_ofNat] at hx
      split at h
      · cases h
      · next inference' hi =>
        cases h
        exact ⟨x, hx, hi⟩
  · rintro ⟨x, hx, hi⟩
    have hfind : Position.find (s.on side) n = .ok x := by
      rw [Position.find_eq_ok_iff, Position.get?_ofNat, hx]
    unfold expand
    rw [hfind]
    dsimp only
    rw [hi]

/-- What is selected is no atom. -/
theorem exists_of_select {s : Sequent ι} {side : Side} {n : Nat} (h : s.select = some (side, n)) :
    ∃ x, (s.on side)[n]? = some x ∧ x.isAtom = false := by
  have hfind {xs : List (Tree ι)} {i : Nat} (hi : xs.findIdx? (!·.isAtom) = some i) :
      ∃ x, xs[i]? = some x ∧ x.isAtom = false := by
    obtain ⟨hn, hx, -⟩ := List.findIdx?_eq_some_iff_getElem.1 hi
    exact ⟨xs[i], List.getElem?_eq_getElem hn, by simpa using hx⟩
  unfold select at h
  split at h
  · next i hi =>
    cases h
    exact hfind hi
  · obtain ⟨i, hi, h⟩ := Option.map_eq_some_iff.1 h
    cases h
    exact hfind hi

/-- There is a rule for every tree that is neither an atom nor foreign, on either side. -/
theorem exists_expandFormula_of_not_foreign (rest : Sequent ι) (side : Side) {x : Tree ι}
    (hatom : x.isAtom = false) (hforeign : x.isForeign = false) :
    ∃ inference, rest.expandFormula side x = some inference := by
  cases x with
  | atom a => cases hatom
  | neg y => cases side <;> exact ⟨_, rfl⟩
  | bin op l r => cases side <;> cases op <;> exact ⟨_, rfl⟩
  | foreign v => cases hforeign

/-- Only an axiom and what is no formula have no inference: if there is no rule for what is selected,
it is foreign. -/
theorem exists_foreign_of_expand_eq_error {s : Sequent ι} {side : Side} {n : Nat}
    {e : ExpandError ι} (hs : s.select = some (side, n)) (he : s.expand side n = .error e) :
    ∃ v, e = .noRule side (.foreign v) := by
  obtain ⟨x, hx, hatom⟩ := exists_of_select hs
  have hfind : Position.find (s.on side) n = .ok x := by
    rw [Position.find_eq_ok_iff, Position.get?_ofNat, hx]
  simp only [expand, hfind] at he
  split at he
  · next hnone =>
    cases hforeign : x.isForeign with
    | false =>
      obtain ⟨inference, hi⟩ :=
        exists_expandFormula_of_not_foreign (s.remove side n) side hatom hforeign
      rw [hi] at hnone
      cases hnone
    | true =>
      cases x with
      | foreign v =>
        cases he
        exact ⟨v, rfl⟩
      | _ => cases hforeign
  · cases he

end Sequent

/-! ### The search weight -/

/-- A weight that every rule lowers. An equivalence counts for the two implications that it is
turned into, and one more. -/
def Tree.searchWeight : Tree ι → Nat
  | .atom _ => 0
  | .neg x => 1 + searchWeight x
  | .bin .iff l r => 3 + 2 * searchWeight l + 2 * searchWeight r
  | .bin _ l r => 1 + searchWeight l + searchWeight r
  | .foreign _ => 0

namespace Sequent

/-- A weight of formulas, added up over both sides. -/
def total (weight : Tree ι → Nat) (s : Sequent ι) : Nat :=
  Weight.total weight s.antecedent + Weight.total weight s.succedent

theorem total_add (weight : Tree ι → Nat) (s : Sequent ι) (side : Side) (ts : List (Tree ι)) :
    (s.add side ts).total weight = s.total weight + Weight.total weight ts := by
  cases side <;> simp [add, replace, on, total] <;> omega

theorem total_remove {weight : Tree ι → Nat} {s : Sequent ι} {side : Side} {n : Nat} {t : Tree ι}
    (h : (s.on side)[n]? = some t) :
    s.total weight = weight t + (s.remove side n).total weight := by
  cases side <;>
    simp only [on] at h <;>
    simp [remove, replace, on, total, Position.remove_ofNat, Weight.total_eraseIdx h] <;>
    omega

/-- A weight that a rule lowers, whatever the rest of the sequent, is less in every premise than in
the sequent that was expanded. -/
theorem total_premise_lt {weight : Tree ι → Nat} {s : Sequent ι} {side : Side} {n : Nat}
    {inference : Inference ι} (h : s.expand side n = .ok inference)
    (hrule : ∀ rest t, expandFormula rest side t = some inference →
      ∀ p ∈ inference.premises, p.total weight < weight t + rest.total weight) :
    ∀ p ∈ inference.premises, p.total weight < s.total weight := by
  unfold expand at h
  split at h
  · cases h
  · next t ht =>
    rw [Position.find_eq_ok_iff, Position.get?_ofNat] at ht
    split at h
    · cases h
    · next inference' hi =>
      cases h
      rw [total_remove ht]
      exact hrule _ t hi

/-- The search weight of both sides. -/
def searchWeight (s : Sequent ι) : Nat :=
  Weight.total Tree.searchWeight s.antecedent + Weight.total Tree.searchWeight s.succedent

/-- A rule lowers the search weight, whatever the rest of the sequent. -/
theorem searchWeight_expandFormula_lt {rest : Sequent ι} {side : Side} {t : Tree ι}
    {inference : Inference ι} (h : rest.expandFormula side t = some inference) :
    ∀ p ∈ inference.premises, p.total Tree.searchWeight <
      t.searchWeight + rest.total Tree.searchWeight := by
  cases side <;> simp only [expandFormula] at h
  · unfold expandLeft at h
    split at h <;> cases h <;>
      simp [Inference.premises, total_add, Tree.searchWeight] <;> omega
  · unfold expandRight at h
    split at h <;> cases h <;>
      simp [Inference.premises, total_add, Tree.searchWeight] <;> omega

/-- Every premise has less search weight than the sequent that was expanded. -/
theorem searchWeight_premise_lt {s : Sequent ι} {side : Side} {n : Nat}
    {inference : Inference ι} (h : s.expand side n = .ok inference) :
    ∀ p ∈ inference.premises, p.searchWeight < s.searchWeight :=
  total_premise_lt h fun _ _ => searchWeight_expandFormula_lt

theorem searchWeight_inference_lt {s : Sequent ι} {inference : Inference ι}
    (h : s.inference? = some inference) :
    ∀ p ∈ inference.premises, p.searchWeight < s.searchWeight := by
  unfold inference? at h
  cases hs : s.select with
  | none => simp [hs] at h
  | some place =>
    obtain ⟨side, i⟩ := place
    cases he : s.expand side i with
    | error e => simp [hs, he, Except.toOption] at h
    | ok inference' =>
      simp [hs, he, Except.toOption] at h
      subst h
      exact searchWeight_premise_lt he

end Sequent

end PropProver
