import PropProver.Formula.Basic

/-!
# What a tree is made of

A tree reaches itself, its operands, their operands, and so on. It is malformed if it reaches a
foreign value. To read a tree as a formula works for all others (`Tree.exists_check_iff`), and a
formula is never malformed (`Formula.not_malformed`).
-/

namespace PropProver

universe u v w

variable {ι : Type u}

/-- A traversal that may fail comes to its end if no member fails. -/
theorem exists_mapM_iff {ε : Type u} {α : Type v} {β : Type w} {f : α → Except ε β} {xs : List α} :
    (∃ ys, xs.mapM f = .ok ys) ↔ ∀ x ∈ xs, ∃ y, f x = .ok y := by
  induction xs with
  | nil => simp [pure, Except.pure]
  | cons x xs ih =>
    rw [List.mapM_cons, List.forall_mem_cons, ← ih]
    cases f x <;> cases xs.mapM f <;> simp [bind, Except.bind, pure, Except.pure]

namespace Tree

/-- What is reached through the operands of negations and connectives. -/
inductive Reaches : Tree ι → Tree ι → Prop
  /-- The tree itself. -/
  | refl (x : Tree ι) : Reaches x x
  /-- What the operand of a negation reaches. -/
  | neg {x y : Tree ι} : Reaches x y → Reaches (.neg x) y
  /-- What a left operand reaches. -/
  | left {op : Connective} {l r y : Tree ι} : Reaches l y → Reaches (.bin op l r) y
  /-- What a right operand reaches. -/
  | right {op : Connective} {l r y : Tree ι} : Reaches r y → Reaches (.bin op l r) y

/-- Something is reached that is no formula. -/
def Malformed (x : Tree ι) : Prop := ∃ v, x.Reaches (.foreign v)

@[simp] theorem not_malformed_atom (a : String) : ¬ (atom a : Tree ι).Malformed := by
  rintro ⟨v, h⟩
  cases h

@[simp] theorem malformed_foreign (v : ι) : (foreign v).Malformed := ⟨v, .refl _⟩

@[simp] theorem malformed_neg {x : Tree ι} : (neg x).Malformed ↔ x.Malformed := by
  constructor
  · rintro ⟨v, h⟩
    cases h with
    | neg h => exact ⟨v, h⟩
  · rintro ⟨v, h⟩
    exact ⟨v, .neg h⟩

@[simp] theorem malformed_bin {op : Connective} {l r : Tree ι} :
    (bin op l r).Malformed ↔ l.Malformed ∨ r.Malformed := by
  constructor
  · rintro ⟨v, h⟩
    cases h with
    | left h => exact .inl ⟨v, h⟩
    | right h => exact .inr ⟨v, h⟩
  · rintro (⟨v, h⟩ | ⟨v, h⟩)
    · exact ⟨v, .left h⟩
    · exact ⟨v, .right h⟩

theorem isForeign_iff {x : Tree ι} : x.isForeign = true ↔ ∃ v, x = .foreign v := by
  cases x <;> simp [isForeign]

theorem isForeign_eq_false {x : Tree ι} (h : ¬ x.Malformed) : x.isForeign = false := by
  cases x with
  | foreign v => exact absurd (malformed_foreign v) h
  | _ => rfl

/-- A tree is read as a formula if it is not malformed. -/
theorem exists_check_iff {x : Tree ι} : (∃ f, x.check = .ok f) ↔ ¬ x.Malformed := by
  induction x with
  | atom a => simp [check]
  | neg x ih =>
    rw [malformed_neg, ← ih, check]
    cases x.check <;> simp [bind, Except.bind, pure, Except.pure]
  | bin op l r ihl ihr =>
    rw [malformed_bin, not_or, ← ihl, ← ihr, check]
    cases l.check <;> cases r.check <;> simp [bind, Except.bind, pure, Except.pure]
  | foreign v => simp [check]

/-- None of the trees is malformed. -/
def WellFormed (xs : List (Tree ι)) : Prop := ∀ x ∈ xs, ¬ x.Malformed

@[simp] theorem wellFormed_nil : WellFormed ([] : List (Tree ι)) := List.forall_mem_nil _

@[simp] theorem wellFormed_cons {x : Tree ι} {xs : List (Tree ι)} :
    WellFormed (x :: xs) ↔ ¬ x.Malformed ∧ WellFormed xs :=
  List.forall_mem_cons

@[simp] theorem wellFormed_append {xs ys : List (Tree ι)} :
    WellFormed (xs ++ ys) ↔ WellFormed xs ∧ WellFormed ys :=
  List.forall_mem_append

theorem wellFormed_of_perm {xs ys : List (Tree ι)} (h : xs.Perm ys) :
    WellFormed xs ↔ WellFormed ys :=
  forall_congr' fun _ => imp_congr_left h.mem_iff

theorem exists_mapM_check_iff {xs : List (Tree ι)} :
    (∃ fs, xs.mapM check = .ok fs) ↔ WellFormed xs := by
  simp only [exists_mapM_iff, exists_check_iff, WellFormed]

end Tree

/-- Nothing that a formula reaches is foreign. -/
theorem Formula.not_malformed (f : Formula) : ¬ f.Malformed := fun ⟨v, _⟩ => v.elim

end PropProver
