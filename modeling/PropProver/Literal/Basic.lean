/-!
# Literals

A literal is an atom or its negation. Literals are ordered by the name of the atom, and the
negative literal of an atom comes before the positive one. The order is strict and total
(`Literal.lt_irrefl`, `Literal.lt_trans`, `Literal.lt_or_eq_or_gt`), so that every finite set
of literals has one sorted list.
-/

namespace PropProver

/-- An atom, taken positively or negatively. -/
structure Literal where
  /-- The name of the atom. -/
  atom : String
  /-- Whether the literal asserts its atom (`true`) or denies it (`false`). -/
  polarity : Bool := true
  deriving DecidableEq, Repr

namespace Literal

/-- The literal of the same atom with the other polarity. -/
def complement (l : Literal) : Literal := ⟨l.atom, !l.polarity⟩

@[simp] theorem complement_complement (l : Literal) : l.complement.complement = l := by
  simp [complement]

theorem complement_ne (l : Literal) : l.complement ≠ l := by
  cases l; simp [complement]

/-- A negative literal is written with `!` before its atom. -/
def text (l : Literal) : String := if l.polarity then l.atom else "!" ++ l.atom

/-! ### The order -/

instance : LT Literal where
  lt a b := a.atom < b.atom ∨ a.atom = b.atom ∧ a.polarity = false ∧ b.polarity = true

theorem lt_iff {a b : Literal} :
    a < b ↔ a.atom < b.atom ∨ a.atom = b.atom ∧ a.polarity = false ∧ b.polarity = true :=
  Iff.rfl

instance : DecidableRel (α := Literal) (· < ·) := fun a b =>
  decidable_of_iff _ (lt_iff (a := a) (b := b)).symm

theorem lt_irrefl (a : Literal) : ¬ a < a := by
  rw [lt_iff]
  rintro (h | ⟨_, h, h'⟩)
  · exact String.lt_irrefl _ h
  · rw [h] at h'
    exact Bool.noConfusion h'

theorem lt_trans {a b c : Literal} (hab : a < b) (hbc : b < c) : a < c := by
  rw [lt_iff] at *
  rcases hab with h | ⟨h, ha, hb⟩ <;> rcases hbc with h' | ⟨h', hb', hc⟩
  · exact .inl (String.lt_trans h h')
  · exact .inl (h' ▸ h)
  · exact .inl (h ▸ h')
  · rw [hb] at hb'
    exact Bool.noConfusion hb'

/-- Two literals are equal or one comes before the other. -/
theorem lt_or_eq_or_gt (a b : Literal) : a < b ∨ a = b ∨ b < a := by
  rw [lt_iff, lt_iff]
  by_cases h : a.atom < b.atom
  · exact .inl (.inl h)
  by_cases h' : b.atom < a.atom
  · exact .inr (.inr (.inl h'))
  have e : a.atom = b.atom :=
    String.le_antisymm (String.not_lt.1 h') (String.not_lt.1 h)
  obtain ⟨n, p⟩ := a
  obtain ⟨m, q⟩ := b
  cases e
  cases p <;> cases q <;> simp

/-- Literals in order, repeats kept. -/
def sort (ls : List Literal) : List Literal := ls.mergeSort fun a b => !decide (b < a)

/-- Literals between braces, as they stand. -/
def listText (ls : List Literal) : String :=
  "\x7b" ++ ", ".intercalate (ls.map text) ++ "\x7d"

end Literal

end PropProver
