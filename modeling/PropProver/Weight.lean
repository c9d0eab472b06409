/-!
# Weights

A weight is a number that falls with every step of a piece of work. `Weight.total` adds up the
weights of many things. `Weight.effort` bounds the number of steps that a thing of some weight can
cause, if a step replaces it by one or two things of less weight: what replaces a thing takes less
effort than the thing itself (`Weight.effort_lt`, `Weight.effort_add_lt`).
-/

namespace PropProver.Weight

universe u

variable {α : Type u}

/-- The weight of many things together. -/
def total (weight : α → Nat) : List α → Nat
  | [] => 0
  | x :: xs => weight x + total weight xs

@[simp] theorem total_nil (weight : α → Nat) : total weight [] = 0 := rfl

@[simp] theorem total_cons (weight : α → Nat) (x : α) (xs : List α) :
    total weight (x :: xs) = weight x + total weight xs := rfl

@[simp] theorem total_append (weight : α → Nat) (xs ys : List α) :
    total weight (xs ++ ys) = total weight xs + total weight ys := by
  induction xs with
  | nil => simp
  | cons x xs ih =>
    simp only [List.cons_append, total_cons, ih]
    omega

/-- What is taken out and what remains have the weight of the whole. -/
theorem total_eraseIdx {weight : α → Nat} {xs : List α} {n : Nat} {x : α} (h : xs[n]? = some x) :
    total weight xs = weight x + total weight (xs.eraseIdx n) := by
  induction xs generalizing n with
  | nil => simp at h
  | cons y ys ih =>
    cases n with
    | zero =>
      simp only [List.getElem?_cons_zero, Option.some.injEq] at h
      simp [h]
    | succ n =>
      simp only [List.getElem?_cons_succ] at h
      simp only [List.eraseIdx_cons_succ, total_cons, ih h]
      omega

/-- A bound for the number of steps that a thing of some weight can cause. -/
def effort : Nat → Nat
  | 0 => 1
  | w + 1 => 2 * effort w + 1

theorem effort_pos (w : Nat) : 0 < effort w := by
  cases w <;> simp [effort]

theorem effort_le {v w : Nat} (h : v ≤ w) : effort v ≤ effort w := by
  induction h with
  | refl => exact Nat.le_refl _
  | step _ ih =>
    rw [effort]
    omega

/-- Two things of less weight take less effort together. -/
theorem effort_add_lt {v v' w : Nat} (h : v < w) (h' : v' < w) :
    effort v + effort v' < effort w := by
  cases w with
  | zero => omega
  | succ w =>
    have := effort_le (Nat.le_of_lt_succ h)
    have := effort_le (Nat.le_of_lt_succ h')
    rw [effort]
    omega

/-- A thing of less weight takes less effort. -/
theorem effort_lt {v w : Nat} (h : v < w) : effort v < effort w := by
  have := effort_add_lt h h
  omega

end PropProver.Weight
