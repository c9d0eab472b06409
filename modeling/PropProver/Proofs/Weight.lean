import Mathlib.Algebra.Group.Nat.Defs
import PropProver.Weight

/-!
# More about weights

The total weight does not depend on the order. The effort that goes with a weight is the number of
nodes in a full binary tree of this height (`Weight.effort_eq`): a thing stands at the root, and
below it stand the two things that replace it, each of one weight less.
-/

namespace PropProver.Weight

universe u

variable {α : Type u}

theorem total_of_perm {weight : α → Nat} {xs ys : List α} (h : xs.Perm ys) :
    total weight xs = total weight ys := by
  induction h with
  | nil => rfl
  | cons x _ ih => simp [ih]
  | swap x y xs =>
    simp only [total_cons]
    omega
  | trans _ _ ih ih' => rw [ih, ih']

theorem effort_eq (w : Nat) : effort w = 2 ^ (w + 1) - 1 := by
  induction w with
  | zero => rfl
  | succ w ih =>
    rw [effort, ih, Nat.pow_succ 2 (w + 1)]
    have := Nat.two_pow_pos (w + 1)
    omega

end PropProver.Weight
