/-!
# Positions counted from either end

A position in a list is an integer. From zero on it counts from the front, and a negative one
counts from the back, `-1` being the last member. Taking a member out cuts the list twice, before
the position and after it. A cut stays within the list, so that nothing is taken out where there
is no member; and since `0` is the cut after position `-1`, that one gives all members but the
last, followed by the whole list again.

Looking up a member where there is none is refused with a reason (`Position.find`): the position
lies outside the list, or it is no number of 64 bits and could not lie in any list.
-/

namespace PropProver.Position

universe u

variable {α : Type u}

/-- The member at a position. -/
def get? (xs : List α) (i : Int) : Option α :=
  if 0 ≤ i then xs[i.toNat]?
  else if 0 ≤ i + xs.length then xs[(i + xs.length).toNat]?
  else none

/-- Why there is no member at a position. -/
inductive Fault where
  /-- The list does not reach that far. -/
  | outside
  /-- The position is no signed number of 64 bits. -/
  | oversized
  deriving DecidableEq, Repr

/-- The position is a signed number of 64 bits. -/
def isWord (i : Int) : Bool := -9223372036854775808 ≤ i && i < 9223372036854775808

/-- The member at a position, or why there is none. -/
def find (xs : List α) (i : Int) : Except Fault α :=
  match get? xs i with
  | some x => .ok x
  | none => .error (if isWord i then .outside else .oversized)

/-- The message for a position without a member, given what the members are in. -/
def Fault.message (container : String) : Fault → String
  | .outside => container ++ " index out of range"
  | .oversized => "cannot fit 'int' into an index-sized integer"

/-- Where a list of a given length is cut. -/
def cut (length : Nat) (i : Int) : Nat :=
  if 0 ≤ i then min i.toNat length else (i + length).toNat

/-- The members before the cut at a position and after the cut behind it. -/
def remove (xs : List α) (i : Int) : List α :=
  xs.take (cut xs.length i) ++ xs.drop (cut xs.length (i + 1))

/-- At a position that counts from the front, `get?` is the usual access. -/
theorem get?_ofNat (xs : List α) (n : Nat) : get? xs n = xs[n]? := by
  simp [get?]

/-- `find` gives what `get?` gives. -/
theorem find_eq_ok_iff {xs : List α} {i : Int} {x : α} : find xs i = .ok x ↔ get? xs i = some x := by
  unfold find
  cases get? xs i <;> simp

/-- At a position that counts from the front, `remove` takes one member out. -/
theorem remove_ofNat (xs : List α) (n : Nat) : remove xs n = xs.eraseIdx n := by
  have h : cut xs.length ((n : Int) + 1) = min (n + 1) xs.length := by
    have : (n : Int) + 1 = ((n + 1 : Nat) : Int) := by omega
    rw [this, cut, if_pos (by omega)]
    omega
  rw [remove, h, cut, if_pos (by omega), List.eraseIdx_eq_take_drop_succ]
  by_cases hn : n < xs.length
  · rw [Nat.min_eq_left (by omega), Nat.min_eq_left (by omega)]
    rfl
  · rw [Nat.min_eq_right (by omega), Nat.min_eq_right (by omega)]
    rw [List.take_of_length_le (by omega), List.take_of_length_le (by omega),
      List.drop_of_length_le (by omega), List.drop_of_length_le (by omega)]

end PropProver.Position
