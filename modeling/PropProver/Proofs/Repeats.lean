import Mathlib.Data.List.Basic

/-!
# Lists without repeats

`List.eraseDups` keeps every member of a list where it stands first. What is kept has no repeats
(`nodup_eraseDups`) and is in the order of first occurrence (`pairwise_idxOf_eraseDups`). It makes no
difference whether members are sorted out, or renamed to different ones, before or after
(`eraseDups_filter`, `eraseDups_map_of_injective`).
-/

namespace PropProver

variable {α β : Type} [DecidableEq α] [DecidableEq β]

theorem nodup_eraseDups (xs : List α) : xs.eraseDups.Nodup := by
  match xs with
  | [] => exact .nil
  | x :: xs =>
    rw [List.eraseDups_cons]
    refine List.nodup_cons.2 ⟨fun hx => ?_, nodup_eraseDups _⟩
    rw [List.mem_eraseDups, List.mem_filter] at hx
    simp at hx
termination_by xs.length
decreasing_by exact Nat.lt_succ_of_le (List.length_filter_le _ _)

/-- Repeats are left out alike if different members are taken to different ones. -/
theorem eraseDups_map_of_injective {f : α → β} (hf : Function.Injective f) (xs : List α) :
    (xs.map f).eraseDups = xs.eraseDups.map f := by
  match xs with
  | [] => rfl
  | x :: xs =>
    have hne : (fun y => !f y == f x) = fun y => !y == x := by
      funext y
      rw [Bool.beq_eq_decide_eq, Bool.beq_eq_decide_eq, decide_eq_decide.2 hf.eq_iff]
    rw [List.map_cons, List.eraseDups_cons, List.eraseDups_cons, List.map_cons, List.filter_map,
      Function.comp_def, hne, eraseDups_map_of_injective hf]
termination_by xs.length
decreasing_by exact Nat.lt_succ_of_le (List.length_filter_le _ _)

theorem eraseDups_of_nodup {xs : List α} (h : xs.Nodup) : xs.eraseDups = xs := by
  induction xs with
  | nil => rfl
  | cons x xs ih =>
    obtain ⟨hx, hxs⟩ := List.nodup_cons.1 h
    have hfilter : xs.filter (fun y => !y == x) = xs := by
      rw [List.filter_eq_self]
      intro y hy
      simpa using fun e : y = x => hx (e ▸ hy)
    rw [List.eraseDups_cons, hfilter, ih hxs]

/-- Repeats are left out alike before and after members are sorted out. -/
theorem eraseDups_filter (q : α → Bool) (xs : List α) :
    (xs.filter q).eraseDups = xs.eraseDups.filter q := by
  match xs with
  | [] => rfl
  | x :: xs =>
    have ih := eraseDups_filter q (xs.filter fun y => !y == x)
    rw [List.filter_filter] at ih
    rw [List.eraseDups_cons, List.filter_cons, List.filter_cons]
    cases hq : q x with
    | true =>
      rw [if_pos rfl, if_pos rfl, List.eraseDups_cons, List.filter_filter, ← ih]
      simp only [Bool.and_comm]
    | false =>
      rw [if_neg Bool.false_ne_true, if_neg Bool.false_ne_true, ← ih]
      congr 1
      refine List.filter_congr fun y _ => ?_
      by_cases hy : y = x
      · rw [hy, hq, Bool.false_and]
      · simp [hy]
termination_by xs.length
decreasing_by exact Nat.lt_succ_of_le (List.length_filter_le _ _)

/-! ### First occurrences -/

/-- Of two members that are kept, the first is the same before and after others are sorted out. -/
theorem idxOf_lt_idxOf_of_filter {q : α → Bool} {xs : List α} {a b : α} (ha : q a = true)
    (hb : q b = true) (h : (xs.filter q).idxOf a < (xs.filter q).idxOf b) :
    xs.idxOf a < xs.idxOf b := by
  induction xs with
  | nil => exact h
  | cons x xs ih =>
    by_cases hxb : x = b
    · subst hxb
      simp [hb] at h
    · by_cases hxa : x = a
      · subst hxa
        simp [List.idxOf_cons_ne _ hxb]
      · rw [List.idxOf_cons_ne _ hxa, List.idxOf_cons_ne _ hxb, Nat.succ_lt_succ_iff]
        refine ih ?_
        cases hq : q x with
        | false => rwa [List.filter_cons_of_neg (by simp [hq])] at h
        | true =>
          rwa [List.filter_cons_of_pos hq, List.idxOf_cons_ne _ hxa, List.idxOf_cons_ne _ hxb,
            Nat.succ_lt_succ_iff] at h

/-- What is kept is in the order of first occurrence. -/
theorem pairwise_idxOf_eraseDups (xs : List α) :
    xs.eraseDups.Pairwise fun a b => xs.idxOf a < xs.idxOf b := by
  match xs with
  | [] => exact .nil
  | x :: xs =>
    have hne {a : α} (ha : a ∈ (xs.filter fun y => !y == x).eraseDups) : (!a == x) = true :=
      (List.mem_filter.1 (List.mem_eraseDups.1 ha)).2
    have hidx {a : α} (ha : (!a == x) = true) : (x :: xs).idxOf a = xs.idxOf a + 1 :=
      List.idxOf_cons_ne xs fun e => by simp [e] at ha
    rw [List.eraseDups_cons, List.pairwise_cons]
    constructor
    · intro a ha
      rw [List.idxOf_cons_self, hidx (hne ha)]
      exact Nat.succ_pos _
    · refine (pairwise_idxOf_eraseDups (xs.filter fun y => !y == x)).imp_of_mem ?_
      intro a b ha hb hab
      rw [hidx (hne ha), hidx (hne hb)]
      exact Nat.succ_lt_succ (idxOf_lt_idxOf_of_filter (hne ha) (hne hb) hab)
termination_by xs.length
decreasing_by exact Nat.lt_succ_of_le (List.length_filter_le _ _)

end PropProver
