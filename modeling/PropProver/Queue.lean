/-!
# Queues

A queue keeps its contents in two lists, so that adding at either end and taking the first are
cheap: the front in order, and the back with the newest first. `Queue.toList` is the content in
order, and every operation is described by what it does to this list.
-/

namespace PropProver

universe u

/-- A sequence from which the first is taken. -/
structure Queue (α : Type u) where
  /-- The first ones, in order. -/
  front : List α := []
  /-- Those that come after the front, the last one first. -/
  back : List α := []

namespace Queue

variable {α : Type u}

/-- The content in order. -/
def toList (q : Queue α) : List α := q.front ++ q.back.reverse

/-- A queue with one thing. -/
def singleton (x : α) : Queue α := { front := [x] }

/-- Adds things in order before all others. -/
def prepend (q : Queue α) (xs : List α) : Queue α := { q with front := xs ++ q.front }

/-- Adds things in order after all others. -/
def append (q : Queue α) (xs : List α) : Queue α := { q with back := xs.reverse ++ q.back }

/-- The first thing and the queue after it, if there is any. -/
def pop? (q : Queue α) : Option (α × Queue α) :=
  match q.front with
  | x :: front => some (x, { q with front })
  | [] =>
    match q.back.reverse with
    | x :: front => some (x, { front })
    | [] => none

@[simp] theorem toList_singleton (x : α) : (singleton x).toList = [x] := rfl

@[simp] theorem toList_prepend (q : Queue α) (xs : List α) :
    (q.prepend xs).toList = xs ++ q.toList := by
  simp [prepend, toList]

@[simp] theorem toList_append (q : Queue α) (xs : List α) :
    (q.append xs).toList = q.toList ++ xs := by
  simp [append, toList]

/-- What is taken is the first of the content, and the rest remains. -/
theorem toList_of_pop? {q rest : Queue α} {x : α} (h : q.pop? = some (x, rest)) :
    q.toList = x :: rest.toList := by
  obtain ⟨front, back⟩ := q
  cases front with
  | cons y ys =>
    cases h
    rfl
  | nil =>
    simp only [pop?] at h
    split at h
    · next y ys hy =>
      cases h
      simp [toList, hy]
    · cases h

/-- Nothing can be taken from an empty queue only. -/
theorem pop?_eq_none_iff {q : Queue α} : q.pop? = none ↔ q.toList = [] := by
  obtain ⟨front, back⟩ := q
  cases front with
  | cons y ys => simp [pop?, toList]
  | nil =>
    simp only [pop?, toList, List.nil_append]
    split <;> simp [*]

end Queue

end PropProver
