import PropProver.Literal.Basic

/-!
# Finite sets of literals

A clause that consists of literals only is read as a set: order and repeats do not matter. A set
is kept as its strictly increasing list of members, so that two sets with the same members are
equal (`LiteralSet.ext`), and each operation is described by its members (`mem_insert`,
`mem_erase`, `mem_union`, `mem_ofList`).
-/

namespace PropProver

/-- A finite set of literals: its members in strictly increasing order. -/
structure LiteralSet where
  /-- The members, in order. -/
  toList : List Literal
  /-- The members increase, so none is listed twice. -/
  increasing : toList.Pairwise (· < ·)
  deriving DecidableEq

namespace LiteralSet

instance : Membership Literal LiteralSet := ⟨fun s l => l ∈ s.toList⟩

theorem mem_iff {l : Literal} {s : LiteralSet} : l ∈ s ↔ l ∈ s.toList := Iff.rfl

instance (l : Literal) (s : LiteralSet) : Decidable (l ∈ s) :=
  inferInstanceAs (Decidable (l ∈ s.toList))

instance : HasSubset LiteralSet := ⟨fun s t => ∀ l ∈ s.toList, l ∈ t⟩

theorem subset_iff {s t : LiteralSet} : s ⊆ t ↔ ∀ l ∈ s, l ∈ t := Iff.rfl

/-- Whether the first of two increasing lists has no member that the second lacks. Both are walked
once, side by side. -/
def contained : List Literal → List Literal → Bool
  | [], _ => true
  | _ :: _, [] => false
  | x :: xs, y :: ys =>
    if x = y then contained xs ys else if y < x then contained (x :: xs) ys else false

theorem contained_iff {xs ys : List Literal} (hx : xs.Pairwise (· < ·))
    (hy : ys.Pairwise (· < ·)) : contained xs ys = true ↔ ∀ l ∈ xs, l ∈ ys := by
  fun_induction contained xs ys with
  | case1 => simp
  | case2 x xs => exact ⟨nofun, fun h => nomatch h x List.mem_cons_self⟩
  | case3 x xs ys ih =>
    rw [List.pairwise_cons] at hx hy
    rw [ih hx.2 hy.2]
    constructor
    · intro h l hl
      rcases List.mem_cons.1 hl with e | hl
      · exact e ▸ List.mem_cons_self
      · exact List.mem_cons_of_mem _ (h l hl)
    · intro h l hl
      rcases List.mem_cons.1 (h l (List.mem_cons_of_mem _ hl)) with e | hl'
      · exact absurd (e ▸ hx.1 l hl) (Literal.lt_irrefl _)
      · exact hl'
  | case4 x xs y ys _ lt ih =>
    rw [List.pairwise_cons] at hy
    rw [ih hx hy.2]
    constructor
    · exact fun h l hl => List.mem_cons_of_mem _ (h l hl)
    · intro h l hl
      rcases List.mem_cons.1 (h l hl) with e | hl'
      · rcases List.mem_cons.1 hl with e' | hl
        · exact absurd (e' ▸ e ▸ lt) (Literal.lt_irrefl _)
        · rw [List.pairwise_cons] at hx
          exact absurd (Literal.lt_trans lt (e ▸ hx.1 l hl)) (Literal.lt_irrefl _)
      · exact hl'
  | case5 x xs y ys ne nlt =>
    rw [List.pairwise_cons] at hy
    refine ⟨nofun, fun h => ?_⟩
    rcases List.mem_cons.1 (h x List.mem_cons_self) with e | hl
    · exact absurd e ne
    · exact absurd (hy.1 x hl) nlt

instance (s t : LiteralSet) : Decidable (s ⊆ t) :=
  decidable_of_iff _ (contained_iff s.increasing t.increasing)

theorem subset_refl (s : LiteralSet) : s ⊆ s := fun _ h => h

theorem subset_trans {s t u : LiteralSet} (hst : s ⊆ t) (htu : t ⊆ u) : s ⊆ u :=
  fun l h => htu l (hst l h)

/-! ### Equality -/

private theorem eq_of_mem_iff {xs ys : List Literal} (hx : xs.Pairwise (· < ·))
    (hy : ys.Pairwise (· < ·)) (h : ∀ l, l ∈ xs ↔ l ∈ ys) : xs = ys := by
  induction xs generalizing ys with
  | nil =>
    cases ys with
    | nil => rfl
    | cons y ys => simpa using h y
  | cons x xs ih =>
    cases ys with
    | nil => simpa using h x
    | cons y ys =>
      rw [List.pairwise_cons] at hx hy
      have hxy : x = y := by
        rcases Literal.lt_or_eq_or_gt x y with lt | eq | gt
        · rcases List.mem_cons.1 ((h x).1 List.mem_cons_self) with e | m
          · exact e
          · exact absurd (Literal.lt_trans lt (hy.1 x m)) (Literal.lt_irrefl x)
        · exact eq
        · rcases List.mem_cons.1 ((h y).2 List.mem_cons_self) with e | m
          · exact e.symm
          · exact absurd (Literal.lt_trans gt (hx.1 y m)) (Literal.lt_irrefl y)
      subst hxy
      rw [ih hx.2 hy.2 fun l => ?_]
      have hl := h l
      simp only [List.mem_cons] at hl
      constructor
      · intro m
        rcases hl.1 (.inr m) with e | m'
        · exact absurd (e ▸ hx.1 l m) (Literal.lt_irrefl _)
        · exact m'
      · intro m
        rcases hl.2 (.inr m) with e | m'
        · exact absurd (e ▸ hy.1 l m) (Literal.lt_irrefl _)
        · exact m'

/-- Sets with the same members are equal. -/
theorem ext {s t : LiteralSet} (h : ∀ l, l ∈ s ↔ l ∈ t) : s = t := by
  obtain ⟨xs, hx⟩ := s
  obtain ⟨ys, hy⟩ := t
  have : xs = ys := eq_of_mem_iff hx hy h
  subst this
  rfl

theorem subset_antisymm {s t : LiteralSet} (hst : s ⊆ t) (hts : t ⊆ s) : s = t :=
  ext fun l => ⟨hst l, hts l⟩

/-! ### Building sets -/

/-- The set without members. -/
def empty : LiteralSet := ⟨[], .nil⟩

instance : EmptyCollection LiteralSet := ⟨empty⟩

@[simp] theorem not_mem_empty (l : Literal) : ¬ l ∈ (∅ : LiteralSet) := List.not_mem_nil

/-- The set has no member. -/
def isEmpty (s : LiteralSet) : Bool := s.toList.isEmpty

theorem isEmpty_iff {s : LiteralSet} : s.isEmpty = true ↔ s = ∅ := by
  obtain ⟨xs, hx⟩ := s
  simp only [isEmpty, List.isEmpty_iff]
  constructor
  · rintro rfl
    rfl
  · intro h
    exact congrArg toList h

/-- Puts a literal into its place in an increasing list; a literal that is there stays. -/
def place (l : Literal) : List Literal → List Literal
  | [] => [l]
  | m :: ms => if l < m then l :: m :: ms else if l = m then m :: ms else m :: place l ms

theorem mem_place {x l : Literal} {ms : List Literal} : x ∈ place l ms ↔ x = l ∨ x ∈ ms := by
  induction ms with
  | nil => simp [place]
  | cons m ms ih =>
    unfold place
    split
    · simp
    · split
      · next h => subst h; simp
      · simp [ih, or_left_comm]

theorem place_increasing {l : Literal} {ms : List Literal} (h : ms.Pairwise (· < ·)) :
    (place l ms).Pairwise (· < ·) := by
  induction ms with
  | nil => simp [place]
  | cons m ms ih =>
    rw [List.pairwise_cons] at h
    unfold place
    split
    · next lt =>
      refine List.pairwise_cons.2 ⟨fun x hx => ?_, List.pairwise_cons.2 h⟩
      rcases List.mem_cons.1 hx with e | hx
      · exact e ▸ lt
      · exact Literal.lt_trans lt (h.1 x hx)
    · split
      · exact List.pairwise_cons.2 h
      · next nlt ne =>
        refine List.pairwise_cons.2 ⟨fun x hx => ?_, ih h.2⟩
        rcases mem_place.1 hx with e | hx
        · rcases Literal.lt_or_eq_or_gt l m with lt | eq | gt
          · exact absurd lt nlt
          · exact absurd eq ne
          · exact e ▸ gt
        · exact h.1 x hx

/-- The set with one more member. -/
def insert (l : Literal) (s : LiteralSet) : LiteralSet :=
  ⟨place l s.toList, place_increasing s.increasing⟩

@[simp] theorem mem_insert {x l : Literal} {s : LiteralSet} : x ∈ s.insert l ↔ x = l ∨ x ∈ s :=
  mem_place

/-- The set of the members of a list. -/
def ofList (ls : List Literal) : LiteralSet := ls.foldr insert ∅

@[simp] theorem mem_ofList {l : Literal} {ls : List Literal} : l ∈ ofList ls ↔ l ∈ ls := by
  induction ls with
  | nil => simp [ofList]
  | cons m ms ih => simpa [ofList] using or_congr_right ih

/-- The set without one literal. -/
def erase (s : LiteralSet) (l : Literal) : LiteralSet :=
  ⟨s.toList.filter (· ≠ l), s.increasing.filter _⟩

@[simp] theorem mem_erase {x l : Literal} {s : LiteralSet} : x ∈ s.erase l ↔ x ∈ s ∧ x ≠ l := by
  simp [mem_iff, erase]

/-- The members of either set. -/
def union (s t : LiteralSet) : LiteralSet := s.toList.foldr insert t

instance : Union LiteralSet := ⟨union⟩

@[simp] theorem mem_union {l : Literal} {s t : LiteralSet} : l ∈ s ∪ t ↔ l ∈ s ∨ l ∈ t := by
  obtain ⟨xs, hx⟩ := s
  change l ∈ xs.foldr insert t ↔ l ∈ xs ∨ l ∈ t
  clear hx
  induction xs with
  | nil => simp
  | cons x xs ih => simp [ih, or_assoc]

/-! ### Clauses as sets -/

/-- The set holds some literal together with its complement. -/
def isTautology (s : LiteralSet) : Bool := s.toList.any fun l => decide (l.complement ∈ s)

theorem isTautology_iff {s : LiteralSet} :
    s.isTautology = true ↔ ∃ l, l ∈ s ∧ l.complement ∈ s := by
  simp [isTautology, mem_iff]

/-- Some set of a list is contained in this one. -/
def isSubsumedBy (s : LiteralSet) (others : List LiteralSet) : Bool :=
  others.any fun t => decide (t ⊆ s)

theorem isSubsumedBy_iff {s : LiteralSet} {others : List LiteralSet} :
    s.isSubsumedBy others = true ↔ ∃ t ∈ others, t ⊆ s := by
  simp [isSubsumedBy]

/-- The members between braces, in order. -/
def text (s : LiteralSet) : String := Literal.listText s.toList

/-- Sets side by side, separated by commas. -/
def listText (sets : List LiteralSet) : String := ", ".intercalate (sets.map text)

end LiteralSet

end PropProver
