import Mathlib.Logic.Function.Basic
import PropProver.Proofs.Resolution.Completeness

/-!
# Renaming literals

A renaming gives every atom another name, different ones for different atoms, and turns the polarity
of some atoms round. It takes complementary literals to complementary ones, so everything that
clauses are used for commutes with it: inclusion, tautologies, and the resolvents.

The order of literals does not commute with renamings, and the resolvents of two clauses are listed
in this order. But as soon as one resolvent is no tautology it is the only one, and then the list is
renamed as a whole (`Renaming.resolvents_clause`).
-/

namespace PropProver

/-- An injective renaming of atoms that turns the polarity of some of them round. -/
structure Renaming where
  /-- The new name of an atom. -/
  atom : String → String
  /-- Different atoms get different names. -/
  injective : Function.Injective atom
  /-- Whether the polarity of an atom is turned round. -/
  flips : String → Bool

namespace Renaming

open LiteralSet

variable (r : Renaming)

/-! ### Literals -/

/-- The literal in the place of another one. -/
def literal (l : Literal) : Literal := ⟨r.atom l.atom, l.polarity ^^ r.flips l.atom⟩

theorem literal_complement (l : Literal) : r.literal l.complement = (r.literal l).complement := by
  simp [literal, Literal.complement]

theorem literal_injective : Function.Injective r.literal := by
  intro l m h
  obtain ⟨a, p⟩ := l
  obtain ⟨b, q⟩ := m
  obtain ⟨hatom, hpolarity⟩ := Literal.mk.inj h
  obtain rfl : a = b := r.injective hatom
  obtain rfl : p = q := Bool.xor_left_inj.1 hpolarity
  rfl

/-! ### Clauses -/

/-- The clause of the literals in the place of those of another one. -/
def clause (c : LiteralSet) : LiteralSet := .ofList (c.toList.map r.literal)

variable {r} {c d : LiteralSet} {l m : Literal}

@[simp] theorem mem_clause : m ∈ r.clause c ↔ ∃ l ∈ c, r.literal l = m := by
  rw [clause, mem_ofList, List.mem_map]
  rfl

@[simp] theorem literal_mem_clause : r.literal l ∈ r.clause c ↔ l ∈ c := by
  rw [mem_clause]
  constructor
  · rintro ⟨m, hm, h⟩
    rwa [← r.literal_injective h]
  · exact fun h => ⟨l, h, rfl⟩

@[simp] theorem complement_mem_clause :
    (r.literal l).complement ∈ r.clause c ↔ l.complement ∈ c := by
  rw [← literal_complement, literal_mem_clause]

theorem clause_subset_iff : r.clause c ⊆ r.clause d ↔ c ⊆ d := by
  simp only [subset_iff, mem_clause, forall_exists_index, and_imp, forall_apply_eq_imp_iff₂]
  exact forall_congr' fun l => imp_congr_right fun _ => by rw [← mem_clause, literal_mem_clause]

theorem clause_injective : Function.Injective r.clause := by
  intro c d h
  have hcd : r.clause c ⊆ r.clause d := by
    rw [h]
    exact subset_refl _
  have hdc : r.clause d ⊆ r.clause c := by
    rw [h]
    exact subset_refl _
  exact subset_antisymm (clause_subset_iff.1 hcd) (clause_subset_iff.1 hdc)

theorem clause_ofList (ls : List Literal) :
    r.clause (.ofList ls) = .ofList (ls.map r.literal) := by
  refine ext fun m => ?_
  simp

@[simp] theorem isEmpty_clause : (r.clause c).isEmpty = c.isEmpty := by
  rw [Bool.eq_iff_iff, LiteralSet.isEmpty_iff, LiteralSet.isEmpty_iff]
  exact clause_injective.eq_iff' rfl

@[simp] theorem isTautology_clause : (r.clause c).isTautology = c.isTautology := by
  rw [Bool.eq_iff_iff, isTautology_iff, isTautology_iff]
  constructor
  · rintro ⟨m, hm, hm'⟩
    obtain ⟨l, hl, rfl⟩ := mem_clause.1 hm
    exact ⟨l, hl, complement_mem_clause.1 hm'⟩
  · rintro ⟨l, hl, hl'⟩
    exact ⟨r.literal l, literal_mem_clause.2 hl, complement_mem_clause.2 hl'⟩

theorem covers_clause {cs : List LiteralSet} :
    Covers (cs.map r.clause) (r.clause c) ↔ Covers cs c := by
  simp only [Covers, List.mem_map, exists_exists_and_eq_and, clause_subset_iff]

@[simp] theorem isSubsumedBy_clause (cs : List LiteralSet) :
    (r.clause c).isSubsumedBy (cs.map r.clause) = c.isSubsumedBy cs := by
  rw [Bool.eq_iff_iff, isSubsumedBy_iff, isSubsumedBy_iff]
  exact covers_clause

/-! ### Resolvents -/

/-- A clause without a literal is renamed member by member. -/
theorem clause_erase : r.clause (c.erase l) = (r.clause c).erase (r.literal l) := by
  refine ext fun m => ?_
  simp only [mem_clause, mem_erase]
  constructor
  · rintro ⟨n, ⟨hn, hne⟩, rfl⟩
    exact ⟨⟨n, hn, rfl⟩, r.literal_injective.ne hne⟩
  · rintro ⟨⟨n, hn, rfl⟩, hne⟩
    exact ⟨n, ⟨hn, fun h => hne (h ▸ rfl)⟩, rfl⟩

theorem clause_union : r.clause (c ∪ d) = r.clause c ∪ r.clause d := by
  refine ext fun m => ?_
  simp only [mem_clause, mem_union, or_and_right, exists_or]

theorem clause_resolvent (l : Literal) :
    r.clause (c.erase l ∪ d.erase l.complement) =
      (r.clause c).erase (r.literal l) ∪ (r.clause d).erase (r.literal l).complement := by
  rw [clause_union, clause_erase, clause_erase, literal_complement]

/-- As a set, the resolvents are renamed with the clauses. -/
theorem mem_resolvents_clause {x : LiteralSet} :
    x ∈ resolvents (r.clause c) (r.clause d) ↔ ∃ y ∈ resolvents c d, r.clause y = x := by
  simp only [mem_resolvents]
  constructor
  · rintro ⟨m, hm, hm', rfl⟩
    obtain ⟨l, hl, rfl⟩ := mem_clause.1 hm
    exact ⟨_, ⟨l, hl, complement_mem_clause.1 hm', rfl⟩, clause_resolvent l⟩
  · rintro ⟨_, ⟨l, hl, hl', rfl⟩, rfl⟩
    exact ⟨r.literal l, literal_mem_clause.2 hl, complement_mem_clause.2 hl', clause_resolvent l⟩

/-- If one of the resolvents is no tautology, they are renamed with the clauses as a list. -/
theorem resolvents_clause {y : LiteralSet} (hy : y ∈ resolvents c d) (ht : y.isTautology = false) :
    resolvents (r.clause c) (r.clause d) = (resolvents c d).map r.clause := by
  obtain ⟨l, hl, hl', rfl⟩ := mem_resolvents.1 hy
  have ht' : ((r.clause c).erase (r.literal l) ∪
      (r.clause d).erase (r.literal l).complement).isTautology = false := by
    rw [← clause_resolvent, isTautology_clause, ht]
  rw [resolvents_eq_singleton hl hl' ht, resolvents_eq_singleton (literal_mem_clause.2 hl)
    (complement_mem_clause.2 hl') ht', ← clause_resolvent]
  rfl

end Renaming

end PropProver
