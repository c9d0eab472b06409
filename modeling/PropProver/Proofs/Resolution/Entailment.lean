import Mathlib.Data.List.Nodup
import PropProver.Formula.Meaning
import PropProver.Refutation.Inference

/-!
# Truth and entailment of clauses

A clause holds under an assignment if one of its literals is true, and an assignment satisfies a
list of clauses if all of them hold. A property `M` of assignments, such as satisfying the clauses
of an input, entails the clauses that hold under every assignment with the property. Of the
entailed clauses that are no tautologies, the prime implicates are the smallest.

What makes resolution sound is here as well: a resolvent holds wherever both of its parents hold
(`LiteralSet.Holds.resolvent`). Two clauses that clash in more than one literal have no resolvents but
tautologies, so a resolvent that is no tautology is the only one
(`LiteralSet.resolvents_eq_singleton`).
-/

namespace PropProver

/-- Every clause of a list has a true literal. -/
def Assignment.Satisfies (v : Assignment) (cs : List (List Literal)) : Prop :=
  ∀ c ∈ cs, ∃ l ∈ c, l.eval v = true

theorem Literal.eval_complement (v : Assignment) (l : Literal) :
    l.complement.eval v = !l.eval v := by
  obtain ⟨a, p⟩ := l
  cases p <;> cases h : v a <;> simp [eval, complement, h]

/-- Literals of the same atom are equal or complementary. -/
theorem Literal.eq_or_eq_complement {l m : Literal} (h : l.atom = m.atom) :
    l = m ∨ l = m.complement := by
  obtain ⟨a, p⟩ := l
  obtain ⟨b, q⟩ := m
  cases h
  cases p <;> cases q <;> simp [complement]

namespace LiteralSet

/-- The clause has a true literal. -/
def Holds (v : Assignment) (c : LiteralSet) : Prop := ∃ l ∈ c, l.eval v = true

theorem Holds.mono {v : Assignment} {c d : LiteralSet} (hcd : c ⊆ d) (h : c.Holds v) :
    d.Holds v := by
  obtain ⟨l, hl, ht⟩ := h
  exact ⟨l, hcd l hl, ht⟩

theorem not_holds_empty (v : Assignment) : ¬ (∅ : LiteralSet).Holds v := by
  rintro ⟨l, hl, -⟩
  exact not_mem_empty l hl

theorem holds_ofList {v : Assignment} {ls : List Literal} :
    (ofList ls).Holds v ↔ ∃ l ∈ ls, l.eval v = true := by
  simp [Holds]

theorem forall_holds_map_ofList {v : Assignment} {cs : List (List Literal)} :
    (∀ c ∈ cs.map ofList, c.Holds v) ↔ v.Satisfies cs := by
  simp [Assignment.Satisfies, holds_ofList]

/-- A clause with complementary literals holds everywhere. -/
theorem holds_of_isTautology {c : LiteralSet} (h : c.isTautology = true) (v : Assignment) :
    c.Holds v := by
  obtain ⟨l, hl, hl'⟩ := isTautology_iff.1 h
  cases ht : l.eval v with
  | true => exact ⟨l, hl, ht⟩
  | false => exact ⟨l.complement, hl', by rw [Literal.eval_complement, ht]; rfl⟩

theorem isTautology_eq_false_iff {c : LiteralSet} :
    c.isTautology = false ↔ ∀ l ∈ c, l.complement ∉ c := by
  rw [← Bool.not_eq_true, isTautology_iff]
  constructor
  · exact fun h l hl hl' => h ⟨l, hl, hl'⟩
  · rintro h ⟨l, hl, hl'⟩
    exact h l hl hl'

/-- A part of a clause without complementary literals has none either. -/
theorem isTautology_of_subset {c d : LiteralSet} (hcd : c ⊆ d) (hd : d.isTautology = false) :
    c.isTautology = false := by
  rw [isTautology_eq_false_iff] at *
  exact fun l hl hl' => hd l (hcd l hl) (hcd _ hl')

/-! ### Entailment -/

/-- The clause holds under every assignment with a property. -/
def Entailed (M : Assignment → Prop) (c : LiteralSet) : Prop := ∀ v, M v → c.Holds v

/-- A prime implicate: an entailed clause that is no tautology and has no smaller entailed
clause in it. -/
structure PrimeImplicate (M : Assignment → Prop) (c : LiteralSet) : Prop where
  /-- No literal occurs with its complement. -/
  not_tautology : c.isTautology = false
  /-- The clause is entailed. -/
  entailed : c.Entailed M
  /-- No proper part of the clause is entailed. -/
  minimal : ∀ d, d ⊆ c → d ≠ c → ¬ d.Entailed M

/-! ### Resolvents -/

theorem mem_resolvents {c d r : LiteralSet} :
    r ∈ resolvents c d ↔ ∃ l ∈ c, l.complement ∈ d ∧ r = c.erase l ∪ d.erase l.complement := by
  simp only [resolvents, List.mem_eraseDups, List.mem_map, List.mem_filter, decide_eq_true_eq]
  constructor
  · rintro ⟨l, ⟨hl, hl'⟩, rfl⟩
    exact ⟨l, hl, hl', rfl⟩
  · rintro ⟨l, hl, hl', rfl⟩
    exact ⟨l, ⟨hl, hl'⟩, rfl⟩

/-- The literals of a resolvent come from its parents. -/
theorem mem_of_mem_resolvents {c d r : LiteralSet} (h : r ∈ resolvents c d) {l : Literal}
    (hl : l ∈ r) : l ∈ c ∨ l ∈ d := by
  obtain ⟨m, -, -, rfl⟩ := mem_resolvents.1 h
  rw [mem_union, mem_erase, mem_erase] at hl
  exact hl.imp And.left And.left

/-- The same resolvents arise in either order of the parents. -/
theorem resolvents_symm {c d r : LiteralSet} (h : r ∈ resolvents c d) : r ∈ resolvents d c := by
  obtain ⟨l, hl, hl', rfl⟩ := mem_resolvents.1 h
  refine mem_resolvents.2 ⟨l.complement, hl', by rwa [Literal.complement_complement], ?_⟩
  rw [Literal.complement_complement]
  refine ext fun m => ?_
  rw [mem_union, mem_union]
  exact or_comm

/-- A clause without complementary literals has no resolvent with itself. -/
theorem resolvents_self {c r : LiteralSet} (hc : c.isTautology = false) : r ∉ resolvents c c := by
  intro h
  obtain ⟨l, hl, hl', -⟩ := mem_resolvents.1 h
  exact isTautology_eq_false_iff.1 hc l hl hl'

/-- Resolution is sound: a literal that is cancelled is false itself or has a false complement, so
one of the parents keeps its true literal. -/
theorem Holds.resolvent {v : Assignment} {c d r : LiteralSet} (h : r ∈ resolvents c d)
    (hc : c.Holds v) (hd : d.Holds v) : r.Holds v := by
  obtain ⟨l, -, -, rfl⟩ := mem_resolvents.1 h
  obtain ⟨m, hm, hmt⟩ := hc
  obtain ⟨n, hn, hnt⟩ := hd
  by_cases hml : m = l
  · subst hml
    have hnm : n ≠ m.complement := by
      rintro rfl
      rw [Literal.eval_complement, hmt] at hnt
      exact Bool.noConfusion hnt
    exact ⟨n, mem_union.2 (.inr (mem_erase.2 ⟨hn, hnm⟩)), hnt⟩
  · exact ⟨m, mem_union.2 (.inl (mem_erase.2 ⟨hm, hml⟩)), hmt⟩

/-! ### Resolvents that are no tautologies -/

theorem nodup_toList (c : LiteralSet) : c.toList.Nodup :=
  c.increasing.imp fun {l m} (hlt : l < m) (e : l = m) => Literal.lt_irrefl m (e ▸ hlt)

/-- Clauses whose resolvent is no tautology clash in no other literal. -/
theorem eq_of_clash {c d : LiteralSet} {l m : Literal}
    (ht : (c.erase l ∪ d.erase l.complement).isTautology = false) (hm : m ∈ c)
    (hm' : m.complement ∈ d) : m = l := by
  by_contra hml
  have hne : m.complement ≠ l.complement := fun h => hml (by
    rw [← Literal.complement_complement m, h, Literal.complement_complement])
  refine isTautology_eq_false_iff.1 ht m (mem_union.2 (.inl (mem_erase.2 ⟨hm, hml⟩))) ?_
  exact mem_union.2 (.inr (mem_erase.2 ⟨hm', hne⟩))

/-- A resolvent that is no tautology is the only one. -/
theorem resolvents_eq_singleton {c d : LiteralSet} {l : Literal} (hl : l ∈ c)
    (hl' : l.complement ∈ d) (ht : (c.erase l ∪ d.erase l.complement).isTautology = false) :
    resolvents c d = [c.erase l ∪ d.erase l.complement] := by
  have hclash : c.toList.filter (fun m => decide (m.complement ∈ d)) = [l] := by
    have honly : c.toList.filter (fun m => decide (m.complement ∈ d)) =
        c.toList.filter (· == l) := by
      refine List.filter_congr fun m hm => ?_
      rw [beq_eq_decide, decide_eq_decide]
      exact ⟨eq_of_clash ht hm, fun h => h ▸ hl'⟩
    rw [honly, List.filter_beq, List.count_eq_one_of_mem c.nodup_toList hl]
    rfl
  rw [resolvents, hclash]
  rfl

end LiteralSet

end PropProver
