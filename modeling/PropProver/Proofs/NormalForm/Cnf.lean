import Mathlib.Algebra.BigOperators.Group.Multiset.Basic
import Mathlib.Algebra.Ring.Defs
import Mathlib.Data.Multiset.Bind
import PropProver.Proofs.Resolution.Entailment

/-!
# Conjunctions of disjunctions, counted

When it matters which clauses there are and how often, but not in which order, a conjunction of
clauses is a multiset of clauses, and a clause is a multiset of literals. Such conjunctions are a
commutative semiring: the sum of two is their conjunction, and the product is their disjunction,
which distributes over it. Zero is the empty conjunction, which is true, and one has the empty
clause alone, which is false.

An assignment makes a sum true if it makes both parts true, and a product if it makes one part true
(`Cnf.holds_add`, `Cnf.holds_mul`).
-/

namespace PropProver

/-- The disjunction of two conjunctions: a clause of the one joined with a clause of the other, in
all ways. -/
def joinClauses (C D : Multiset (Multiset Literal)) : Multiset (Multiset Literal) :=
  C.bind fun c => D.map fun d => c + d

theorem joinClauses_comm (C D : Multiset (Multiset Literal)) :
    joinClauses C D = joinClauses D C := by
  simp only [joinClauses]
  rw [Multiset.bind_map_comm]
  simp only [add_comm]

theorem joinClauses_assoc (C D E : Multiset (Multiset Literal)) :
    joinClauses (joinClauses C D) E = joinClauses C (joinClauses D E) := by
  simp only [joinClauses, Multiset.bind_assoc, Multiset.bind_map, Multiset.map_bind,
    Multiset.map_map, Function.comp_def, add_assoc]

theorem zero_joinClauses (C : Multiset (Multiset Literal)) : joinClauses 0 C = 0 :=
  Multiset.zero_bind _

theorem add_joinClauses (C D E : Multiset (Multiset Literal)) :
    joinClauses (C + D) E = joinClauses C E + joinClauses D E :=
  Multiset.add_bind ..

theorem joinClauses_add (C D E : Multiset (Multiset Literal)) :
    joinClauses C (D + E) = joinClauses C D + joinClauses C E := by
  rw [joinClauses_comm, add_joinClauses, joinClauses_comm D, joinClauses_comm E]

theorem singleton_joinClauses (c : Multiset Literal) (D : Multiset (Multiset Literal)) :
    joinClauses {c} D = D.map fun d => c + d :=
  Multiset.singleton_bind ..

theorem one_joinClauses (C : Multiset (Multiset Literal)) : joinClauses {0} C = C := by
  simp [singleton_joinClauses]

/-- A conjunction of disjunctions of literals, without order. -/
def Cnf : Type := Multiset (Multiset Literal)

namespace Cnf

/-- The conjunction of given clauses. -/
def ofClauses (cs : List (Multiset Literal)) : Cnf := Multiset.ofList cs

/-- The conjunction of given lists of literals. -/
def ofList (cs : List (List Literal)) : Cnf := ofClauses (cs.map Multiset.ofList)

/-- The conjunction of a single clause. -/
def single (c : Multiset Literal) : Cnf := ({c} : Multiset (Multiset Literal))

instance : Membership (Multiset Literal) Cnf := inferInstanceAs (Membership _ (Multiset _))

instance : AddCommMonoid Cnf := inferInstanceAs (AddCommMonoid (Multiset (Multiset Literal)))

instance : CommSemiring Cnf where
  mul := joinClauses
  one := single 0
  zero_mul := zero_joinClauses
  mul_zero C := (joinClauses_comm C 0).trans (zero_joinClauses C)
  one_mul := one_joinClauses
  mul_one C := (joinClauses_comm C (single 0)).trans (one_joinClauses C)
  mul_assoc := joinClauses_assoc
  mul_comm := joinClauses_comm
  right_distrib := add_joinClauses
  left_distrib := joinClauses_add
  nsmul := nsmulRec

instance : IsCancelAdd Cnf := inferInstanceAs (IsCancelAdd (Multiset (Multiset Literal)))

theorem one_def : (1 : Cnf) = single 0 := rfl

@[simp] theorem mem_single {c d : Multiset Literal} : c ∈ single d ↔ c = d :=
  Multiset.mem_singleton

@[simp] theorem not_mem_zero (c : Multiset Literal) : c ∉ (0 : Cnf) := Multiset.notMem_zero c

@[simp] theorem mem_add {c : Multiset Literal} {C D : Cnf} : c ∈ C + D ↔ c ∈ C ∨ c ∈ D :=
  Multiset.mem_add

theorem mem_mul {e : Multiset Literal} {C D : Cnf} :
    e ∈ C * D ↔ ∃ c ∈ C, ∃ d ∈ D, c + d = e :=
  Multiset.mem_bind.trans (exists_congr fun _ => and_congr_right fun _ => Multiset.mem_map)

/-- Clauses are joined as their literals are. -/
theorem single_mul_single (c d : Multiset Literal) : single c * single d = single (c + d) :=
  singleton_joinClauses c {d}

@[simp] theorem mem_ofList {c : Multiset Literal} {cs : List (List Literal)} :
    c ∈ ofList cs ↔ ∃ ls ∈ cs, Multiset.ofList ls = c :=
  Multiset.mem_coe.trans List.mem_map

theorem ofClauses_cons (c : Multiset Literal) (cs : List (Multiset Literal)) :
    ofClauses (c :: cs) = single c + ofClauses cs := rfl

theorem ofClauses_eq_iff {cs ds : List (Multiset Literal)} :
    ofClauses cs = ofClauses ds ↔ cs.Perm ds :=
  Multiset.coe_eq_coe

theorem ofList_cons (c : List Literal) (cs : List (List Literal)) :
    ofList (c :: cs) = single c + ofList cs := rfl

/-! ### Truth -/

/-- Every clause has a true literal. -/
def Holds (v : Assignment) (C : Cnf) : Prop := ∀ c ∈ C, ∃ l ∈ c, l.eval v = true

variable {v : Assignment}

theorem holds_zero : (0 : Cnf).Holds v := fun c hc => absurd hc (not_mem_zero c)

theorem holds_single {c : Multiset Literal} : (single c).Holds v ↔ ∃ l ∈ c, l.eval v = true := by
  constructor
  · exact fun h => h c (mem_single.2 rfl)
  · intro h d hd
    rwa [mem_single.1 hd]

theorem not_holds_one : ¬ (1 : Cnf).Holds v := by
  rw [one_def, holds_single]
  rintro ⟨l, hl, -⟩
  exact Multiset.notMem_zero l hl

theorem holds_add {C D : Cnf} : (C + D).Holds v ↔ C.Holds v ∧ D.Holds v := by
  simp only [Holds, mem_add, or_imp, forall_and]

/-- If neither part holds, each has a clause without a true literal, and so has the product. -/
theorem holds_mul {C D : Cnf} : (C * D).Holds v ↔ C.Holds v ∨ D.Holds v := by
  constructor
  · intro h
    by_contra hcon
    simp only [not_or, Holds, not_forall] at hcon
    obtain ⟨⟨c, hc, hcv⟩, ⟨d, hd, hdv⟩⟩ := hcon
    obtain ⟨l, hl, ht⟩ := h (c + d) (mem_mul.2 ⟨c, hc, d, hd, rfl⟩)
    rcases Multiset.mem_add.1 hl with hl | hl
    · exact hcv ⟨l, hl, ht⟩
    · exact hdv ⟨l, hl, ht⟩
  · intro h e he
    obtain ⟨c, hc, d, hd, rfl⟩ := mem_mul.1 he
    rcases h with h | h
    · obtain ⟨l, hl, ht⟩ := h c hc
      exact ⟨l, Multiset.mem_add.2 (.inl hl), ht⟩
    · obtain ⟨l, hl, ht⟩ := h d hd
      exact ⟨l, Multiset.mem_add.2 (.inr hl), ht⟩

theorem holds_sum {Cs : List Cnf} : Cs.sum.Holds v ↔ ∀ C ∈ Cs, C.Holds v := by
  induction Cs with
  | nil => simp [holds_zero]
  | cons C Cs ih => rw [List.sum_cons, holds_add, ih, List.forall_mem_cons]

theorem holds_prod {Cs : List Cnf} : Cs.prod.Holds v ↔ ∃ C ∈ Cs, C.Holds v := by
  induction Cs with
  | nil => simp [not_holds_one]
  | cons C Cs ih => rw [List.prod_cons, holds_mul, ih, List.exists_mem_cons_iff]

theorem holds_ofList {cs : List (List Literal)} : (ofList cs).Holds v ↔ v.Satisfies cs := by
  simp [Holds, Assignment.Satisfies]

end Cnf

end PropProver
