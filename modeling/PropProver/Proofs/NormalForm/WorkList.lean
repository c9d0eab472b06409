import Mathlib.Tactic.Ring.RingNF
import PropProver.NormalForm.Basic
import PropProver.Proofs.NormalForm.Cnf

/-!
# What the work list comes to

`Formula.cnf` reads the rows of a table as the equations of a function: the clauses of a formula, or
of its negation, from those of its parts. The work list takes formulas apart in an order of its own,
but the clauses of what is on it never change (`Expansion.cnf_successors`). So the normal form has
exactly the clauses of the formula, with exactly their literals (`NormalForm.exists_ofPending`,
`Formula.ofList_normalForm`).

With the classical table, the clauses of a formula hold where the formula is true, and those of its
negation where it is false (`Formula.holds_cnf`).
-/

namespace PropProver

universe u

variable {ι : Type u}

/-! ### What stands in a clause -/

theorem Tree.eq_toTree_of_view {x : Tree ι} {l : Literal} (h : x.view = .literal l) :
    x = l.toTree := by
  unfold view at h
  split at h <;> cases h <;> rfl

theorem Tree.toTree_of_view {x : Tree ι} {k : Compound ι} (h : x.view = .compound k) :
    k.toTree = x := by
  unfold view at h
  split at h <;> cases h <;> rfl

/-- A finished clause is the list of its literals. -/
theorem Clause.eq_map_of_focus {c : Clause ι} {ls : List Literal} (h : c.focus = .finished ls) :
    c = ls.map Literal.toTree := by
  induction c generalizing ls with
  | nil =>
    cases h
    rfl
  | cons x xs ih =>
    unfold focus at h
    split at h
    · next l hl =>
      cases hf : focus xs with
      | finished ms =>
        rw [hf] at h
        cases h
        rw [List.map_cons, ← ih hf, Tree.eq_toTree_of_view hl]
      | compound k rest =>
        rw [hf] at h
        cases h
      | faulty f =>
        rw [hf] at h
        cases h
    · cases h
    · cases h

/-- Before the first compound of a clause stand literals, and the rest keeps its order. -/
theorem Clause.exists_append_of_focus {c rest : Clause ι} {k : Compound ι}
    (h : c.focus = .compound k rest) :
    ∃ (ls : List Literal) (xs : List (Tree ι)),
      c = ls.map Literal.toTree ++ k.toTree :: xs ∧ rest = ls.map Literal.toTree ++ xs := by
  induction c generalizing rest with
  | nil => cases h
  | cons x xs ih =>
    unfold focus at h
    split at h
    · next l hl =>
      cases hf : focus xs with
      | finished ms =>
        rw [hf] at h
        cases h
      | compound k' rest' =>
        rw [hf] at h
        cases h
        obtain ⟨ls, ys, rfl, rfl⟩ := ih hf
        rw [Tree.eq_toTree_of_view hl]
        exact ⟨l :: ls, ys, rfl, rfl⟩
      | faulty f =>
        rw [hf] at h
        cases h
    · next k' hk =>
      cases h
      exact ⟨[], xs, by rw [Tree.toTree_of_view hk]; rfl, rfl⟩
    · cases h

/-- The clauses that an expansion leads to are the rest with each of the parts. -/
theorem Expansion.successors_eq {e : Expansion ι} {rest : Clause ι} {new : List (Clause ι)}
    (h : e.successors rest = .ok new) : new = e.parts.map (rest ++ ·) := by
  cases e with
  | extend r p =>
    obtain ⟨c, hc, rfl⟩ := exists_of_successors_extend h
    rw [Clause.extend_eq hc]
    rfl
  | split r p q =>
    obtain ⟨c, d, hc, hd, rfl⟩ := exists_of_successors_split h
    rw [Clause.extend_eq hc, Clause.extend_eq hd]
    rfl

/-- The new clauses are added to the work list, at one end or at the other. -/
theorem Expansion.toList_requeue_perm (e : Expansion ι) (new : List (Clause ι))
    (pending : Queue (Clause ι)) :
    (e.requeue new pending).toList.Perm (new ++ pending.toList) := by
  unfold requeue
  split
  · rw [Queue.toList_append]
    exact List.perm_append_comm
  · rw [Queue.toList_prepend]

/-! ### The clauses of a formula -/

/-- The clauses of a formula (`true`) or of its negation (`false`), by the rows of a table. -/
def Formula.cnf (t : Table) : Bool → Formula → Cnf
  | p, .atom a => .single {⟨a, p⟩}
  | p, .neg x => cnf t (!p) x
  | true, .bin .and l r => cnf t true l + cnf t true r
  | true, .bin .or l r => cnf t true l * cnf t true r
  | true, .bin .imply l r => cnf t false l * cnf t true r
  | true, .bin .iff l r =>
    match t with
    | .classical => cnf t false l * cnf t true r + cnf t true l * cnf t false r
    | .uniform => cnf t true l + cnf t false r
  | false, .bin .and l r =>
    match t with
    | .classical => cnf t false l * cnf t false r
    | .uniform => cnf t false l + cnf t false r
  | false, .bin .or l r =>
    match t with
    | .classical => cnf t false l + cnf t false r
    | .uniform => cnf t false l * cnf t false r
  | false, .bin .imply l r =>
    match t with
    | .classical => cnf t true l + cnf t false r
    | .uniform => cnf t true l * cnf t true r
  | false, .bin .iff l r =>
    match t with
    | .classical => cnf t true l * cnf t true r + cnf t false l * cnf t false r
    | .uniform => cnf t false l + cnf t false r

/-- The clauses of a disjunction of formulas. -/
def Clause.cnf (t : Table) (c : Clause Empty) : Cnf := (c.map (Formula.cnf t true)).prod

theorem Clause.cnf_append (t : Table) (c d : Clause Empty) :
    Clause.cnf t (c ++ d) = Clause.cnf t c * Clause.cnf t d := by
  rw [cnf, List.map_append, List.prod_append]
  rfl

theorem Formula.cnf_toTree (t : Table) (l : Literal) :
    Formula.cnf t true l.toTree = .single {l} := by
  obtain ⟨a, p⟩ := l
  cases p <;> rfl

/-- The clauses of a disjunction of literals are that disjunction alone. -/
theorem Clause.cnf_map_toTree (t : Table) (ls : List Literal) :
    Clause.cnf t (ls.map Literal.toTree) = .single ls := by
  induction ls with
  | nil => rfl
  | cons l ls ih =>
    rw [cnf] at ih
    rw [cnf, List.map_cons, List.map_cons, List.prod_cons, ih, Formula.cnf_toTree,
      Cnf.single_mul_single]
    rfl

/-- A row of a table says how the clauses of a compound come from those of the parts. -/
theorem Table.cnf_expand (t : Table) (k : Compound Empty) :
    ((t.expand k).parts.map (Clause.cnf t)).sum = Formula.cnf t true k.toTree := by
  rcases k with x | ⟨op, l, r⟩ | ⟨op, l, r⟩
  · simp [expand, Expansion.parts, Clause.cnf, Compound.toTree, Formula.cnf]
  · cases op <;> cases t <;>
      simp [expand, expandBinary, Expansion.parts, Clause.cnf, Compound.toTree, Formula.cnf]
  · cases op <;> cases t <;>
      simp [expand, expandNegated, Expansion.parts, Clause.cnf, Compound.toTree, Formula.cnf]

/-- A table replaces every formula but the literals, and what it puts in their place comes to the
same clauses. -/
theorem Table.expand?_cases (t : Table) (f : Formula) :
    (∃ l : Literal, f = l.toTree ∧ t.expand? f = .ok none) ∨
      ∃ e, t.expand? f = .ok (some e) ∧
        (e.parts.map (Clause.cnf t)).sum = Formula.cnf t true f := by
  unfold expand?
  cases hview : f.view with
  | literal l => exact .inl ⟨l, Tree.eq_toTree_of_view hview, rfl⟩
  | compound k =>
    refine .inr ⟨t.expand k, rfl, ?_⟩
    rw [cnf_expand, Tree.toTree_of_view hview]
  | faulty e =>
    cases e with
    | operand v | negation v => exact v.elim

/-- An expansion does not change the clauses that a clause comes to. -/
theorem Expansion.cnf_successors {t : Table} {c rest : Clause Empty} {k : Compound Empty}
    {new : List (Clause Empty)} (hf : c.focus = .compound k rest)
    (hn : (t.expand k).successors rest = .ok new) :
    (new.map (Clause.cnf t)).sum = Clause.cnf t c := by
  obtain ⟨ls, xs, rfl, rfl⟩ := Clause.exists_append_of_focus hf
  have hk : Clause.cnf t (k.toTree :: xs) = Formula.cnf t true k.toTree * Clause.cnf t xs := by
    rw [Clause.cnf, List.map_cons, List.prod_cons]
    rfl
  rw [Clause.cnf_append, hk, ← Table.cnf_expand, Expansion.successors_eq hn, List.map_map]
  cases t.expand k with
  | extend r p =>
    simp only [parts, List.map_cons, List.map_nil, List.sum_cons, List.sum_nil,
      Function.comp_apply, Clause.cnf_append]
    ring
  | split r p q =>
    simp only [parts, List.map_cons, List.map_nil, List.sum_cons, List.sum_nil,
      Function.comp_apply, Clause.cnf_append]
    ring

/-! ### The work list -/

namespace NormalForm

theorem ofPending_of_none {t : Table} {pending : Queue (Clause ι)} (h : pending.pop? = none) :
    ofPending t pending = .ok ⟨[], []⟩ := by
  rw [ofPending]
  split
  · rfl
  · next hp =>
    rw [h] at hp
    cases hp

/-- The first clause of the work list is finished, or its first compound is expanded. -/
theorem ofPending_of_some {t : Table} {pending cs : Queue (Clause ι)} {c : Clause ι}
    (h : pending.pop? = some (c, cs)) :
    ofPending t pending =
      match c.focus with
      | .faulty f => .error f
      | .finished ls => (ofPending t cs).map fun n => { n with clauses := ls :: n.clauses }
      | .compound k others =>
        match (t.expand k).successors others with
        | .error f => .error f
        | .ok new => (ofPending t ((t.expand k).requeue new cs)).map fun n =>
          { n with rewritings := ⟨(t.expand k).rule, k, c⟩ :: n.rewritings } := by
  rw [ofPending]
  split
  · next hp =>
    rw [h] at hp
    cases hp
  · next hp =>
    rw [h] at hp
    cases hp
    split
    · next hf => rw [hf]
    · next hf =>
      rw [hf]
      rfl
    · next hf =>
      rw [hf]
      split
      · next hn => simp only [hn]
      · next hn =>
        simp only [hn]
        rfl

/-- A finished clause is the first of the normal form. -/
theorem exists_of_ofPending_finished {t : Table} {pending cs : Queue (Clause ι)} {c : Clause ι}
    {ls : List Literal} {n : NormalForm ι} (h : pending.pop? = some (c, cs))
    (hf : c.focus = .finished ls) (hn : ofPending t pending = .ok n) :
    ∃ n', ofPending t cs = .ok n' ∧ n = { n' with clauses := ls :: n'.clauses } := by
  rw [ofPending_of_some h, hf] at hn
  cases hcs : ofPending t cs with
  | error f =>
    rw [hcs] at hn
    cases hn
  | ok n' =>
    rw [hcs] at hn
    cases hn
    exact ⟨n', rfl, rfl⟩

/-- An expansion is the first of the normal form, and the work goes on with what it leads to. -/
theorem exists_of_ofPending_compound {t : Table} {pending cs : Queue (Clause ι)}
    {c rest : Clause ι} {k : Compound ι} {new : List (Clause ι)} {n : NormalForm ι}
    (h : pending.pop? = some (c, cs)) (hf : c.focus = .compound k rest)
    (hnew : (t.expand k).successors rest = .ok new) (hn : ofPending t pending = .ok n) :
    ∃ n', ofPending t ((t.expand k).requeue new cs) = .ok n' ∧
      n = { n' with rewritings := ⟨(t.expand k).rule, k, c⟩ :: n'.rewritings } := by
  rw [ofPending_of_some h, hf] at hn
  simp only [hnew] at hn
  cases hcs : ofPending t ((t.expand k).requeue new cs) with
  | error f =>
    rw [hcs] at hn
    cases hn
  | ok n' =>
    rw [hcs] at hn
    cases hn
    exact ⟨n', rfl, rfl⟩

/-- The work list starts with the tree alone. -/
theorem ofTree_of_not_foreign (t : Table) {x : Tree ι} (h : x.isForeign = false) :
    ofTree t x = (ofPending t (.singleton [x])).mapError .fault := by
  cases x with
  | foreign v => cases h
  | _ => rfl

/-- Among formulas nothing is at fault. -/
theorem not_fault (f : Fault Empty) : False := by
  cases f with
  | operand v => exact v.elim
  | negation v => exact v.elim

/-- A work list of formulas is worked off to the clauses that it comes to. -/
theorem exists_ofPending (t : Table) (pending : Queue (Clause Empty)) :
    ∃ n, ofPending t pending = .ok n ∧
      Cnf.ofList n.clauses = (pending.toList.map (Clause.cnf t)).sum := by
  induction pending using ofPending.induct t with
  | case1 pending hp =>
    refine ⟨_, ofPending_of_none hp, ?_⟩
    rw [Queue.pop?_eq_none_iff.1 hp]
    rfl
  | case2 pending c cs hp f hf => exact (not_fault f).elim
  | case3 pending c cs hp ls hf ih =>
    obtain ⟨n, hn, hcnf⟩ := ih
    refine ⟨{ n with clauses := ls :: n.clauses }, ?_, ?_⟩
    · rw [ofPending_of_some hp, hf, hn]
      rfl
    · rw [Queue.toList_of_pop? hp, List.map_cons, List.sum_cons, ← hcnf, Cnf.ofList_cons,
        Clause.eq_map_of_focus hf, Clause.cnf_map_toTree]
  | case4 pending c cs hp k others hf f hn => exact (not_fault f).elim
  | case5 pending c cs hp k others hf new hn ih =>
    obtain ⟨n, hn', hcnf⟩ := ih
    refine ⟨{ n with rewritings := ⟨(t.expand k).rule, k, c⟩ :: n.rewritings }, ?_, ?_⟩
    · rw [ofPending_of_some hp, hf]
      simp only [hn, hn']
      rfl
    · show Cnf.ofList n.clauses = _
      have hperm := ((t.expand k).toList_requeue_perm new cs).map (Clause.cnf t)
      rw [hcnf, hperm.sum_eq, List.map_append, List.sum_append, Expansion.cnf_successors hf hn,
        Queue.toList_of_pop? hp, List.map_cons, List.sum_cons]

end NormalForm

namespace Formula

theorem ofTree_eq_ok_normalForm (t : Table) (f : Formula) :
    NormalForm.ofTree t f = .ok (f.normalForm t) := by
  unfold normalForm
  split
  · assumption
  · next v _ => exact v.elim
  · next v _ => exact v.elim
  · next v _ => exact v.elim

theorem ofPending_eq_ok_normalForm (t : Table) (f : Formula) :
    NormalForm.ofPending t (.singleton [f]) = .ok (f.normalForm t) := by
  have hof := NormalForm.ofTree_of_not_foreign t f.isForeign_formula
  rw [ofTree_eq_ok_normalForm] at hof
  cases hn : NormalForm.ofPending t (.singleton [f]) with
  | error f => exact (NormalForm.not_fault f).elim
  | ok n =>
    rw [hn] at hof
    cases hof
    rfl

/-- The clauses of the normal form are those that the rows of the table give, each as often and with
each literal as often. -/
theorem ofList_normalForm (t : Table) (f : Formula) :
    Cnf.ofList (f.normalForm t).clauses = f.cnf t true := by
  obtain ⟨n, hn, hcnf⟩ := NormalForm.exists_ofPending t (.singleton [f])
  rw [ofPending_eq_ok_normalForm] at hn
  cases hn
  rw [hcnf, Queue.toList_singleton, List.map_singleton, List.sum_singleton, Clause.cnf,
    List.map_singleton, List.prod_singleton]

/-- **Normal forms, clause by clause**: every formula has a normal form by either table. As a
multiset of clauses, each a multiset of literals, it is what the rows of the table make of the
formula, where the clauses of a conjunction are those of both parts together, and the clauses of a
disjunction are all joins of a clause of the one part with a clause of the other. -/
theorem exists_ofTree_eq_cnf (t : Table) (f : Formula) :
    ∃ n, NormalForm.ofTree t f = .ok n ∧ Cnf.ofList n.clauses = f.cnf t true :=
  ⟨f.normalForm t, ofTree_eq_ok_normalForm t f, ofList_normalForm t f⟩

/-- Clauses that come out alike are not merged, and neither are literals. -/
example : Formula.cnf .classical true (.bin .or (.bin .and (.atom "P") (.atom "Q"))
      (.bin .and (.atom "P") (.atom "Q"))) =
    Cnf.ofList [[⟨"P", true⟩, ⟨"P", true⟩], [⟨"P", true⟩, ⟨"Q", true⟩],
      [⟨"Q", true⟩, ⟨"P", true⟩], [⟨"Q", true⟩, ⟨"Q", true⟩]] := rfl

/-! ### Truth -/

/-- With the classical table, the clauses of a formula hold where the formula is true, and those of
its negation where it is false. -/
theorem holds_cnf (v : Assignment) (f : Formula) (p : Bool) :
    (f.cnf .classical p).Holds v ↔ f.eval v = p := by
  induction f generalizing p with
  | atom a => simp [cnf, Cnf.holds_single, Literal.eval, eval]
  | neg x ih =>
    rw [cnf, ih, eval]
    cases p <;> cases eval v x <;> simp
  | bin op l r ihl ihr =>
    cases p <;> cases op <;>
      simp only [cnf, Cnf.holds_add, Cnf.holds_mul, ihl, ihr, eval, Connective.eval] <;>
      cases eval v l <;> cases eval v r <;> simp
  | foreign v => exact v.elim

/-- The normal form by the classical table is equivalent to the formula. -/
theorem satisfies_normalForm (v : Assignment) (f : Formula) :
    v.Satisfies (f.normalForm .classical).clauses ↔ f.eval v = true := by
  rw [← Cnf.holds_ofList, ofList_normalForm, holds_cnf]

end Formula

end PropProver
