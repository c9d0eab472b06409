import PropProver.NormalForm.Table
import PropProver.Queue

/-!
# Conjunctive normal form

A formula is brought into conjunctive normal form on a work list of clauses that starts with the
formula alone. The first clause of the list is looked at: if it has literals only, it is finished;
otherwise its first compound is expanded, and the resulting clause takes the place of the old
one, or the two resulting clauses go to the end of the list. A new clause holds the other members
of the old one, in order, and then the part of the expansion.

The work ends since every expansion lowers the weight of its clause (`Table.totalWeight_part_lt`).
A foreign value in the place of a formula is noticed when it would become the member of a clause,
or when its negation is due for expansion.
-/

namespace PropProver

universe u

variable {ι : Type u}

/-! ### One clause -/

/-- What is to be done with a clause. -/
inductive Clause.Focus (ι : Type u) where
  /-- Nothing: all members are literals. -/
  | finished (literals : List Literal)
  /-- The first compound is to be expanded; the rest are the other members. -/
  | compound (c : Compound ι) (rest : Clause ι)
  /-- Before any compound stands something that is no formula. -/
  | faulty (f : Fault ι)
  deriving DecidableEq, Repr

/-- The same with one more literal at the head of the clause. -/
def Clause.Focus.cons (t : Tree ι) (l : Literal) : Clause.Focus ι → Clause.Focus ι
  | .finished ls => .finished (l :: ls)
  | .compound c rest => .compound c (t :: rest)
  | .faulty f => .faulty f

/-- Looks for the first member of a clause that is no literal. -/
def Clause.focus : Clause ι → Clause.Focus ι
  | [] => .finished []
  | t :: ts =>
    match t.view with
    | .literal l => (focus ts).cons t l
    | .compound c => .compound c ts
    | .faulty f => .faulty f

/-- The clauses that an expansion leads to, given the other members of the clause. -/
def Expansion.successors (rest : Clause ι) : Expansion ι → Except (Fault ι) (List (Clause ι))
  | .extend _ p => do return [← (rest.extend p).mapError .operand]
  | .split _ p q => do
    let c ← (rest.extend p).mapError .operand
    let d ← (rest.extend q).mapError .operand
    return [c, d]

/-- The work list after an expansion: one clause takes the first place, two go to the end. -/
def Expansion.requeue (e : Expansion ι) (new : List (Clause ι)) (pending : Queue (Clause ι)) :
    Queue (Clause ι) :=
  if e.branches then pending.append new else pending.prepend new

/-! ### Why the work ends -/

/-- A bound for the number of clauses that are looked at on account of one clause. -/
def Clause.effort (c : Clause ι) : Nat := Weight.effort (Weight.total Tree.weight c)

/-- A bound for the number of clauses that are looked at on account of a work list. -/
def Clause.totalEffort (pending : Queue (Clause ι)) : Nat :=
  Weight.total Clause.effort pending.toList

theorem Clause.totalEffort_of_pop? {pending cs : Queue (Clause ι)} {c : Clause ι}
    (h : pending.pop? = some (c, cs)) : totalEffort pending = c.effort + totalEffort cs := by
  rw [totalEffort, Queue.toList_of_pop? h]
  rfl

theorem Clause.effort_pos (c : Clause ι) : 0 < c.effort := Weight.effort_pos _

theorem Clause.weight_focus {c rest : Clause ι} {k : Compound ι}
    (h : c.focus = .compound k rest) :
    Weight.total Tree.weight c = k.toTree.weight + Weight.total Tree.weight rest := by
  induction c generalizing rest with
  | nil => simp [focus] at h
  | cons t ts ih =>
    unfold focus at h
    split at h
    · cases hf : focus ts with
      | finished ls => simp [hf, Focus.cons] at h
      | faulty f => simp [hf, Focus.cons] at h
      | compound c' rest' =>
        simp only [hf, Focus.cons, Focus.compound.injEq] at h
        obtain ⟨rfl, rfl⟩ := h
        simp [ih hf]
        omega
    · next c' hv =>
      simp only [Focus.compound.injEq] at h
      obtain ⟨rfl, rfl⟩ := h
      have : c'.toTree = t := by
        unfold Tree.view at hv
        split at hv <;> simp_all [Compound.toTree]
        all_goals (subst hv; rfl)
      simp [this]
    · simp at h

/-- A clause with a part in the place of its first compound weighs less. -/
theorem Clause.weight_append_lt {t : Table} {c rest : Clause ι} {k : Compound ι}
    (h : c.focus = .compound k rest) {p : List (Tree ι)} (hp : p ∈ (t.expand k).parts) :
    Weight.total Tree.weight (rest ++ p) < Weight.total Tree.weight c := by
  have := t.weight_part_lt k p hp
  rw [Weight.total_append, Clause.weight_focus h]
  omega

theorem Clause.ofTrees_eq {ts : List (Tree ι)} {c : Clause ι} (h : ofTrees ts = .ok c) : c = ts := by
  induction ts generalizing c with
  | nil =>
    simp only [ofTrees, Except.ok.injEq] at h
    exact h.symm
  | cons t ts ih =>
    unfold ofTrees at h
    split at h
    · next heq => cases heq
    · next heq =>
      cases heq
      cases h
    · next t' ts' _ heq =>
      obtain ⟨rfl, rfl⟩ := List.cons.inj heq
      cases hr : ofTrees ts with
      | error e => rw [hr] at h; cases h
      | ok d =>
        rw [hr] at h
        cases h
        rw [ih hr]

theorem Clause.extend_eq {c d : Clause ι} {ts : List (Tree ι)} (h : c.extend ts = .ok d) :
    d = c ++ ts := by
  unfold extend at h
  cases hr : ofTrees ts with
  | error e => rw [hr] at h; cases h
  | ok e =>
    rw [hr] at h
    cases h
    rw [ofTrees_eq hr]

theorem Expansion.exists_of_successors_extend {r : Rule} {p : List (Tree ι)} {rest : Clause ι}
    {new : List (Clause ι)} (h : (extend r p).successors rest = .ok new) :
    ∃ c, rest.extend p = .ok c ∧ new = [c] := by
  cases hc : rest.extend p with
  | error f =>
    rw [successors, hc] at h
    cases h
  | ok c =>
    rw [successors, hc] at h
    cases h
    exact ⟨c, rfl, rfl⟩

theorem Expansion.exists_of_successors_split {r : Rule} {p q : List (Tree ι)} {rest : Clause ι}
    {new : List (Clause ι)} (h : (split r p q).successors rest = .ok new) :
    ∃ c d, rest.extend p = .ok c ∧ rest.extend q = .ok d ∧ new = [c, d] := by
  cases hc : rest.extend p with
  | error f =>
    rw [successors, hc] at h
    cases h
  | ok c =>
    cases hd : rest.extend q with
    | error f =>
      rw [successors, hc, hd] at h
      cases h
    | ok d =>
      rw [successors, hc, hd] at h
      cases h
      exact ⟨c, d, rfl, rfl, rfl⟩

/-- After an expansion less effort remains. -/
theorem Expansion.effort_requeue_lt {t : Table} {c rest : Clause ι} {k : Compound ι}
    {pending : Queue (Clause ι)} {new : List (Clause ι)} (hf : c.focus = .compound k rest)
    (hn : (t.expand k).successors rest = .ok new) :
    Clause.totalEffort ((t.expand k).requeue new pending) <
      c.effort + Clause.totalEffort pending := by
  have hw : ∀ p ∈ (t.expand k).parts, Weight.total Tree.weight (rest ++ p) < _ :=
    fun p hp => Clause.weight_append_lt hf hp
  revert hn hw
  generalize t.expand k = e
  intro hn hw
  cases e with
  | extend r p =>
    obtain ⟨d, hd, rfl⟩ := exists_of_successors_extend hn
    have hlt : d.effort < c.effort := by
      rw [Clause.extend_eq hd]
      exact Weight.effort_lt (hw p (by simp [parts]))
    simp [requeue, branches, Clause.totalEffort]
    omega
  | split r p q =>
    obtain ⟨d, e, hd, he, rfl⟩ := exists_of_successors_split hn
    have hlt : d.effort + e.effort < c.effort := by
      rw [Clause.extend_eq hd, Clause.extend_eq he]
      exact Weight.effort_add_lt (hw p (by simp [parts])) (hw q (by simp [parts]))
    simp [requeue, branches, Clause.totalEffort]
    omega

/-! ### The work list -/

/-- An expansion that was made: its rule, the formula and the clause that it was made in. -/
structure Rewriting (ι : Type u) where
  /-- The rule. -/
  rule : Expansion.Rule
  /-- The formula that was replaced. -/
  target : Compound ι
  /-- The clause as it was. -/
  clause : Clause ι
  deriving DecidableEq, Repr

/-- A normal form: its clauses in the order in which they were finished, and the expansions that
were made on the way. -/
structure NormalForm (ι : Type u) where
  /-- The clauses, each a list of literals. -/
  clauses : List (List Literal)
  /-- The expansions in order. -/
  rewritings : List (Rewriting ι)
  deriving DecidableEq, Repr

namespace NormalForm

/-- A work list is worked off. -/
def ofPending (t : Table) (pending : Queue (Clause ι)) : Except (Fault ι) (NormalForm ι) :=
  match _hp : pending.pop? with
  | none => .ok ⟨[], []⟩
  | some (c, cs) =>
    match _hf : c.focus with
    | .faulty f => .error f
    | .finished ls => do
      let rest ← ofPending t cs
      return { rest with clauses := ls :: rest.clauses }
    | .compound k others =>
      match _hn : (t.expand k).successors others with
      | .error f => .error f
      | .ok new => do
        let rest ← ofPending t ((t.expand k).requeue new cs)
        return { rest with rewritings := ⟨(t.expand k).rule, k, c⟩ :: rest.rewritings }
  termination_by Clause.totalEffort pending
  decreasing_by
    · simpa [Clause.totalEffort_of_pop? _hp] using Clause.effort_pos c
    · rw [Clause.totalEffort_of_pop? _hp]
      exact Expansion.effort_requeue_lt _hf _hn

/-- Why something has no normal form. -/
inductive Error (ι : Type u) where
  /-- It is no formula. -/
  | notFormula (value : ι)
  /-- It holds something that is no formula. -/
  | fault (f : Fault ι)
  deriving DecidableEq, Repr

/-- The normal form of a tree. -/
def ofTree (t : Table) : Tree ι → Except (Error ι) (NormalForm ι)
  | .foreign v => .error (.notFormula v)
  | x => (ofPending t (.singleton [x])).mapError .fault

/-- The clauses of a normal form in writing. -/
def text (n : NormalForm ι) : String :=
  ClauseSet.joined (n.clauses.map fun c => Clause.text (c.map Literal.toTree))

end NormalForm

/-- A formula holds no foreign value, so nothing stands in the way of its normal form. -/
def Formula.normalForm (t : Table) (f : Formula) : NormalForm Empty :=
  match NormalForm.ofTree t f with
  | .ok n => n
  | .error (.notFormula v) => v.elim
  | .error (.fault (.operand v)) => v.elim
  | .error (.fault (.negation v)) => v.elim

end PropProver
