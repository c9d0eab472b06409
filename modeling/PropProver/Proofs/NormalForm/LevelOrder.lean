import PropProver.Proofs.NormalForm.Turns

/-!
# Normal forms in level order

What becomes of a clause is a binary tree. Its leaves are the clauses that are finished in the end,
and it branches where an expansion does (`Clause.expansionTree`). An expansion that branches sends
both clauses to the end of the work list, behind all clauses that come from fewer branchings. So the
work list holds the roots of a forest, and taking its first tree apart does not change the leaves of
the forest in level order (`ClauseTree.forestOrder_node`). Hence the clauses of a normal form come
in the level order of the tree of its formula (`Formula.clauses_eq_levelOrder`).
-/

namespace PropProver

universe u

/-! ### Trees of clauses -/

/-- A binary tree with finished clauses at its leaves. -/
inductive ClauseTree where
  /-- A finished clause. -/
  | leaf (literals : List Literal)
  /-- A branching. -/
  | node (first second : ClauseTree)

namespace ClauseTree

/-- The most branchings on the way to a leaf. -/
def height : ClauseTree → Nat
  | leaf _ => 0
  | node x y => max x.height y.height + 1

/-- The leaves with a given number of branchings above them, from left to right. -/
def level : ClauseTree → Nat → List (List Literal)
  | leaf ls, 0 => [ls]
  | leaf _, _ + 1 => []
  | node _ _, 0 => []
  | node x y, n + 1 => x.level n ++ y.level n

/-- All leaves, level by level from the root. -/
def levelOrder (x : ClauseTree) : List (List Literal) := (List.range (x.height + 1)).flatMap x.level

/-- All leaves from left to right. -/
def leaves : ClauseTree → List (List Literal)
  | leaf ls => [ls]
  | node x y => x.leaves ++ y.leaves

theorem level_eq_nil {x : ClauseTree} {n : Nat} (h : x.height < n) : x.level n = [] := by
  induction x generalizing n with
  | leaf ls =>
    cases n with
    | zero => cases h
    | succ n => rfl
  | node x y ihx ihy =>
    cases n with
    | zero => cases h
    | succ n =>
      rw [height] at h
      rw [level, ihx (by omega), ihy (by omega), List.append_nil]

theorem flatMap_range_succ {α : Type u} (f : Nat → List α) (n : Nat) :
    (List.range (n + 1)).flatMap f = f 0 ++ (List.range n).flatMap fun i => f (i + 1) := by
  rw [List.range_succ_eq_map, List.flatMap_cons, List.flatMap_map]

theorem perm_leaves {x : ClauseTree} {n : Nat} (h : x.height < n) :
    ((List.range n).flatMap x.level).Perm x.leaves := by
  induction x generalizing n with
  | leaf ls =>
    obtain ⟨n, rfl⟩ := Nat.exists_eq_succ_of_ne_zero (Nat.ne_of_gt h)
    rw [flatMap_range_succ]
    simp [level, leaves]
  | node x y ihx ihy =>
    obtain ⟨n, rfl⟩ := Nat.exists_eq_succ_of_ne_zero (Nat.ne_of_gt (Nat.zero_lt_of_lt h))
    rw [height] at h
    rw [flatMap_range_succ]
    exact (List.flatMap_append_perm _ _ _).symm.trans ((ihx (by omega)).append (ihy (by omega)))

/-- The level order has every leaf once. -/
theorem levelOrder_perm_leaves (x : ClauseTree) : x.levelOrder.Perm x.leaves :=
  perm_leaves (Nat.lt_succ_self _)

/-- Leaves come after those that are nearer to the root. -/
example (ls ms ns : List Literal) :
    (node (node (leaf ls) (leaf ms)) (leaf ns)).levelOrder = [ns, ls, ms] := rfl

/-! ### Forests -/

/-- The leaves on the first levels of a forest, level by level, and tree by tree in a level. -/
def forestOrder (n : Nat) (xs : List ClauseTree) : List (List Literal) :=
  (List.range n).flatMap fun i => xs.flatMap (·.level i)

theorem forestOrder_singleton (x : ClauseTree) : forestOrder (x.height + 1) [x] = x.levelOrder := by
  simp [forestOrder, levelOrder]

/-- A leaf at the head of the forest is the first in level order. -/
theorem forestOrder_leaf (n : Nat) (ls : List Literal) (xs : List ClauseTree) :
    forestOrder (n + 1) (leaf ls :: xs) = ls :: forestOrder (n + 1) xs := by
  rw [forestOrder, forestOrder, flatMap_range_succ, flatMap_range_succ]
  rfl

/-- Rows of two blocks can be read with the blocks the other way round, from one block later on. -/
theorem flatMap_range_rotate {α : Type u} (f g : Nat → List α) (n : Nat) :
    f 0 ++ (List.range n).flatMap (fun i => g i ++ f (i + 1)) =
      (List.range n).flatMap (fun i => f i ++ g i) ++ f n := by
  induction n with
  | zero => simp
  | succ n ih =>
    rw [List.range_succ, List.flatMap_append, List.flatMap_append, ← List.append_assoc, ih]
    simp

/-- A branching at the head of the forest can be taken apart, if its two trees go to the end. -/
theorem forestOrder_node {x y : ClauseTree} {n : Nat} (h : (node x y).height ≤ n)
    (xs : List ClauseTree) :
    forestOrder (n + 1) (node x y :: xs) = forestOrder (n + 1) (xs ++ [x, y]) := by
  rw [height] at h
  have hx : x.level n = [] := level_eq_nil (by omega)
  have hy : y.level n = [] := level_eq_nil (by omega)
  calc forestOrder (n + 1) (node x y :: xs)
      = xs.flatMap (·.level 0) ++ (List.range n).flatMap fun i =>
          (x.level i ++ y.level i) ++ xs.flatMap (·.level (i + 1)) := by
        rw [forestOrder, flatMap_range_succ]
        rfl
    _ = (List.range n).flatMap (fun i => xs.flatMap (·.level i) ++ (x.level i ++ y.level i)) ++
          xs.flatMap (·.level n) :=
        flatMap_range_rotate (fun i => xs.flatMap (·.level i)) _ n
    _ = forestOrder (n + 1) (xs ++ [x, y]) := by
        rw [forestOrder, List.range_succ, List.flatMap_append]
        simp [hx, hy]

end ClauseTree

/-! ### The tree of a clause -/

namespace Clause

/-- What becomes of a clause. It is a leaf if it has literals only. Otherwise its first compound is
expanded: the other members with the part of the expansion, or with either of its parts. -/
def expansionTree (t : Table) (c : Clause Empty) : ClauseTree :=
  match _hf : c.focus with
  | .finished ls => .leaf ls
  | .faulty f => (NormalForm.not_fault f).elim
  | .compound k rest =>
    match _he : t.expand k with
    | .extend _ p => expansionTree t (rest ++ p)
    | .split _ p q => .node (expansionTree t (rest ++ p)) (expansionTree t (rest ++ q))
  termination_by Weight.total Tree.weight c
  decreasing_by
    all_goals
      refine weight_append_lt _hf (t := t) ?_
      simp [_he, Expansion.parts]

variable {t : Table} {c rest : Clause Empty} {k : Compound Empty}

theorem expansionTree_of_finished {ls : List Literal} (hf : c.focus = .finished ls) :
    expansionTree t c = .leaf ls := by
  rw [expansionTree]
  split
  · next hf' =>
    rw [hf] at hf'
    cases hf'
    rfl
  · next f _ => exact (NormalForm.not_fault f).elim
  · next hf' =>
    rw [hf] at hf'
    cases hf'

theorem expansionTree_of_compound (hf : c.focus = .compound k rest) :
    expansionTree t c =
      match t.expand k with
      | .extend _ p => expansionTree t (rest ++ p)
      | .split _ p q => .node (expansionTree t (rest ++ p)) (expansionTree t (rest ++ q)) := by
  rw [expansionTree]
  split
  · next hf' =>
    rw [hf] at hf'
    cases hf'
  · next f _ => exact (NormalForm.not_fault f).elim
  · next hf' =>
    rw [hf] at hf'
    cases hf'
    split
    · next he => rw [he]
    · next he => rw [he]

end Clause

/-! ### The work list -/

open ClauseTree (forestOrder)

/-- Where the trees of a work list lead does not change when its first clause is expanded. -/
theorem Expansion.forestOrder_requeue {t : Table} {c rest : Clause Empty} {k : Compound Empty}
    {new : List (Clause Empty)} {cs : Queue (Clause Empty)} {n : Nat}
    (hf : c.focus = .compound k rest) (hn : (t.expand k).successors rest = .ok new)
    (hc : (c.expansionTree t).height ≤ n) :
    forestOrder (n + 1) (((t.expand k).requeue new cs).toList.map (Clause.expansionTree t)) =
      forestOrder (n + 1) ((c :: cs.toList).map (Clause.expansionTree t)) := by
  have htree := Clause.expansionTree_of_compound (t := t) hf
  rw [successors_eq hn]
  cases he : t.expand k with
  | extend r p =>
    rw [he] at htree
    simp [requeue, branches, parts, htree]
  | split r p q =>
    rw [he] at htree
    rw [htree] at hc
    simp [requeue, branches, parts, htree, ClauseTree.forestOrder_node hc]

/-- A new clause has no more branchings before it than the clause that it comes from. -/
theorem Expansion.height_successors_le {t : Table} {c rest : Clause Empty} {k : Compound Empty}
    {new : List (Clause Empty)} (hf : c.focus = .compound k rest)
    (hn : (t.expand k).successors rest = .ok new) :
    ∀ d ∈ new, (d.expansionTree t).height ≤ (c.expansionTree t).height := by
  rw [successors_eq hn, Clause.expansionTree_of_compound hf]
  cases t.expand k with
  | extend r p => simp [parts]
  | split r p q =>
    simp [parts, ClauseTree.height]
    omega

/-- A work list is worked off in the level order of the forest of its clauses. -/
theorem NormalForm.clauses_eq_forestOrder {t : Table} {pending : Queue (Clause Empty)}
    {n : NormalForm Empty} {m : Nat} (h : ofPending t pending = .ok n)
    (hm : ∀ c ∈ pending.toList, (c.expansionTree t).height ≤ m) :
    n.clauses = forestOrder (m + 1) (pending.toList.map (Clause.expansionTree t)) := by
  induction pending using ofPending.induct t generalizing n with
  | case1 pending hp =>
    rw [ofPending_of_none hp] at h
    cases h
    rw [Queue.pop?_eq_none_iff.1 hp]
    simp [forestOrder]
  | case2 pending c cs hp f hf => exact (not_fault f).elim
  | case3 pending c cs hp ls hf ih =>
    obtain ⟨n, hn, rfl⟩ := exists_of_ofPending_finished hp hf h
    rw [Queue.toList_of_pop? hp] at hm ⊢
    have hcs := ih hn fun d hd => hm d (List.mem_cons_of_mem c hd)
    rw [List.map_cons, Clause.expansionTree_of_finished hf, ClauseTree.forestOrder_leaf, ← hcs]
  | case4 pending c cs hp k rest hf f hn => exact (not_fault f).elim
  | case5 pending c cs hp k rest hf new hnew ih =>
    obtain ⟨n, hn, rfl⟩ := exists_of_ofPending_compound hp hf hnew h
    rw [Queue.toList_of_pop? hp] at hm ⊢
    rw [List.forall_mem_cons] at hm
    have hle : ∀ d ∈ ((t.expand k).requeue new cs).toList, (d.expansionTree t).height ≤ m := by
      intro d hd
      rw [((t.expand k).toList_requeue_perm new cs).mem_iff, List.mem_append] at hd
      rcases hd with hd | hd
      · exact (Expansion.height_successors_le hf hnew d hd).trans hm.1
      · exact hm.2 d hd
    show n.clauses = _
    rw [ih hn hle, Expansion.forestOrder_requeue hf hnew hm.1]

namespace Formula

theorem clauses_normalForm (t : Table) (f : Formula) :
    (f.normalForm t).clauses = (Clause.expansionTree t [f]).levelOrder := by
  rw [NormalForm.clauses_eq_forestOrder (f.ofPending_eq_ok_normalForm t)
    (m := (Clause.expansionTree t [f]).height) (by simp)]
  exact ClauseTree.forestOrder_singleton _

/-- **Level order**: with either table, every formula has a normal form, and its clauses are the
leaves of the tree of the formula, each with its literals in order. They come level by level from
the root, where the level of a leaf is the number of branchings on the way to it, and from left to
right in a level. This is also what the turns of the work list leave. -/
theorem clauses_eq_levelOrder (t : Table) (f : Formula) :
    ∃ n, NormalForm.ofTree t f = .ok n ∧
      n.clauses.Perm (Clause.expansionTree t [f]).leaves ∧
      n.clauses = (Clause.expansionTree t [f]).levelOrder ∧
      ∃ m w, WorkList.Ends t ⟨[[f]], 0⟩ m w ∧ w.clauses = n.clauses.map (·.map Literal.toTree) := by
  obtain ⟨m, w, hends, hclauses, -⟩ := f.exists_ends t
  have hperm := (Clause.expansionTree t [f]).levelOrder_perm_leaves
  rw [← f.clauses_normalForm t] at hperm
  exact ⟨f.normalForm t, f.ofTree_eq_ok_normalForm t, hperm, f.clauses_normalForm t, m, w, hends,
    hclauses⟩

end Formula

end PropProver
