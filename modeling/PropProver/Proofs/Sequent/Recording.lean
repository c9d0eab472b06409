import Mathlib.Data.Finset.Sort
import PropProver.Proofs.Sequent.Trace
import PropProver.Report.Encoding

/-!
# Recording and looking

The parent of an entry is kept twice: in the entry, and as a step of the graph. Recording can be
told as changes to a list of entries and to a graph that is a set of nodes and a set of steps, one
after the other and only after the parent was looked for (`Ledger.record`). Children and branchings
are read from the graph alone, leaves from both.

A trace is a ledger in which the nodes are the numbers below the number of entries
(`Trace.ledger`), and recording in the one is recording in the other (`Trace.record_ledger`). So
every series of calls, refused ones among them, leaves a ledger whose graph says what its entries
say (`Ledger.agrees_run`), and the trace shows the same (`Trace.views_recorded`).
-/

namespace PropProver

variable {ι : Type}

namespace Trace

/-! ### The graph of steps -/

/-- A directed graph as a set of nodes and a set of steps between them. -/
structure Graph where
  /-- The nodes. -/
  nodes : Finset Nat := ∅
  /-- The steps. -/
  edges : Finset Edge := ∅

namespace Graph

/-- The graph with a node. -/
def addNode (g : Graph) (i : Nat) : Graph := { g with nodes := insert i g.nodes }

/-- The graph with a step, and with the nodes at its ends. -/
def addEdge (g : Graph) (e : Edge) : Graph :=
  ⟨insert e.child (insert e.parent g.nodes), insert e g.edges⟩

/-- The nodes that a step leads to from a node. -/
def successors (g : Graph) (i : Nat) : Finset Nat :=
  (g.edges.filter (·.parent = i)).image Edge.child

/-- The number of nodes that a step leads to from a node. -/
def outDegree (g : Graph) (i : Nat) : Nat := (g.successors i).card

end Graph

/-! ### The ledger -/

/-- What a call is given that records a sequent. -/
structure Call (ι : Type) where
  /-- The sequent. -/
  sequent : Sequent ι
  /-- The index of the entry that it is said to be made from. -/
  parent : Option Int
  /-- The rule. -/
  rule : Option String

/-- The parent of a call is none, or one of so many entries. -/
def Call.Fits (c : Call ι) (count : Nat) : Prop := ∀ p, c.parent = some p → 0 ≤ p ∧ p < count

theorem Call.exists_of_not_fits {c : Call ι} {count : Nat} (h : ¬c.Fits count) :
    ∃ p, c.parent = some p ∧ ¬(0 ≤ p ∧ p < count) := by
  unfold Fits at h
  push Not at h
  simpa using h

/-- The entries in order, and the graph. -/
structure Ledger (ι : Type) where
  /-- The entries. -/
  entries : List (Entry ι) := []
  /-- The graph. -/
  graph : Graph := {}

namespace Ledger

/-- Records a sequent, in the order in which things change: a parent that is not there is refused,
then the entry is added, then its node, then the step from its parent. -/
def recording (c : Call ι) : ExceptT NoSuchEntry (StateM (Ledger ι)) (Entry ι) := do
  let count := (← get).entries.length
  if let some p := c.parent then
    unless 0 ≤ p ∧ p < count do throw ⟨p⟩
  let e : Entry ι := ⟨count, c.sequent, c.parent.map Int.toNat, c.rule⟩
  modify fun l => { l with entries := l.entries ++ [e] }
  modify fun l => { l with graph := l.graph.addNode e.index }
  if let some p := e.parent then
    modify fun l => { l with graph := l.graph.addEdge ⟨p, e.index, e.rule⟩ }
  return e

/-- The answer to a call, and the ledger after it. -/
def record (l : Ledger ι) (c : Call ι) : Except NoSuchEntry (Entry ι) × Ledger ι :=
  (recording c).run.run l

/-- The answers to calls that follow each other, and the ledger after the last one. -/
def run (l : Ledger ι) : List (Call ι) → List (Except NoSuchEntry (Entry ι)) × Ledger ι
  | [] => ([], l)
  | c :: cs => ((l.record c).1 :: (run (l.record c).2 cs).1, (run (l.record c).2 cs).2)

/-- The entries that the graph leads to from a node, in order; missing if there is no such node. -/
def children (l : Ledger ι) (i : Int) : Option (List (Entry ι)) :=
  if 0 ≤ i ∧ i.toNat ∈ l.graph.nodes then
    ((l.graph.successors i.toNat).sort).mapM (l.entries[·]?)
  else none

/-- The entries from which the graph leads nowhere. -/
def leaves (l : Ledger ι) : List (Entry ι) := l.entries.filter (l.graph.outDegree ·.index = 0)

/-- The number of nodes from which the graph leads to more than one. -/
def branchCount (l : Ledger ι) : Nat := (l.graph.nodes.filter (1 < l.graph.outDegree ·)).card

/-- The entries that name a given one as their parent. -/
def made (l : Ledger ι) (i : Nat) : List (Entry ι) := l.entries.filter fun e => e.parent == some i

/-- The graph of a ledger says what the parents of its entries say. -/
structure Agrees (l : Ledger ι) : Prop where
  map_index : l.entries.map Entry.index = List.range l.entries.length
  parent_lt : ∀ e ∈ l.entries, ∀ p, e.parent = some p → p < e.index
  children : ∀ i, i < l.entries.length → l.children i = some (l.made i)
  leaves : l.leaves = l.entries.filter fun e => ∀ e' ∈ l.entries, e'.parent ≠ some e.index
  branchCount : l.branchCount = l.entries.countP fun e => 2 ≤ (l.made e.index).length

variable {l : Ledger ι} {c : Call ι}

/-! ### One call -/

theorem run_get_bind {α : Type} (f : Ledger ι → ExceptT NoSuchEntry (StateM (Ledger ι)) α) :
    (get >>= f).run.run l = (f l).run.run l := rfl

/-- A refused call changes nothing. -/
theorem record_refused {p : Int} (hp : c.parent = some p)
    (h : ¬(0 ≤ p ∧ p < l.entries.length)) : l.record c = (.error ⟨p⟩, l) := by
  rw [record, recording, run_get_bind, hp]
  dsimp only
  rw [if_neg h]
  rfl

theorem record_none (hp : c.parent = none) :
    l.record c =
      (.ok ⟨l.entries.length, c.sequent, none, c.rule⟩,
        ⟨l.entries ++ [⟨l.entries.length, c.sequent, none, c.rule⟩],
          l.graph.addNode l.entries.length⟩) := by
  rw [record, recording, hp]
  rfl

theorem record_some {p : Int} (hp : c.parent = some p) (h : 0 ≤ p ∧ p < l.entries.length) :
    l.record c =
      (.ok ⟨l.entries.length, c.sequent, some p.toNat, c.rule⟩,
        ⟨l.entries ++ [⟨l.entries.length, c.sequent, some p.toNat, c.rule⟩],
          (l.graph.addNode l.entries.length).addEdge ⟨p.toNat, l.entries.length, c.rule⟩⟩) := by
  rw [record, recording, run_get_bind, hp]
  dsimp only
  rw [if_pos h]
  rfl

/-- The answer to an accepted call is the entry that the call adds. -/
theorem record_accepted (h : c.Fits l.entries.length) :
    ∃ (e : Entry ι) (g : Graph), l.record c = (.ok e, ⟨l.entries ++ [e], g⟩) ∧
      e.index = l.entries.length ∧ e.sequent = c.sequent ∧ e.parent.map Int.ofNat = c.parent ∧
      e.rule = c.rule := by
  cases hp : c.parent with
  | none => exact ⟨_, _, record_none hp, rfl, rfl, rfl, rfl⟩
  | some p =>
    refine ⟨_, _, record_some hp (h p hp), rfl, rfl, ?_, rfl⟩
    exact congrArg some (Int.toNat_of_nonneg (h p hp).1)

/-- A call is refused, or it is accepted. -/
theorem record_cases (l : Ledger ι) (c : Call ι) :
    (∃ p, l.record c = (.error ⟨p⟩, l)) ∨
      ∃ (e : Entry ι) (g : Graph), l.record c = (.ok e, ⟨l.entries ++ [e], g⟩) := by
  by_cases h : c.Fits l.entries.length
  · obtain ⟨e, g, he, -⟩ := record_accepted h
    exact .inr ⟨e, g, he⟩
  · obtain ⟨p, hp, hout⟩ := Call.exists_of_not_fits h
    exact .inl ⟨p, record_refused hp hout⟩

/-- The entries of a ledger are those it had and those with which calls were answered. -/
theorem entries_run (l : Ledger ι) (calls : List (Call ι)) :
    (l.run calls).2.entries = l.entries ++ (l.run calls).1.filterMap Except.toOption := by
  induction calls generalizing l with
  | nil => exact (List.append_nil _).symm
  | cons c cs ih =>
    rcases record_cases l c with ⟨p, h⟩ | ⟨e, g, h⟩
    · rw [run, h, ih]
      rfl
    · rw [run, h, ih, List.append_assoc]
      rfl

end Ledger

/-! ### A trace as a ledger -/

/-- A trace as a ledger: its entries are the nodes. -/
def ledger (t : Trace ι) : Ledger ι := ⟨t.entries, ⟨Finset.range t.size, t.edges.toFinset⟩⟩

/-- The trace after a call; the same trace if the call is refused. -/
def call (t : Trace ι) (c : Call ι) : Trace ι :=
  match t.record c.sequent c.parent c.rule with
  | .ok t' => t'
  | .error _ => t

/-- The trace that calls leave which follow each other. -/
def recorded (calls : List (Call ι)) : Trace ι := calls.foldl call {}

variable {t : Trace ι} {c : Call ι}

theorem call_of_not_fits (h : ¬c.Fits t.size) : t.call c = t := by
  obtain ⟨p, hp, hout⟩ := Call.exists_of_not_fits h
  have hrecord : t.record c.sequent c.parent c.rule = .error ⟨p⟩ := by
    rw [hp]
    exact if_neg hout
  rw [call, hrecord]

theorem call_of_fits (h : c.Fits t.size) :
    t.call c = t.add c.sequent (c.parent.map Int.toNat) c.rule := by
  cases hp : c.parent with
  | none => rw [call, hp, Option.map_none, Trace.record]
  | some p =>
    have hrecord : t.record c.sequent (some p) c.rule = .ok (t.add c.sequent p.toNat c.rule) :=
      if_pos (h p hp)
    rw [call, hp, hrecord, Option.map_some]

theorem ledger_add_none (t : Trace ι) (s : Sequent ι) (rule : Option String) :
    (t.add s none rule).ledger =
      ⟨t.entries ++ [⟨t.size, s, none, rule⟩], t.ledger.graph.addNode t.size⟩ := by
  simp [ledger, Graph.addNode, Finset.range_add_one]

theorem ledger_add_some {p : Nat} (hp : p < t.size) (s : Sequent ι) (rule : Option String) :
    (t.add s (some p) rule).ledger =
      ⟨t.entries ++ [⟨t.size, s, some p, rule⟩],
        (t.ledger.graph.addNode t.size).addEdge ⟨p, t.size, rule⟩⟩ := by
  have hnodes : insert t.size (insert p (insert t.size (Finset.range t.size))) =
      Finset.range (t.size + 1) := by
    ext i
    simp only [Finset.mem_insert, Finset.mem_range]
    omega
  have hedges (e : Edge) : (t.edges ++ [e]).toFinset = insert e t.edges.toFinset := by
    rw [List.toFinset_append, Finset.union_comm]
    rfl
  rw [ledger, entries_add, edges_add, size_add, ← hnodes, Option.map_some, Option.toList_some,
    hedges]
  rfl

/-- Recording in a ledger is recording in a trace. -/
theorem record_ledger (t : Trace ι) (c : Call ι) : (t.ledger.record c).2 = (t.call c).ledger := by
  have hlength : t.ledger.entries.length = t.size := t.length_entries
  by_cases h : c.Fits t.size
  · rw [call_of_fits h]
    cases hp : c.parent with
    | none =>
      rw [Ledger.record_none hp, hlength, Option.map_none, ledger_add_none]
      rfl
    | some p =>
      have hfits := h p hp
      rw [Ledger.record_some hp (by rwa [hlength]), hlength, Option.map_some,
        ledger_add_some (by omega)]
      rfl
  · obtain ⟨p, hp, hout⟩ := Call.exists_of_not_fits h
    rw [call_of_not_fits h, Ledger.record_refused hp (by rwa [hlength])]

theorem run_ledger (t : Trace ι) (calls : List (Call ι)) :
    (t.ledger.run calls).2 = (calls.foldl call t).ledger := by
  induction calls generalizing t with
  | nil => rfl
  | cons c cs ih => rw [Ledger.run, record_ledger, ih, List.foldl_cons]

namespace Coherent

theorem call (h : t.Coherent) (c : Call ι) : (t.call c).Coherent := by
  by_cases hc : c.Fits t.size
  · rw [call_of_fits hc]
    refine h.add _ _ fun p hp => ?_
    obtain ⟨q, hq, rfl⟩ := Option.map_eq_some_iff.1 hp
    have := hc q hq
    omega
  · rwa [call_of_not_fits hc]

theorem foldl_call (h : t.Coherent) (calls : List (Call ι)) : (calls.foldl Trace.call t).Coherent := by
  induction calls generalizing t with
  | nil => exact h
  | cons c cs ih => exact ih (h.call c)

/-! ### What the graph of a coherent trace shows -/

theorem successors_eq (h : t.Coherent) (i : Nat) :
    t.ledger.graph.successors i = ((t.made i).map Entry.index).toFinset := by
  ext j
  simp only [Graph.successors, ledger, h.edges_eq, Finset.mem_image, Finset.mem_filter,
    List.mem_toFinset, List.mem_filterMap, List.mem_map, mem_made]
  constructor
  · rintro ⟨x, ⟨⟨e, he, hx⟩, rfl⟩, rfl⟩
    obtain ⟨p, hp, rfl⟩ := Option.map_eq_some_iff.1 hx
    exact ⟨e, ⟨he, hp⟩, rfl⟩
  · rintro ⟨e, ⟨he, hp⟩, rfl⟩
    exact ⟨⟨i, e.index, e.rule⟩, ⟨⟨e, he, by rw [Entry.edge?, hp, Option.map_some]⟩, rfl⟩, rfl⟩

/-- The children of an entry are in order of their indices. -/
theorem pairwise_made (h : t.Coherent) (i : Nat) :
    ((t.made i).map Entry.index).Pairwise (· < ·) := by
  have hsub : ((t.made i).map Entry.index).Sublist (t.entries.map Entry.index) :=
    List.filter_sublist.map _
  rw [h.map_index] at hsub
  exact List.pairwise_lt_range.sublist hsub

theorem sort_successors (h : t.Coherent) (i : Nat) :
    (t.ledger.graph.successors i).sort = (t.made i).map Entry.index := by
  have hlt := h.pairwise_made i
  rw [h.successors_eq, List.toFinset_sort _ (hlt.imp Nat.ne_of_lt)]
  exact hlt.imp Nat.le_of_lt

theorem outDegree_ledger (h : t.Coherent) (i : Nat) :
    t.ledger.graph.outDegree i = (t.made i).length := by
  rw [Graph.outDegree, h.successors_eq,
    List.toFinset_card_of_nodup ((h.pairwise_made i).imp Nat.ne_of_lt), List.length_map]

theorem mapM_index (h : t.Coherent) {es : List (Entry ι)} (hes : ∀ e ∈ es, e ∈ t.entries) :
    (es.map Entry.index).mapM (t.entries[·]?) = some es := by
  induction es with
  | nil => rfl
  | cons e es ih =>
    obtain ⟨he, hes⟩ := List.forall_mem_cons.1 hes
    rw [List.map_cons, List.mapM_cons, ih hes, entries, Array.getElem?_toList, h.getElem?_index he]
    rfl

theorem children_ledger (h : t.Coherent) (i : Int) : t.ledger.children i = t.children i := by
  by_cases hi : 0 ≤ i ∧ i < t.size
  · obtain ⟨n, rfl⟩ := Int.eq_ofNat_of_zero_le hi.1
    have hn : n < t.size := Int.ofNat_lt.1 hi.2
    rw [h.children_eq hn, Ledger.children, if_pos ⟨hi.1, Finset.mem_range.2 hn⟩]
    rw [Int.toNat_natCast, h.sort_successors]
    exact h.mapM_index fun e he => (mem_made.1 he).1
  · rw [Trace.children, if_neg hi, Ledger.children, if_neg]
    rintro ⟨h0, hmem⟩
    have := Finset.mem_range.1 hmem
    omega

theorem leaves_ledger (h : t.Coherent) : t.ledger.leaves = t.leaves := by
  rw [leaves_eq_filter, Ledger.leaves]
  refine List.filter_congr fun e _ => ?_
  rw [h.outDegree_ledger, isLeaf, h.outDegree_eq]
  rfl

theorem branchCount_ledger (h : t.Coherent) : t.ledger.branchCount = t.branchCount := by
  have hnodes : t.ledger.graph.nodes.filter (1 < t.ledger.graph.outDegree ·) =
      ((t.entries.map Entry.index).filter (1 < t.outDegree ·)).toFinset := by
    ext i
    rw [Finset.mem_filter, h.outDegree_ledger, List.mem_toFinset, List.mem_filter, h.map_index,
      h.outDegree_eq, decide_eq_true_iff, List.mem_range, ledger, Finset.mem_range]
  rw [Ledger.branchCount, hnodes, List.toFinset_card_of_nodup (h.nodup.filter _),
    ← List.countP_eq_length_filter, List.countP_map, branchCount_eq_countP]
  rfl

theorem agrees_ledger (h : t.Coherent) : t.ledger.Agrees where
  map_index := by
    rw [ledger, h.map_index, length_entries]
  parent_lt := h.parent_lt
  children i hi := by
    rw [h.children_ledger]
    exact h.children_eq (hi.trans_eq t.length_entries)
  leaves := by
    rw [h.leaves_ledger, leaves_eq_filter]
    refine List.filter_congr fun e _ => ?_
    rw [Bool.eq_iff_iff, h.isLeaf_iff, made, List.filter_eq_nil_iff, decide_eq_true_iff]
    simp [ledger]
  branchCount := by
    rw [h.branchCount_ledger, branchCount_eq_countP]
    refine List.countP_congr fun e _ => ?_
    rw [h.outDegree_eq]
    rfl

end Coherent

theorem coherent_recorded (calls : List (Call ι)) : (recorded calls).Coherent :=
  coherent_empty.foldl_call calls

theorem ledger_recorded (calls : List (Call ι)) :
    (recorded calls).ledger = (Ledger.run {} calls).2 :=
  (run_ledger {} calls).symm

/-- **Recording and the views of a trace.** After any calls that record sequents, a call whose
parent is not there is refused and changes nothing; any other call adds one entry, whose index is
the number of entries before it. The entries are those with which the calls were answered, and their
graph agrees with their parents. The trace shows the same: it is the same ledger, with the same
children, leaves and branchings; the indices of the leaves are part of its value, and displaying it
in reverse turns its entries around. The views are functions of the trace, so that to look at it
leaves it as it is. -/
theorem views_recorded (calls : List (Call ι)) :
    let l := (Ledger.run {} calls).2
    let t := recorded calls
    (∀ (c : Call ι) (p : Int), c.parent = some p → ¬(0 ≤ p ∧ p < l.entries.length) →
      l.record c = (.error ⟨p⟩, l) ∧ t.record c.sequent c.parent c.rule = .error ⟨p⟩) ∧
    (∀ c : Call ι, c.Fits l.entries.length →
      ∃ e g, l.record c = (.ok e, ⟨l.entries ++ [e], g⟩) ∧ e.index = l.entries.length ∧
        e.sequent = c.sequent ∧ e.parent.map Int.ofNat = c.parent ∧ e.rule = c.rule) ∧
    l.entries = (Ledger.run {} calls).1.filterMap Except.toOption ∧
    l.Agrees ∧
    t.ledger = l ∧ (∀ i, t.children i = l.children i) ∧ t.leaves = l.leaves ∧
    t.branchCount = l.branchCount ∧
    (∀ leaf, ∃ fs, t.toValue leaf = .dict fs ∧
      Fields.get? fs "leaves" = some (.list (l.leaves.map fun e => .int e.index))) ∧
    t.display .reverse = l.entries.reverse := by
  intro l t
  have ht : t.Coherent := coherent_recorded calls
  have hl : t.ledger = l := ledger_recorded calls
  refine ⟨fun c p hp hout => ⟨Ledger.record_refused hp hout, ?_⟩, fun c => Ledger.record_accepted,
    Ledger.entries_run {} calls, hl ▸ ht.agrees_ledger, hl, ?_, ?_, ?_, fun leaf => ⟨_, rfl, ?_⟩,
    ?_⟩
  · rw [← hl, ledger, length_entries] at hout
    rw [hp]
    exact if_neg hout
  · exact fun i => hl ▸ (ht.children_ledger i).symm
  · exact hl ▸ ht.leaves_ledger.symm
  · exact hl ▸ ht.branchCount_ledger.symm
  · rw [← hl, ht.leaves_ledger]
    rfl
  · rw [← hl]
    rfl

end Trace

end PropProver
