import PropProver.Sequent.Basic
import Std.Data.HashMap

/-!
# Traces

A trace records sequents in the order in which they were made, each with the sequent that it was
made from and the rule. Beside the entries it keeps the graph of these steps, from which children,
leaves and branchings are read. Entries are only added, and the order of display does not touch
the recorded order.

`Trace.entries` and `Trace.edges` are the content of a trace as lists; `entries_add` and
`edges_add` tell what recording does to them. `Trace.outDegree` counts the steps from one entry.
`Trace.outDegrees` counts them for all entries in one pass, and `getD_outDegrees` says that both
agree.
-/

namespace PropProver

universe u

/-- A sequent with the step that made it. -/
structure Trace.Entry (ι : Type u) where
  /-- The number of entries before this one. -/
  index : Nat
  /-- The sequent. -/
  sequent : Sequent ι
  /-- The entry that the sequent was made from. -/
  parent : Option Nat := none
  /-- The rule that made the sequent. -/
  rule : Option String := none
  deriving DecidableEq, Repr

/-- The place of an entry counted from one. -/
def Trace.Entry.number {ι : Type u} (e : Entry ι) : Nat := e.index + 1

/-- A step of the graph of a trace. -/
structure Trace.Edge where
  /-- The entry that was expanded. -/
  parent : Nat
  /-- The entry that was made. -/
  child : Nat
  /-- The rule. -/
  rule : Option String
  deriving DecidableEq, Repr

/-- A record of sequents and of the steps between them. -/
structure Trace (ι : Type u) where
  /-- The entries in order. -/
  entryArray : Array (Trace.Entry ι) := #[]
  /-- The steps in the order in which they were recorded. -/
  edgeArray : Array Trace.Edge := #[]
  deriving DecidableEq, Repr

namespace Trace

variable {ι : Type u}

/-- The number of entries. -/
def size (t : Trace ι) : Nat := t.entryArray.size

/-- The entries in order. -/
def entries (t : Trace ι) : List (Entry ι) := t.entryArray.toList

/-- The steps in the order in which they were recorded. -/
def edges (t : Trace ι) : List Edge := t.edgeArray.toList

theorem length_entries (t : Trace ι) : t.entries.length = t.size := by simp [entries, size]

/-- The trace with one more entry, made from an entry that is in the trace or from none. -/
def add : Trace ι → Sequent ι → Option Nat → Option String → Trace ι
  | ⟨entryArray, edgeArray⟩, s, none, rule =>
    ⟨entryArray.push ⟨entryArray.size, s, none, rule⟩, edgeArray⟩
  | ⟨entryArray, edgeArray⟩, s, some p, rule =>
    ⟨entryArray.push ⟨entryArray.size, s, some p, rule⟩, edgeArray.push ⟨p, entryArray.size, rule⟩⟩

@[simp] theorem entries_add (t : Trace ι) (s : Sequent ι) (parent : Option Nat)
    (rule : Option String) :
    (t.add s parent rule).entries = t.entries ++ [⟨t.size, s, parent, rule⟩] := by
  cases parent <;> simp [add, entries, size]

@[simp] theorem edges_add (t : Trace ι) (s : Sequent ι) (parent : Option Nat)
    (rule : Option String) :
    (t.add s parent rule).edges =
      t.edges ++ (parent.map fun p => ⟨p, t.size, rule⟩).toList := by
  cases parent <;> simp [add, edges, size]

@[simp] theorem size_add (t : Trace ι) (s : Sequent ι) (parent : Option Nat)
    (rule : Option String) : (t.add s parent rule).size = t.size + 1 := by
  cases parent <;> simp [add, size]

/-- An entry was named as a parent that is not in the trace. -/
structure NoSuchEntry where
  /-- The number that was given. -/
  index : Int
  deriving DecidableEq, Repr

/-- Records a sequent if its parent is in the trace. -/
def record (t : Trace ι) (s : Sequent ι) (parent : Option Int) (rule : Option String) :
    Except NoSuchEntry (Trace ι) :=
  match parent with
  | none => .ok (t.add s none rule)
  | some p =>
    if 0 ≤ p ∧ p < t.size then .ok (t.add s (some p.toNat) rule) else .error ⟨p⟩

/-- The first entry. -/
def root? (t : Trace ι) : Option (Entry ι) := t.entries.head?

/-- The number of steps from an entry. -/
def outDegree (t : Trace ι) (i : Nat) : Nat := t.edges.countP fun e => e.parent == i

/-- The entries that were made from an entry, in order; missing if there is no such entry. -/
def children (t : Trace ι) (i : Int) : Option (List (Entry ι)) :=
  if 0 ≤ i ∧ i < t.size then
    some ((t.edges.filter fun e => e.parent == i.toNat).filterMap fun e => t.entryArray[e.child]?)
  else none

/-- The numbers of steps from all entries that there are steps from. -/
def outDegrees (t : Trace ι) : Std.HashMap Nat Nat :=
  t.edges.foldl (fun d e => d.insert e.parent (d.getD e.parent 0 + 1)) ∅

theorem getD_foldl_insert (es : List Edge) (d : Std.HashMap Nat Nat) (i : Nat) :
    (es.foldl (fun d e => d.insert e.parent (d.getD e.parent 0 + 1)) d).getD i 0 =
      d.getD i 0 + es.countP fun e => e.parent == i := by
  induction es generalizing d with
  | nil => simp
  | cons e es ih =>
    rw [List.foldl_cons, ih, Std.HashMap.getD_insert, List.countP_cons]
    by_cases h : e.parent = i
    · simp [h]
      omega
    · simp [h]

@[simp] theorem getD_outDegrees (t : Trace ι) (i : Nat) : t.outDegrees.getD i 0 = t.outDegree i := by
  simp [outDegrees, outDegree, getD_foldl_insert]

/-- Nothing was made from the entry. -/
def isLeaf (t : Trace ι) (e : Entry ι) : Bool := t.outDegree e.index == 0

/-- The entries that nothing was made from. -/
def leaves (t : Trace ι) : List (Entry ι) :=
  let degrees := t.outDegrees
  t.entries.filter fun e => degrees.getD e.index 0 == 0

theorem leaves_eq_filter (t : Trace ι) : t.leaves = t.entries.filter t.isLeaf := by
  simp only [leaves, getD_outDegrees]
  rfl

/-- The number of entries from which more than one was made. -/
def branchCount (t : Trace ι) : Nat :=
  let degrees := t.outDegrees
  t.entries.countP fun e => 1 < degrees.getD e.index 0

theorem branchCount_eq_countP (t : Trace ι) :
    t.branchCount = t.entries.countP fun e => 1 < t.outDegree e.index := by
  simp only [branchCount, getD_outDegrees]

/-- The counts of a trace in writing. -/
def summary (t : Trace ι) : String :=
  "ProofTrace(entries=" ++ toString t.size ++ ", leaves=" ++ toString t.leaves.length ++ ")"

/-! ### Display -/

/-- The orders in which a trace is displayed. -/
inductive Order where
  /-- As it was recorded. -/
  | chronological
  /-- The last entry first. -/
  | reverse
  deriving DecidableEq, Repr

/-- The name of an order. -/
def Order.name : Order → String
  | .chronological => "chronological"
  | .reverse => "reverse"

/-- The order with a name. -/
def Order.ofName? : String → Option Order
  | "chronological" => some .chronological
  | "reverse" => some .reverse
  | _ => none

/-- The entries in an order. -/
def display (t : Trace ι) : Order → List (Entry ι)
  | .chronological => t.entries
  | .reverse => t.entries.reverse

/-- The line below an entry. -/
def separator : String := String.ofList (List.replicate 24 '-')

/-- How an entry was made; missing if a rule is recorded without the entry that it was applied
to. -/
def Entry.origin? (e : Entry ι) : Option String :=
  match e.rule, e.parent with
  | none, _ => some ""
  | some r, some p => some ("\t[" ++ r ++ " from " ++ toString (p + 1) ++ "]")
  | some _, none => none

/-- Why an entry cannot be written. -/
inductive WriteError (ι : Type u) where
  /-- Its sequent holds something that is no formula. -/
  | notFormula (value : ι)
  /-- It has a rule but no parent. -/
  | noParent
  deriving DecidableEq, Repr

/-- The line of an entry: its number, its sequent, how it was made, and for a leaf whether it is
closed. -/
def Entry.line (e : Entry ι) (leaf : Bool) : Except (WriteError ι) String :=
  match e.sequent.check, e.origin? with
  | .error v, _ => .error (.notFormula v)
  | .ok _, none => .error .noParent
  | .ok s, some origin =>
    let mark := if leaf then (if s.isClosed then "\t(closed)" else "\t(open)") else ""
    .ok (toString e.number ++ "\t" ++ s.text ++ origin ++ mark)

/-- The lines of all entries, in an order. -/
def lines (t : Trace ι) (order : Order) : Except (WriteError ι) (List String) :=
  let degrees := t.outDegrees
  (t.display order).mapM fun e => e.line (degrees.getD e.index 0 == 0)

theorem lines_eq_mapM (t : Trace ι) (order : Order) :
    t.lines order = (t.display order).mapM fun e => e.line (t.isLeaf e) := by
  simp only [lines, getD_outDegrees]
  rfl

/-- A trace in writing, with a separator below every line. -/
def text (t : Trace ι) (order : Order) : Except (WriteError ι) String :=
  match t.lines order with
  | .ok ls => .ok ("\n".intercalate (ls.flatMap fun l => [l, separator]))
  | .error e => .error e

end Trace

end PropProver
