import Mathlib.Data.List.Nodup
import PropProver.Sequent.Trace

/-!
# Coherent traces

In a coherent trace every entry stands at its index, the graph has the steps of the entries and no
others, and an entry is made from an earlier one. A trace that is built by `Trace.add` from entries
that it has is coherent (`Coherent.add`). The graph can then be forgotten: the children of an
entry are those that name it as their parent (`Coherent.children_eq`), and a leaf is an entry that
none names (`Coherent.isLeaf_iff`).
-/

namespace PropProver.Trace

universe u

variable {ι : Type u}

/-- The step that made an entry. -/
def Entry.edge? (e : Entry ι) : Option Edge := e.parent.map fun p => ⟨p, e.index, e.rule⟩

/-- The entries that name a given one as their parent. -/
def made (t : Trace ι) (i : Nat) : List (Entry ι) := t.entries.filter fun e => e.parent == some i

/-- The entries that something was made from. -/
def inner (t : Trace ι) : List (Entry ι) := t.entries.filter fun e => !t.isLeaf e

theorem mem_made {t : Trace ι} {i : Nat} {e : Entry ι} :
    e ∈ t.made i ↔ e ∈ t.entries ∧ e.parent = some i := by
  rw [made, List.mem_filter, beq_iff_eq]

/-- Entries and graph fit together. -/
structure Coherent (t : Trace ι) : Prop where
  map_index : t.entries.map Entry.index = List.range t.size
  edges_eq : t.edges = t.entries.filterMap Entry.edge?
  parent_lt : ∀ e ∈ t.entries, ∀ p, e.parent = some p → p < e.index

theorem coherent_empty : Coherent ({} : Trace ι) where
  map_index := rfl
  edges_eq := rfl
  parent_lt := fun _ he => absurd he List.not_mem_nil

namespace Coherent

variable {t : Trace ι} {e e' : Entry ι}

/-- A trace stays coherent if an entry is added that was made from one that is there. -/
theorem add (h : t.Coherent) (s : Sequent ι) {parent : Option Nat} (rule : Option String)
    (hp : ∀ p, parent = some p → p < t.size) : (t.add s parent rule).Coherent where
  map_index := by
    rw [entries_add, size_add, List.map_append, h.map_index, List.range_succ]
    rfl
  edges_eq := by
    rw [edges_add, entries_add, List.filterMap_append, h.edges_eq]
    cases parent <;> rfl
  parent_lt := by
    intro e he p hep
    rw [entries_add, List.mem_append, List.mem_singleton] at he
    rcases he with he | rfl
    · exact h.parent_lt e he p hep
    · exact hp p hep

theorem nodup (h : t.Coherent) : (t.entries.map Entry.index).Nodup := by
  rw [h.map_index]
  exact List.nodup_range

theorem index_lt (h : t.Coherent) (he : e ∈ t.entries) : e.index < t.size := by
  have := List.mem_map_of_mem (f := Entry.index) he
  rwa [h.map_index, List.mem_range] at this

theorem eq_of_index (h : t.Coherent) (he : e ∈ t.entries) (he' : e' ∈ t.entries)
    (hi : e.index = e'.index) : e = e' :=
  List.inj_on_of_nodup_map h.nodup he he' hi

/-- Every entry stands at its index. -/
theorem getElem?_index (h : t.Coherent) (he : e ∈ t.entries) :
    t.entryArray[e.index]? = some e := by
  obtain ⟨i, hi, rfl⟩ := List.mem_iff_getElem.1 he
  have hindex : (t.entries.map Entry.index)[i]? = (List.range t.size)[i]? := by
    rw [h.map_index]
  rw [List.getElem?_map, List.getElem?_eq_getElem hi, List.getElem?_range,
    Option.map_some] at hindex
  · rw [Option.some.inj hindex, ← Array.getElem?_toList]
    exact List.getElem?_eq_getElem hi
  · rwa [← length_entries]

/-- The children of an entry are those that name it as their parent. -/
theorem children_eq (h : t.Coherent) {i : Nat} (hi : i < t.size) :
    t.children i = some (t.made i) := by
  rw [children, if_pos ⟨Int.natCast_nonneg i, Int.ofNat_lt.2 hi⟩, h.edges_eq, Int.toNat_natCast]
  congr 1
  rw [List.filterMap_filter, List.filterMap_filterMap, made, ← List.filterMap_eq_filter]
  refine List.filterMap_congr fun e he => ?_
  cases hp : e.parent with
  | none => simp [Entry.edge?, hp, Option.guard]
  | some p => simp [Entry.edge?, hp, Option.guard, h.getElem?_index he]

theorem outDegree_eq (h : t.Coherent) (i : Nat) : t.outDegree i = (t.made i).length := by
  rw [outDegree, h.edges_eq, List.countP_filterMap, made, ← List.countP_eq_length_filter]
  refine List.countP_congr fun e he => ?_
  cases hp : e.parent <;> simp [Entry.edge?, hp]

/-- A leaf is an entry that none names as its parent. -/
theorem isLeaf_iff (h : t.Coherent) : t.isLeaf e = true ↔ t.made e.index = [] := by
  rw [isLeaf, h.outDegree_eq, beq_iff_eq, List.length_eq_zero_iff]

theorem mem_leaves (h : t.Coherent) : e ∈ t.leaves ↔ e ∈ t.entries ∧ t.made e.index = [] := by
  rw [leaves_eq_filter, List.mem_filter, h.isLeaf_iff]

theorem mem_inner (h : t.Coherent) : e ∈ t.inner ↔ e ∈ t.entries ∧ t.made e.index ≠ [] := by
  rw [inner, List.mem_filter, Bool.not_eq_true', ← Bool.not_eq_true, h.isLeaf_iff]

/-- Nothing is made from an entry that is not yet there. -/
theorem made_eq_nil (h : t.Coherent) {i : Nat} (hi : t.size ≤ i) : t.made i = [] := by
  rw [made, List.filter_eq_nil_iff]
  intro e he hp
  have hlt := h.parent_lt e he i (beq_iff_eq.1 hp)
  have := h.index_lt he
  omega

/-- Every entry that was made from another is a child of exactly one entry. -/
theorem flatMap_made_perm (h : t.Coherent) :
    (t.entries.flatMap fun e => t.made e.index).Perm (t.entries.filter (·.parent.isSome)) := by
  have hnodup : t.entries.Nodup := h.nodup.of_map
  rw [List.perm_ext_iff_of_nodup _ (hnodup.filter _)]
  · intro c
    rw [List.mem_flatMap, List.mem_filter]
    constructor
    · rintro ⟨e, -, hc⟩
      rw [mem_made] at hc
      exact ⟨hc.1, by rw [hc.2]; rfl⟩
    · rintro ⟨hc, hp⟩
      obtain ⟨p, hp⟩ := Option.isSome_iff_exists.1 hp
      have hlt : p < t.size := Nat.lt_trans (h.parent_lt c hc p hp) (h.index_lt hc)
      rw [← List.mem_range, ← h.map_index, List.mem_map] at hlt
      obtain ⟨e, he, rfl⟩ := hlt
      exact ⟨e, he, mem_made.2 ⟨hc, hp⟩⟩
  · rw [List.nodup_flatMap]
    refine ⟨fun e _ => hnodup.filter _, (List.pairwise_map.1 h.nodup).imp fun hne c hc hc' => ?_⟩
    rw [mem_made] at hc hc'
    exact hne (Option.some.inj (hc.2.symm.trans hc'.2))

end Coherent

end PropProver.Trace
