import Mathlib.Algebra.Ring.Nat
import Mathlib.Data.List.Perm.Subperm
import PropProver.Proofs.Repeats
import PropProver.Proofs.Saturation.Run

/-!
# The search without a limit ends

Over `n` atoms there are `3 ^ n` clauses without complementary literals: each atom is absent,
asserted or denied (`length_clausesOver`, `mem_clausesOver`). Resolution brings in no atoms, and no
clause is given twice, so a search is never stopped after `3 ^ n` given clauses. Therefore the
search without a limit always comes to an end (`exists_run_none`), and it comes to the same end
under every limit that is not smaller (`run_some_of_le`).
-/

namespace PropProver

namespace LiteralSet

/-! ### Counting clauses -/

theorem insert_erase {c : LiteralSet} {l : Literal} (h : l ∈ c) : (c.erase l).insert l = c := by
  refine ext fun m => ?_
  rw [mem_insert, mem_erase]
  constructor
  · rintro (rfl | ⟨hm, -⟩)
    · exact h
    · exact hm
  · intro hm
    by_cases e : m = l
    · exact .inl e
    · exact .inr ⟨hm, e⟩

/-- The clauses over distinct atoms that have at most one literal of each. -/
def clausesOver : List String → List LiteralSet
  | [] => [∅]
  | a :: as => (clausesOver as).flatMap fun c => [c, c.insert ⟨a, true⟩, c.insert ⟨a, false⟩]

theorem length_clausesOver (as : List String) : (clausesOver as).length = 3 ^ as.length := by
  induction as with
  | nil => rfl
  | cons a as ih =>
    rw [clausesOver, List.length_flatMap]
    simp [ih, Nat.pow_succ]

theorem mem_clausesOver {as : List String} {c : LiteralSet} (hc : c.isTautology = false)
    (has : ∀ l ∈ c, l.atom ∈ as) : c ∈ clausesOver as := by
  induction as generalizing c with
  | nil =>
    have : c = ∅ := ext fun l => ⟨fun hl => absurd (has l hl) List.not_mem_nil,
      fun hl => absurd hl (not_mem_empty l)⟩
    exact List.mem_singleton.2 this
  | cons a as ih =>
    rw [isTautology_eq_false_iff] at hc
    -- without the atom's literal, the clause is one over the other atoms
    have without : ∀ l ∈ c, l.atom = a → c.erase l ∈ clausesOver as := by
      intro l hl hla
      refine ih (isTautology_eq_false_iff.2 fun m hm hm' => ?_) fun m hm => ?_
      · exact hc m (mem_erase.1 hm).1 (mem_erase.1 hm').1
      · obtain ⟨hm, hml⟩ := mem_erase.1 hm
        refine (List.mem_cons.1 (has m hm)).resolve_left fun hma => ?_
        rcases Literal.eq_or_eq_complement (hma.trans hla.symm) with e | e
        · exact hml e
        · exact hc l hl (e ▸ hm)
    refine List.mem_flatMap.2 ?_
    by_cases ht : ⟨a, true⟩ ∈ c
    · exact ⟨_, without _ ht rfl, by simp [insert_erase ht]⟩
    by_cases hf : ⟨a, false⟩ ∈ c
    · exact ⟨_, without _ hf rfl, by simp [insert_erase hf]⟩
    · refine ⟨c, ih (isTautology_eq_false_iff.2 hc) fun l hl => ?_, List.mem_cons_self⟩
      refine (List.mem_cons.1 (has l hl)).resolve_left fun hla => ?_
      obtain ⟨n, p⟩ := l
      cases hla
      cases p with
      | true => exact ht hl
      | false => exact hf hl

/-- A list of different clauses over some atoms has no more than `3 ^ n` members. -/
theorem length_le_of_nodup {cs : List LiteralSet} {as : List String} (hn : cs.Nodup)
    (ht : ∀ c ∈ cs, c.isTautology = false) (has : ∀ c ∈ cs, ∀ l ∈ c, l.atom ∈ as) :
    cs.length ≤ 3 ^ as.length := by
  rw [← length_clausesOver]
  exact (hn.subperm fun c hc => mem_clausesOver (ht c hc) (has c hc)).length_le

end LiteralSet

namespace Saturation

open LiteralSet

/-! ### The start -/

theorem mem_initial {clauses : List LiteralSet} {c : LiteralSet} :
    c ∈ initial clauses ↔ c ∈ clauses ∧ c.isTautology = false := by
  simp [initial]

theorem nodup_initial (clauses : List LiteralSet) : (initial clauses).Nodup := nodup_eraseDups _

/-- Leaving out tautologies and repeats changes nothing about the assignments. -/
theorem forall_holds_initial {clauses : List LiteralSet} {v : Assignment} :
    (∀ c ∈ initial clauses, c.Holds v) ↔ ∀ c ∈ clauses, c.Holds v := by
  constructor
  · intro h c hc
    cases ht : c.isTautology with
    | true => exact holds_of_isTautology ht v
    | false => exact h c (mem_initial.2 ⟨hc, ht⟩)
  · exact fun h c hc => h c (mem_initial.1 hc).1

theorem atom_mem_atoms {clauses : List LiteralSet} {c : LiteralSet} (hc : c ∈ clauses) {l : Literal}
    (hl : l ∈ c) : l.atom ∈ atoms clauses := by
  rw [atoms, List.mem_eraseDups, List.mem_flatMap]
  exact ⟨c, hc, List.mem_map.2 ⟨l, hl, rfl⟩⟩

/-- The searches from an input keep the invariant. -/
theorem invariant_of_reached {clauses : List LiteralSet} {events : List Event} {s : State}
    (h : Reached (initial clauses) events s) : Invariant (givens events) s :=
  h.invariant (nodup_initial clauses) fun _ hc => (mem_initial.1 hc).2

/-! ### The end -/

/-- A clause that was given was there before. -/
theorem Reached.exists_mem_all {start : List LiteralSet} {events : List Event} {s : State}
    (h : Reached start events s) {c : LiteralSet} (hc : c ∈ givens events) :
    ∃ events' s', Reached start events' s' ∧ c ∈ s'.all := by
  induction h with
  | start => cases hc
  | turn hs hn hclosed ih =>
    rw [givens_append, givens_turn _ (ne_empty_of_turn hclosed)] at hc
    rcases List.mem_append.1 hc with hc | hc
    · exact ih hc
    · refine ⟨_, _, hs, (mem_all_iff_of_next? hn).2 ?_⟩
      exact List.mem_singleton.1 hc ▸ List.mem_cons_self

/-- There are never more given and waiting clauses than there are clauses over the atoms. -/
theorem length_givens_add_le {clauses : List LiteralSet} {events : List Event} {s : State}
    (h : Reached (initial clauses) events s) :
    (givens events).length + s.unprocessed.length ≤ 3 ^ (atoms clauses).length := by
  have there : ∀ c ∈ givens events ++ s.unprocessed,
      ∃ events' s', Reached (initial clauses) events' s' ∧ c ∈ s'.all := by
    intro c hc
    rcases List.mem_append.1 hc with hc | hc
    · exact h.exists_mem_all hc
    · exact ⟨events, s, h, List.mem_append_right _ hc⟩
  rw [← List.length_append]
  refine length_le_of_nodup (invariant_of_reached h).nodup (fun c hc => ?_) fun c hc => ?_
  · obtain ⟨_, _, h', hc⟩ := there c hc
    exact (invariant_of_reached h').not_tautology c hc
  · obtain ⟨_, _, h', hc⟩ := there c hc
    refine h'.forall_mem_all (P := fun c => ∀ l ∈ c, l.atom ∈ atoms clauses)
      (fun c hc l hl => atom_mem_atoms (mem_initial.1 hc).1 hl) (fun c d r hc hd hr l hl => ?_) c hc
    exact (mem_of_mem_resolvents hr hl).elim (hc l) (hd l)

/-- As many given clauses as there are clauses over the atoms bring the search to its end. -/
theorem exists_endsWithin (clauses : List LiteralSet) :
    ∃ o, EndsWithin (3 ^ (atoms clauses).length) ⟨[], initial clauses⟩ o := by
  cases h : advance (3 ^ (atoms clauses).length) ⟨[], initial clauses⟩ with
  | ended o => exact ⟨o, advance_eq_ended_iff.1 h⟩
  | paused s =>
    -- a clause that still waits would be one too many
    obtain ⟨events, hs, hlen, hwait⟩ := reached_of_advance .start h
    have hle := length_givens_add_le hs
    have hpos : 0 < s.unprocessed.length := List.length_pos_iff.2 hwait
    rw [hlen] at hle
    omega

/-- The search without a limit comes to an end. -/
theorem exists_run_none (clauses : List LiteralSet) :
    ∃ o, run none clauses = .ok { o with events := dropped clauses ++ o.events } ∧
      Ends (initial clauses) o := by
  obtain ⟨o, ho⟩ := exists_endsWithin clauses
  exact ⟨o, run_eq_ok_iff.2 ⟨o, allowance_none clauses ▸ ho, rfl⟩, ho.ends_start⟩

/-- A limit that leaves room for all clauses over the atoms is no limit. -/
theorem run_some_of_le {clauses : List LiteralSet} {limit : Int}
    (h : (3 ^ (atoms clauses).length : Nat) ≤ limit) :
    run (some limit) clauses = run none clauses := by
  obtain ⟨o, ho⟩ := exists_endsWithin clauses
  have hle : 3 ^ (atoms clauses).length ≤ allowance (some limit) clauses := by
    rw [allowance_some]
    omega
  have hnone := run_eq_ok_iff.2 ⟨o, allowance_none clauses ▸ ho, rfl⟩
  exact (run_eq_ok_iff.2 ⟨o, ho.mono hle, rfl⟩).trans hnone.symm

end Saturation

end PropProver
