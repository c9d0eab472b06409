import PropProver.Proofs.Saturation.Turn

/-!
# The turn by its rules

The loop applies its rules at positions among the processed clauses. The given clause joins them;
subsumption is applied at its position, and what it finds is removed; then resolution is applied at
every position before the last, together with the last one, and the new clauses join the waiting
ones. `turnByRules` is a turn in this form.

A rule can fail at a position, but here none does, since positions behind the last clause are never
used: `turnByRules_eq` says that the turn by its rules has a result, and that this is `turn`.
-/

namespace PropProver

open LiteralSet Saturation

namespace State

variable {s : State} {c given : LiteralSet}

theorem lookup_ofNat {n : Nat} (h : s.processed[n]? = some c) : s.lookup n = .ok (some c) := by
  have hn : n < s.processed.length := (List.getElem?_eq_some_iff.1 h).1
  have hfind : Position.find s.processed n = .ok c := by
    rw [Position.find_eq_ok_iff, Position.get?_ofNat, h]
  rw [lookup, if_neg (by omega), hfind]
  rfl

/-- Resolution of two processed clauses. -/
theorem resolution_ofNat {m n : Nat} {d : LiteralSet} (hc : s.processed[m]? = some c)
    (hd : s.processed[n]? = some d) :
    s.resolution [(m : Int), (n : Int)] = .ok (Application.resolution? c d) := by
  simp only [resolution, lookup_ofNat hc, lookup_ofNat hd]

/-- Subsumption by the clause that was processed last. -/
theorem subsumption_addProcessed (s : State) (given : LiteralSet) :
    (s.addProcessed given).subsumption [(s.processed.length : Int)] =
      .ok (Application.subsumption? given s.processed) := by
  have hlast : (s.addProcessed given).processed[s.processed.length]? = some given := by
    simp [addProcessed]
  have hrest : (s.addProcessed given).processed.eraseIdx s.processed.length = s.processed := by
    simp [addProcessed, List.eraseIdx_append_of_length_le]
  simp only [subsumption, lookup_ofNat hlast, Int.natCast_nonneg, if_true, Int.toNat_natCast, hrest]

/-- The search without the clauses that an inference removes, wherever they stand among the
processed ones. -/
def removeDeleted (s : State) (a : Application) : State :=
  { s with processed := s.processed.filter fun c => !decide (c ∈ a.deleted) }

/-- What subsumption finds is removed, and nothing else: the given clause itself stays, being no
processed clause before it joins them. -/
theorem removeDeleted_subsumption (h : given ∉ s.processed) :
    (Application.subsumption? given s.processed).elim (s.addProcessed given)
      (s.addProcessed given).removeDeleted =
      ⟨(s.processed.filter fun c => !decide (given ⊆ c)) ++ [given], s.unprocessed⟩ := by
  unfold Application.subsumption?
  cases hfound : s.processed.filter fun d => decide (given ⊆ d) with
  | nil =>
    have hkeep : ∀ c ∈ s.processed, (!decide (given ⊆ c)) = true := by
      simpa [List.filter_eq_nil_iff] using hfound
    simp [addProcessed, List.filter_eq_self.2 hkeep]
  | cons d ds =>
    have hgiven : given ∉ d :: ds := by
      rw [← hfound]
      exact fun hmem => h (List.mem_of_mem_filter hmem)
    have hmem : ∀ c ∈ s.processed, (!decide (c ∈ d :: ds)) = !decide (given ⊆ c) := by
      intro c hc
      rw [← hfound]
      simp [hc]
    have hlast : [given].filter (fun c => !decide (c ∈ d :: ds)) = [given] :=
      List.filter_eq_self.2 (by simpa using hgiven)
    simp only [Option.elim_some, removeDeleted, addProcessed, List.filter_append,
      List.filter_congr hmem, hlast]

theorem foldl_addUnprocessed (s : State) (cs : List LiteralSet) :
    cs.foldl addUnprocessed s = ⟨s.processed, s.unprocessed ++ cs⟩ := by
  induction cs generalizing s with
  | nil => simp
  | cons c cs ih => simp [ih, addUnprocessed]

end State

namespace Saturation

/-- The clauses of a list that are neither tautologies nor contain a clause that is there already
or an earlier one of them. -/
def newAmong (all : List LiteralSet) : List LiteralSet → List LiteralSet
  | [] => []
  | r :: rs =>
    if r.isTautology || r.isSubsumedBy all then newAmong all rs else r :: newAmong (all ++ [r]) rs

theorem keep_eq_newAmong (s : State) (rs : List LiteralSet) :
    keep s.processed s.unprocessed rs = newAmong s.all rs := by
  obtain ⟨processed, waiting⟩ := s
  induction rs generalizing waiting with
  | nil => rfl
  | cons r rs ih =>
    have hall : r.isSubsumedBy (processed ++ waiting) =
        (r.isSubsumedBy processed || r.isSubsumedBy waiting) := List.any_append
    simp only [State.all] at ih ⊢
    rw [keep, newAmong, hall, ← Bool.or_assoc, ih, ih, ← List.append_assoc]

/-- Resolution at the given positions in turn, each time together with the same last one. -/
def resolveAt (last : Nat) (s : State) : List Nat → Except Position.Fault Turn
  | [] => .ok ⟨false, s, []⟩
  | i :: is =>
    match s.resolution [(i : Int), (last : Int)] with
    | .error f => .error f
    | .ok none => resolveAt last s is
    | .ok (some a) =>
      match newAmong s.all a.generated with
      | [] => resolveAt last s is
      | kept =>
        let event := Event.applied { a with generated := kept }
        if kept.any LiteralSet.isEmpty then .ok ⟨true, s, [event]⟩
        else
          (resolveAt last (kept.foldl State.addUnprocessed s) is).map fun t =>
            { t with events := event :: t.events }

/-- A turn of the loop, made by applying the rules. -/
def turnByRules (given : LiteralSet) (s : State) : Except Position.Fault Turn :=
  if given.isEmpty then .ok ⟨true, s, []⟩
  else if given.isSubsumedBy s.processed then .ok ⟨false, s, [.subsumed given]⟩
  else
    match (s.addProcessed given).subsumption [(s.processed.length : Int)] with
    | .error f => .error f
    | .ok removal? =>
      let s := removal?.elim (s.addProcessed given) (s.addProcessed given).removeDeleted
      let last := s.processed.length - 1
      (resolveAt last s (List.range last)).map fun t =>
        { t with events := removal?.toList.map .applied ++ .given given :: t.events }

/-- The inferences of a pass as a turn that leaves the processed clauses alone. -/
def Pass.toTurn (p : Pass) (processed : List LiteralSet) : Turn :=
  ⟨p.closed, ⟨processed, p.unprocessed⟩, p.applications.map .applied⟩

/-- Resolution at the positions of the partners is resolution with the partners. -/
theorem resolveAt_eq {given : LiteralSet} {processed : List LiteralSet} {last : Nat}
    (hlast : processed[last]? = some given) {partners : List LiteralSet} {start : Nat}
    (h : ∀ k < partners.length, processed[start + k]? = partners[k]?)
    (unprocessed : List LiteralSet) :
    resolveAt last ⟨processed, unprocessed⟩ (List.range' start partners.length) =
      .ok ((resolveWith given processed unprocessed partners).toTurn processed) := by
  induction partners generalizing start unprocessed with
  | nil => rfl
  | cons partner partners ih =>
    have hpartner : processed[start]? = some partner := h 0 (Nat.zero_lt_succ _)
    have hrest : ∀ k < partners.length, processed[start + 1 + k]? = partners[k]? := by
      intro k hk
      rw [Nat.add_right_comm, Nat.add_assoc]
      exact h (k + 1) (Nat.succ_lt_succ hk)
    have hkeep := keep_eq_newAmong ⟨processed, unprocessed⟩ (partner.resolvents given)
    simp only at hkeep
    rw [List.length_cons, List.range'_succ, resolveAt,
      State.resolution_ofNat (s := ⟨processed, unprocessed⟩) hpartner hlast, resolveWith, hkeep]
    cases hrs : partner.resolvents given with
    | nil => simpa only [Application.resolution?, hrs, newAmong] using ih hrest unprocessed
    | cons r rs =>
      simp only [Application.resolution?, hrs]
      cases hkept : newAmong (State.all ⟨processed, unprocessed⟩) (r :: rs) with
      | nil => exact ih hrest unprocessed
      | cons k ks =>
        by_cases hclosed : (k :: ks).any LiteralSet.isEmpty = true
        · simp only [hclosed, if_true]
          rfl
        · simp only [hclosed, State.foldl_addUnprocessed, ih hrest]
          rfl

/-- A turn by its rules is the turn: no rule fails, whatever the search is like. -/
theorem turnByRules_eq (given : LiteralSet) (s : State) :
    turnByRules given s = .ok (turn given s) := by
  unfold turnByRules turn
  by_cases hempty : given.isEmpty = true
  · rw [if_pos hempty, if_pos hempty]
  rw [if_neg hempty, if_neg hempty]
  by_cases hsub : given.isSubsumedBy s.processed = true
  · rw [if_pos hsub, if_pos hsub]
  rw [if_neg hsub, if_neg hsub, State.subsumption_addProcessed]
  have hgiven : given ∉ s.processed := fun hmem =>
    hsub (isSubsumedBy_iff.2 ⟨given, hmem, fun _ => id⟩)
  simp only [State.removeDeleted_subsumption hgiven, List.length_append, List.length_singleton,
    Nat.add_sub_cancel, List.range_eq_range']
  have hlast : ((s.processed.filter fun c => !decide (given ⊆ c)) ++ [given])[
      (s.processed.filter fun c => !decide (given ⊆ c)).length]? = some given := by simp
  rw [resolveAt_eq hlast (by simp +contextual [List.getElem?_append_left])]
  rfl

end Saturation

end PropProver
