import PropProver.Proofs.Repeats
import PropProver.Refutation.Basic

/-!
# What cancellation finds

A round takes out of each pool what is in the other one as well, and leaves each atom of what remains
once (`Pools.pool_round`). So no atom is in both pools after it, none is there twice, and a second
round would find nothing to do (`Pools.settled_round`): the result of the first round is the result
(`Pools.settle_eq`).

At the start the pools have the atoms in the order in which the literals stand in the clauses. A round
keeps this order, so what is cancelled and what is left can be told from the literals alone
(`Firsts`). The verdict depends on nothing but the set of literals that occur (`run_cancellation`).
-/

namespace PropProver

namespace Cancellation

variable {ls : List Literal} {q r : Bool} {P : String → Prop} {as : List String} {a : String}

/-! ### The order of first occurrence -/

/-- Of the atoms that occur in literals of a polarity, those with a property are listed: each of
them once, in the order in which these literals occur first. -/
structure Firsts (ls : List Literal) (q : Bool) (P : String → Prop) (as : List String) : Prop where
  mem_iff : ∀ a, a ∈ as ↔ ⟨a, q⟩ ∈ ls ∧ P a
  nodup : as.Nodup
  ordered : as.Pairwise fun a b => ls.idxOf ⟨a, q⟩ < ls.idxOf ⟨b, q⟩

namespace Pools

/-- The pool of a polarity. -/
def pool (p : Pools) : Bool → List String
  | true => p.positive
  | false => p.negative

theorem ext_pool {p p' : Pools} (h : ∀ q, p.pool q = p'.pool q) : p = p' := by
  obtain ⟨positive, negative⟩ := p
  obtain ⟨positive', negative'⟩ := p'
  have hpositive : positive = positive' := h true
  have hnegative : negative = negative' := h false
  rw [hpositive, hnegative]

theorem pool_ofLiterals (ls : List Literal) (q : Bool) :
    (ofLiterals ls).pool q = (ls.filter (·.polarity == q)).map Literal.atom := by
  cases q <;> simp [ofLiterals, pool]

theorem map_pool_ofLiterals (ls : List Literal) (q : Bool) :
    ((ofLiterals ls).pool q).map (⟨·, q⟩) = ls.filter (·.polarity == q) := by
  rw [pool_ofLiterals, List.map_map]
  refine (List.map_congr_left fun l hl => ?_).trans (List.map_id _)
  rw [← beq_iff_eq.1 (List.mem_filter.1 hl).2]
  rfl

theorem mem_pool_ofLiterals : a ∈ (ofLiterals ls).pool q ↔ ⟨a, q⟩ ∈ ls := by
  rw [pool_ofLiterals, List.mem_map]
  constructor
  · rintro ⟨l, hl, rfl⟩
    obtain ⟨hl, hq⟩ := List.mem_filter.1 hl
    rwa [← beq_iff_eq.1 hq]
  · exact fun h => ⟨⟨a, q⟩, List.mem_filter.2 ⟨h, beq_self_eq_true q⟩, rfl⟩

/-- A pool without repeats is in the order of first occurrence, and so is any choice from it. -/
theorem firsts_ofLiterals (ls : List Literal) (q : Bool) (P : String → Prop) [DecidablePred P] :
    Firsts ls q P (((ofLiterals ls).pool q).eraseDups.filter P) where
  mem_iff a := by
    rw [List.mem_filter, List.mem_eraseDups, mem_pool_ofLiterals, decide_eq_true_iff]
  nodup := (nodup_eraseDups _).filter _
  ordered := by
    have hinj : Function.Injective fun a : String => (⟨a, q⟩ : Literal) :=
      fun a b h => congrArg Literal.atom h
    have hpairs := pairwise_idxOf_eraseDups (ls.filter (·.polarity == q))
    rw [← map_pool_ofLiterals, eraseDups_map_of_injective hinj, List.pairwise_map] at hpairs
    refine (hpairs.imp fun hab => ?_).filter _
    rw [map_pool_ofLiterals] at hab
    exact idxOf_lt_idxOf_of_filter (beq_self_eq_true q) (beq_self_eq_true q) hab

/-! ### Rounds -/

theorem mem_common {p : Pools} : a ∈ p.common ↔ a ∈ p.positive ∧ a ∈ p.negative := by
  rw [common, List.mem_filter, List.mem_eraseDups, decide_eq_true_iff]

/-- A round takes the members of the other pool out of a pool, and then the repeats. -/
theorem pool_round (p : Pools) (q : Bool) :
    p.round.pool q = (p.pool q).eraseDups.filter (· ∉ p.pool !q) := by
  rw [← eraseDups_filter]
  cases q with
  | true =>
    refine congrArg List.eraseDups (List.filter_congr fun a (ha : a ∈ p.positive) => ?_)
    simp [mem_common, pool, ha]
  | false =>
    refine congrArg List.eraseDups (List.filter_congr fun a (ha : a ∈ p.negative) => ?_)
    simp [mem_common, pool, ha]

theorem mem_pool_round {p : Pools} : a ∈ p.round.pool q ↔ a ∈ p.pool q ∧ a ∉ p.pool !q := by
  rw [pool_round, List.mem_filter, List.mem_eraseDups, decide_eq_true_iff]

/-- A round leaves nothing to be cancelled. -/
theorem common_round (p : Pools) : p.round.common = [] := by
  rw [List.eq_nil_iff_forall_not_mem]
  intro a ha
  obtain ⟨hpositive, hnegative⟩ := mem_common.1 ha
  exact (mem_pool_round (q := true).1 hpositive).2 (mem_pool_round (q := false).1 hnegative).1

theorem nodup_pool_round (p : Pools) (q : Bool) : (p.round.pool q).Nodup := by
  rw [pool_round]
  exact (nodup_eraseDups _).filter _

/-- There is nothing to cancel, and there are no repeats. -/
def Settled (p : Pools) : Prop := p.common = [] ∧ p.collapse = p

theorem settled_round (p : Pools) : p.round.Settled := by
  refine ⟨p.common_round, ext_pool fun q => ?_⟩
  have hcollapse : p.round.collapse.pool q = (p.round.pool q).eraseDups := by
    cases q <;> rfl
  rw [hcollapse, eraseDups_of_nodup (p.nodup_pool_round q)]

theorem Settled.round_eq {p : Pools} (h : p.Settled) : p.round = p := by
  have hwithout : p.without [] = p := by simp [without]
  rw [round, h.1, hwithout, h.2]

/-- `Settles p n as p'`: in `n` rounds from `p` there is something to cancel or to collapse, and after
them, at `p'`, there is nothing. The atoms `as` are cancelled on the way. -/
inductive Settles : Pools → Nat → List String → Pools → Prop where
  /-- There is nothing to do. -/
  | here {p : Pools} (h : p.Settled) : Settles p 0 [] p
  /-- A round with something to do comes before all others. -/
  | round {p p' : Pools} {n : Nat} {as : List String} (h : ¬ p.Settled)
      (rest : Settles p.round n as p') : Settles p (n + 1) (p.common ++ as) p'

/-- There is something to do in one round at most. -/
theorem exists_settles (p : Pools) : ∃ n ≤ 1, Settles p n p.common p.round := by
  by_cases h : p.Settled
  · refine ⟨0, Nat.zero_le 1, ?_⟩
    rw [h.1, h.round_eq]
    exact .here h
  · refine ⟨1, Nat.le_refl 1, ?_⟩
    have hall := Settles.round h (.here p.settled_round)
    rwa [List.append_nil] at hall

/-- The result of the first round is the result. -/
theorem settle_eq (p : Pools) : p.settle = (p.common, p.round) := by
  have hsettled := p.settled_round
  have hround : p.round.settle = ([], p.round) := by
    rw [settle, hsettled.round_eq, if_neg (Nat.lt_irrefl _), hsettled.1]
  rw [settle]
  split
  · simp only [hround, List.append_nil]
  · rfl

end Pools

/-! ### The result -/

theorem run_eq (cs : List (List Literal)) :
    run cs = ⟨.ofLiterals cs.flatten, (Pools.ofLiterals cs.flatten).common,
      (Pools.ofLiterals cs.flatten).round⟩ := by
  rw [run, Pools.settle_eq]

/-- What is left of a polarity are the atoms that do not occur with the other one. -/
theorem firsts_final (cs : List (List Literal)) (q : Bool) :
    Firsts cs.flatten q (fun a => ⟨a, !q⟩ ∉ cs.flatten) ((run cs).final.pool q) := by
  rw [run_eq, Pools.pool_round]
  simp only [Pools.mem_pool_ofLiterals]
  exact Pools.firsts_ofLiterals _ _ _

/-- What is cancelled are the atoms that occur with both polarities. -/
theorem firsts_cancelled (cs : List (List Literal)) :
    Firsts cs.flatten true (fun a => ⟨a, false⟩ ∈ cs.flatten) (run cs).cancelled := by
  rw [run_eq]
  have hnegative (a : String) : a ∈ (Pools.ofLiterals cs.flatten).negative ↔ _ :=
    Pools.mem_pool_ofLiterals (q := false)
  simp only [Pools.common, hnegative]
  exact Pools.firsts_ofLiterals _ true _

theorem unsatisfiable_run_iff (cs : List (List Literal)) :
    (run cs).unsatisfiable = true ↔ ∀ a, ⟨a, true⟩ ∈ cs.flatten ↔ ⟨a, false⟩ ∈ cs.flatten := by
  have hpool (q : Bool) : (run cs).final.pool q = [] ↔ ∀ a, ⟨a, q⟩ ∈ cs.flatten →
      ⟨a, !q⟩ ∈ cs.flatten := by
    rw [List.eq_nil_iff_forall_not_mem]
    simp only [(firsts_final cs q).mem_iff, not_and, not_not]
  rw [Outcome.unsatisfiable, Bool.and_eq_true, List.isEmpty_iff, List.isEmpty_iff]
  exact ((hpool true).and (hpool false)).trans
    ⟨fun h a => ⟨h.1 a, h.2 a⟩, fun h => ⟨fun a => (h a).1, fun a => (h a).2⟩⟩

/-- A clause that holds under every assignment counts as contradictory. -/
example : (run [[⟨"P", true⟩, ⟨"P", false⟩]]).unsatisfiable = true := by cbv

end Cancellation

/-- **Cancellation**: the strategy always comes to an end, and there is something to do in one round
at most. It reports a contradiction exactly if the atoms that occur positively are those that occur
negatively. What is left of each polarity are the atoms that do not occur with the other one, in the
order of their first occurrence with this polarity. The inferences cancel the atoms that occur with
both, each of them once, in the order of their first positive occurrence. So clauses with the same
literals, in whatever order, number and distribution, have the same verdict. -/
theorem run_cancellation (limit : Option Int) (cs : List (List Literal)) :
    ∃ o, Strategy.cancellation.run limit cs = .ok (.cancellation o) ∧
      (∃ n ≤ 1, (Cancellation.Pools.ofLiterals cs.flatten).Settles n o.cancelled o.final) ∧
      (o.unsatisfiable = true ↔ ∀ a, ⟨a, true⟩ ∈ cs.flatten ↔ ⟨a, false⟩ ∈ cs.flatten) ∧
      Cancellation.Firsts cs.flatten true (fun a => ⟨a, false⟩ ∉ cs.flatten) o.final.positive ∧
      Cancellation.Firsts cs.flatten false (fun a => ⟨a, true⟩ ∉ cs.flatten) o.final.negative ∧
      (∃ as, Cancellation.Firsts cs.flatten true (fun a => ⟨a, false⟩ ∈ cs.flatten) as ∧
        o.applications = as.map Cancellation.cancel) ∧
      ∀ ds limit', (∀ l, l ∈ ds.flatten ↔ l ∈ cs.flatten) →
        ∃ o', Strategy.cancellation.run limit' ds = .ok (.cancellation o') ∧
          o'.unsatisfiable = o.unsatisfiable := by
  refine ⟨Cancellation.run cs, rfl, ?_, Cancellation.unsatisfiable_run_iff cs,
    Cancellation.firsts_final cs true, Cancellation.firsts_final cs false,
    ⟨_, Cancellation.firsts_cancelled cs, rfl⟩, fun ds limit' h => ⟨Cancellation.run ds, rfl, ?_⟩⟩
  · rw [Cancellation.run_eq]
    exact Cancellation.Pools.exists_settles _
  · rw [Bool.eq_iff_iff, Cancellation.unsatisfiable_run_iff, Cancellation.unsatisfiable_run_iff]
    simp only [h]

end PropProver
