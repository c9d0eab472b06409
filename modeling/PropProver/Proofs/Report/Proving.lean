import PropProver.Proofs.Malformed
import PropProver.Proofs.Refutation
import PropProver.Proofs.Saturation.Limit
import PropProver.Report.Basic

/-!
# What a proof comes to

A proof ends with a report, with a failure of the formula or of the limit, or with a fault in what
was asked for. Whether there is a fault depends on the formula: a value that is never needed is
never found wrong. `Options.Suits` says what has to be right for one formula. A proof settles, that
is ends without a fault, exactly then (`settles_prove_iff`).

The strategy is needed always, and the limit if saturation has a clause to begin with. The table is
needed even for the negation of an atom, which it leaves as it is, since its name is told; but
only after the search, which may reach its limit first.
-/

namespace PropProver

/-- A value is the name of a registered thing. -/
def Registry.Names {α : Type} (r : Registry α) (x : Json) (a : α) : Prop :=
  ∃ name, x = .str name ∧ r.find name = .ok a

theorem Registry.choose_eq_known_iff {α : Type} {r : Registry α} {x : Json} {a : α} :
    r.choose x = .ok (.known a) ↔ r.Names x a := by
  cases x with
  | str name => cases h : r.find name <;> simp [choose, Names, h, Functor.map, Except.map]
  | _ => simp [choose, Names]

/-- No name was chosen exactly if the value is none. -/
theorem Registry.choose_eq_other_iff {α : Type} {r : Registry α} {x : Json} {kind : String} :
    r.choose x = .ok (.other kind) ↔ (∀ name, x ≠ .str name) ∧ x.typeName = kind := by
  cases x with
  | str name => cases h : r.find name <;> simp [choose, h, Functor.map, Except.map]
  | _ => simp [choose]

/-! ### Proofs without a fault -/

/-- A computation comes to a value, or to a failure of the formula or the limit. -/
def Settles {α : Type} (x : Except ProofError α) : Prop :=
  ∀ e, x = .error e → e.isFailure = true

section Settles

variable {α : Type}

@[simp] theorem settles_ok (a : α) : Settles (.ok a : Except ProofError α) := nofun

@[simp] theorem settles_error {e : ProofError} :
    Settles (.error e : Except ProofError α) ↔ e.isFailure = true :=
  ⟨fun h => h e rfl, fun h _ he => Except.error.inj he ▸ h⟩

theorem settles_mapError_limit (asked : Json) (x : Except Saturation.LimitReached α) :
    Settles (x.mapError (.limit asked)) := by
  cases x <;> simp [Except.mapError, ProofError.isFailure]

theorem settles_bind_pure {β : Type} (x : Except ProofError α) (f : α → β) :
    Settles (x >>= fun a => pure (f a)) ↔ Settles x := by
  cases x <;> simp [bind, Except.bind, pure, Except.pure]

end Settles

/-! ### The limit of a search -/

namespace Saturation

theorem initial_eq_nil_iff {clauses : List LiteralSet} :
    initial clauses = [] ↔ ∀ c ∈ clauses, c.isTautology = true := by
  simp [List.eq_nil_iff_forall_not_mem, mem_initial]

/-- A single clause is the only given clause. -/
theorem run_singleton_eq_error_iff {c : LiteralSet} (htaut : c.isTautology = false)
    (hne : c.isEmpty = false) (n : Int) :
    (∃ e, run (some n) [c] = .error e) ↔ n ≤ 0 := by
  have hinitial : initial [c] = [c] := by simp [initial, htaut, List.eraseDups_cons]
  have hnext : State.next? ⟨[], [c]⟩ = some (c, ⟨[], []⟩) := rfl
  have hturn : turn c ⟨[], []⟩ = ⟨false, ⟨[c], []⟩, [.given c]⟩ := by
    simp [turn, hne, LiteralSet.isSubsumedBy, resolveWith, Application.subsumption?]
  have hends : EndsWithin 1 ⟨[], initial [c]⟩ ⟨false, ⟨[c], []⟩, 1, [.given c]⟩ := by
    rw [hinitial]
    have hlast : EndsWithin 0 ⟨[c], []⟩ ⟨false, ⟨[c], []⟩, 0, []⟩ := .exhausted rfl
    rw [← show (turn c ⟨[], []⟩).state = ⟨[c], []⟩ by rw [hturn]] at hlast
    have h := EndsWithin.turn hnext (by rw [hturn]) hlast
    rw [hturn] at h
    exact h
  rw [run_some_eq_ite hends]
  by_cases hn : n ≤ 0
  · rw [if_neg (by show ¬ (1 : Int) ≤ max n 0; omega)]
    simp [hn]
  · rw [if_pos (by show (1 : Int) ≤ max n 0; omega)]
    simp [hn]

end Saturation

/-! ### The refutation of a formula -/

namespace Formula

/-- A limit can be used: it is one, or it is never compared with anything, since saturation is not
asked for or has no clause to begin with. -/
def AdmitsLimit (f : Formula) (s : Strategy) (t : Table) (maxSteps : Json) : Prop :=
  limitOf? maxSteps ≠ none ∨ s ≠ .saturation ∨
    ∀ c ∈ (normalForm t (.neg f)).clauses, (LiteralSet.ofList c).isTautology = true

theorem settles_refuteWithin_iff (f : Formula) (s : Strategy) (t : Table) (maxSteps : Json) :
    Settles (f.refuteWithin s t maxSteps) ↔ f.AdmitsLimit s t maxSteps := by
  unfold refuteWithin AdmitsLimit
  cases limitOf? maxSteps with
  | some limit => simp [settles_mapError_limit]
  | none =>
    simp only [ne_eq, not_true_eq_false, false_or]
    split
    · next h =>
      rw [Saturation.initial_eq_nil_iff, List.forall_mem_map] at h
      rw [settles_error]
      exact ⟨nofun, fun hadmits => hadmits.elim (absurd h.1) (absurd · h.2)⟩
    · next h =>
      rw [Saturation.initial_eq_nil_iff, List.forall_mem_map] at h
      simp only [settles_mapError_limit, true_iff]
      tauto

theorem exists_refute_none (s : Strategy) (t : Table) (f : Formula) :
    ∃ r, f.refute s t none = .ok r := by
  obtain ⟨o, ho⟩ := s.exists_run_none (normalForm t (.neg f)).clauses
  exact ⟨_, refute_eq_ok_iff.2 ⟨o, ho, rfl⟩⟩

theorem clauses_normalForm_neg_atom (t : Table) (a : String) :
    (normalForm t (.neg (.atom a))).clauses = [[⟨a, false⟩]] := by
  cbv

/-- Only saturation has a limit, and for an atom it is reached if it admits no given clause. -/
theorem refute_atom_eq_error_iff (s : Strategy) (t : Table) (limit : Option Int) (a : String) :
    (∃ e, refute s t limit (.atom a) = .error e) ↔
      s = .saturation ∧ ∃ n ≤ 0, limit = some n := by
  cases limit with
  | none =>
    obtain ⟨r, hr⟩ := exists_refute_none s t (.atom a)
    simp [hr]
  | some n =>
    rw [refute_eq_map, clauses_normalForm_neg_atom]
    cases s with
    | cancellation => simp [Strategy.run, Functor.map, Except.map]
    | saturation =>
      have htaut : (LiteralSet.ofList [⟨a, false⟩]).isTautology = false := by
        rw [LiteralSet.isTautology_eq_false_iff]
        simp [Literal.complement]
      have hlimit : (∃ m ≤ 0, some n = some m) ↔ n ≤ 0 := by simp
      rw [hlimit, ← Saturation.run_singleton_eq_error_iff htaut rfl n]
      simp only [Strategy.run, List.map_singleton, true_and]
      cases Saturation.run (some n) [LiteralSet.ofList [⟨a, false⟩]] <;>
        simp [Functor.map, Except.map]

theorem refuteWithin_atom_fails_iff (s : Strategy) (t : Table) (maxSteps : Json) (a : String) :
    (∃ e, refuteWithin (.atom a) s t maxSteps = .error e ∧ e.isFailure = true) ↔
      s = .saturation ∧ ∃ n ≤ 0, limitOf? maxSteps = some (some n) := by
  unfold refuteWithin
  cases hlimit : limitOf? maxSteps with
  | none =>
    obtain ⟨r, hr⟩ := exists_refute_none s t (.atom a)
    dsimp only
    split <;> simp [hr, ProofError.isFailure, Except.mapError]
  | some limit =>
    simp only [Option.some.injEq, ← refute_atom_eq_error_iff s t limit a]
    cases refute s t limit (.atom a) <;> simp [Except.mapError, ProofError.isFailure]

theorem settles_refuteBy_other_iff (f : Formula) (s : Strategy) (kind : String) (maxSteps : Json) :
    Settles (f.refuteBy maxSteps (.known s) (.other kind)) ↔
      (∃ a, f = .atom a) ∧ s = .saturation ∧ ∃ n ≤ 0, limitOf? maxSteps = some (some n) := by
  cases f with
  | atom a =>
    rw [← refuteWithin_atom_fails_iff s .classical maxSteps a]
    have hliteral : (Tree.neg (.atom a) : Formula).isLiteral = true := rfl
    simp only [refuteBy, hliteral, if_true]
    cases refuteWithin (.atom a) s .classical maxSteps <;>
      simp [bind, Except.bind, ProofError.isFailure]
  | foreign v => exact v.elim
  | _ => simp [refuteBy, Tree.isLiteral, Tree.literal?, ProofError.isFailure]

theorem not_settles_refuteBy_other (f : Formula) (kind : String) (t : Choice Table)
    (maxSteps : Json) : ¬ Settles (f.refuteBy maxSteps (.other kind) t) := by
  cases t with
  | known t => simp [refuteBy, ProofError.isFailure]
  | other kind' =>
    simp only [refuteBy]
    split <;> simp [ProofError.isFailure]

end Formula

/-! ### A whole proof -/

/-- What is asked of a proof is right as far as one formula needs it. -/
inductive Options.Suits (o : Options) (f : Formula) : Prop where
  /-- The strategy and the table are known, and the limit can be used. -/
  | known {s : Strategy} {t : Table} : Strategy.registry.Names o.strategy s →
      Table.registry.Names o.table t → f.AdmitsLimit s t o.maxSteps → o.Suits f
  /-- The formula is an atom, and no given clause is admitted: the limit is reached before the name
  of the table is told. -/
  | unnamed {a : String} {n : Int} : Strategy.registry.Names o.strategy .saturation →
      (∀ name, o.table ≠ .str name) → f = .atom a → limitOf? o.maxSteps = some (some n) → n ≤ 0 →
      o.Suits f

theorem Options.Suits.settles {o : Options} {text : Codes} {f : Formula} (h : o.Suits f)
    (hf : Formula.ofCodes text = .ok f) : Settles (prove o text) := by
  unfold prove
  cases h with
  | known hs ht hadmits =>
    rw [hf, Registry.choose_eq_known_iff.2 hs, Registry.choose_eq_known_iff.2 ht]
    exact (settles_bind_pure _ _).2 ((f.settles_refuteWithin_iff _ _ _).2 hadmits)
  | unnamed hs ht hatom hlimit hn =>
    rw [hf, Registry.choose_eq_known_iff.2 hs, Registry.choose_eq_other_iff.2 ⟨ht, rfl⟩]
    exact (settles_bind_pure _ _).2
      ((f.settles_refuteBy_other_iff _ _ _).2 ⟨⟨_, hatom⟩, rfl, _, hn, hlimit⟩)

theorem suits_of_settles {o : Options} {text : Codes} {f : Formula} (h : Settles (prove o text))
    (hf : Formula.ofCodes text = .ok f) : o.Suits f := by
  rw [prove, hf] at h
  cases hs : Strategy.registry.choose o.strategy with
  | error e =>
    rw [hs] at h
    exact absurd (settles_error.1 h) Bool.false_ne_true
  | ok s =>
    cases ht : Table.registry.choose o.table with
    | error e =>
      rw [hs, ht] at h
      exact absurd (settles_error.1 h) Bool.false_ne_true
    | ok t =>
      rw [hs, ht] at h
      have hrefute : Settles (f.refuteBy o.maxSteps s t) := (settles_bind_pure _ _).1 h
      cases s with
      | other kind => exact absurd hrefute (f.not_settles_refuteBy_other kind t _)
      | known s =>
        have hs := Registry.choose_eq_known_iff.1 hs
        cases t with
        | known t =>
          have hadmits := (f.settles_refuteWithin_iff s t _).1 hrefute
          exact .known hs (Registry.choose_eq_known_iff.1 ht) hadmits
        | other kind =>
          obtain ⟨⟨a, ha⟩, rfl, n, hn, hlimit⟩ :=
            (f.settles_refuteBy_other_iff s kind _).1 hrefute
          exact .unnamed hs (Registry.choose_eq_other_iff.1 ht).1 ha hlimit hn

/-- A proof settles exactly if its text is no formula, or what is asked suits the formula. -/
theorem settles_prove_iff {o : Options} {text : Codes} :
    Settles (prove o text) ↔ ∀ f, Formula.ofCodes text = .ok f → o.Suits f := by
  refine ⟨fun h f => suits_of_settles h, fun h => ?_⟩
  cases hf : Formula.ofCodes text with
  | ok f => exact (h f hf).settles hf
  | error e =>
    rw [prove, hf]
    exact settles_error.2 (Formula.isFailure_of_ofCodes hf)

end PropProver
