import PropProver.Queue
import PropProver.Sequent.Rules
import PropProver.Sequent.Trace

/-!
# Proof search

The search starts from the sequent that has the formula alone on its right. It keeps a queue of
sequents. The first of them is expanded at its first formula that is no atom: a single premise
takes its place in the queue, and two premises go to the end. A sequent of atoms only leaves the
queue. Every sequent that is made is recorded in the trace, and the premises of an expansion are
written out. A foreign value in the place of a formula is noticed when a premise is written, or
when it is selected and there is no rule for it.

The search ends since every premise has less search weight than its conclusion.
-/

namespace PropProver.Search

universe u

variable {ι : Type u}

/-- What happens to a sequent when its turn comes. -/
inductive Visit (ι : Type u) where
  /-- It has atoms only. -/
  | leaf (s : Sequent ι)
  /-- It is expanded. -/
  | expanded (s : Sequent ι) (inference : Sequent.Inference ι)
  deriving DecidableEq, Repr

/-- What a search has done. -/
structure Result (ι : Type u) where
  /-- All sequents that were made. -/
  trace : Trace ι := {}
  /-- The visits in order. -/
  visits : Array (Visit ι) := #[]
  deriving DecidableEq, Repr

/-- One visit more. -/
def Result.visit : Result ι → Visit ι → Result ι
  | ⟨trace, visits⟩, v => ⟨trace, visits.push v⟩

/-- One sequent more, made from an entry by a rule. -/
def Result.add : Result ι → Sequent ι → Nat → Sequent.Rule → Result ι
  | ⟨trace, visits⟩, s, parent, rule => ⟨trace.add s (some parent) (some rule.name), visits⟩

/-- A sequent in the queue, with its index in the trace. -/
structure Open (ι : Type u) where
  /-- The index of its entry. -/
  index : Nat
  /-- The sequent. -/
  sequent : Sequent ι
  deriving DecidableEq, Repr

/-- A bound for the number of visits on account of a sequent in the queue. -/
def Open.effort (o : Open ι) : Nat := Weight.effort o.sequent.searchWeight

/-- Why there is no search for something, or none that comes to an end. -/
inductive Error (ι : Type u) where
  /-- It is no formula. -/
  | notFormula (value : ι)
  /-- A premise holds something that is no formula. -/
  | foreign (value : ι)
  /-- There is no rule for what was selected. -/
  | noRule (e : Sequent.ExpandError ι)
  deriving DecidableEq, Repr

/-- The inference that a sequent is expanded by when its turn comes, with premises that can be
written; there is none at an axiom. -/
def infer (s : Sequent ι) : Except (Error ι) (Option (Sequent.Inference ι)) :=
  match s.select with
  | none => .ok none
  | some (side, i) =>
    match s.expand side i with
    | .error e => .error (.noRule e)
    | .ok inference =>
      match inference.premises.mapM Sequent.check with
      | .error v => .error (.foreign v)
      | .ok _ => .ok (some inference)

theorem inference?_of_infer {s : Sequent ι} {inference : Sequent.Inference ι}
    (h : infer s = .ok (some inference)) : s.inference? = some inference := by
  unfold infer at h
  split at h
  · cases h
  · next side i hs =>
    split at h
    · cases h
    · next he =>
      split at h
      · cases h
      · cases h
        simp [Sequent.inference?, hs, he, Except.toOption]

/-- Works off a queue, given what was done before. -/
def fromQueue (q : Queue (Open ι)) (r : Result ι) : Except (Error ι) (Result ι) :=
  match _hq : q.pop? with
  | none => .ok r
  | some (o, rest) =>
    match _hi : infer o.sequent with
    | .error e => .error e
    | .ok none => fromQueue rest (r.visit (.leaf o.sequent))
    | .ok (some (.one rule p)) =>
      let i := r.trace.size
      fromQueue (rest.prepend [⟨i, p⟩])
        ((r.visit (.expanded o.sequent (.one rule p))).add p o.index rule)
    | .ok (some (.two rule p q)) =>
      let i := r.trace.size
      fromQueue (rest.append [⟨i, p⟩, ⟨i + 1, q⟩])
        (((r.visit (.expanded o.sequent (.two rule p q))).add p o.index rule).add q o.index rule)
  termination_by Weight.total Open.effort q.toList
  decreasing_by
    · simpa [Queue.toList_of_pop? _hq, Open.effort] using Weight.effort_pos _
    · have hi := inference?_of_infer _hi
      have hp := Sequent.searchWeight_inference_lt hi p (by simp [Sequent.Inference.premises])
      simpa [Queue.toList_of_pop? _hq, Open.effort] using Weight.effort_lt hp
    · have hi := inference?_of_infer _hi
      have hp := Sequent.searchWeight_inference_lt hi p (by simp [Sequent.Inference.premises])
      have hq := Sequent.searchWeight_inference_lt hi q (by simp [Sequent.Inference.premises])
      have := Weight.effort_add_lt hp hq
      simp [Queue.toList_of_pop? _hq, Open.effort]
      omega

theorem fromQueue_of_none {q : Queue (Open ι)} {r : Result ι} (h : q.pop? = none) :
    fromQueue q r = .ok r := by
  rw [fromQueue]
  split
  · rfl
  · next hq =>
    rw [h] at hq
    cases hq

/-- The first sequent of the queue has its turn. -/
theorem fromQueue_of_some {q rest : Queue (Open ι)} {r : Result ι} {o : Open ι}
    (h : q.pop? = some (o, rest)) :
    fromQueue q r =
      match infer o.sequent with
      | .error e => .error e
      | .ok none => fromQueue rest (r.visit (.leaf o.sequent))
      | .ok (some (.one rule p)) =>
        fromQueue (rest.prepend [⟨r.trace.size, p⟩])
          ((r.visit (.expanded o.sequent (.one rule p))).add p o.index rule)
      | .ok (some (.two rule p p')) =>
        fromQueue (rest.append [⟨r.trace.size, p⟩, ⟨r.trace.size + 1, p'⟩])
          (((r.visit (.expanded o.sequent (.two rule p p'))).add p o.index rule).add p' o.index
            rule) := by
  rw [fromQueue]
  split
  · next hq =>
    rw [h] at hq
    cases hq
  · next hq =>
    rw [h] at hq
    cases hq
    split <;> next hi => simp only [hi]

/-- What the search has no rule for is foreign. -/
theorem exists_foreign_of_infer {s : Sequent ι} {e : Sequent.ExpandError ι}
    (h : infer s = .error (.noRule e)) : ∃ side v, e = .noRule side (.foreign v) := by
  unfold infer at h
  split at h
  · cases h
  · next side n hs =>
    split at h
    · next e' he =>
      cases h
      exact ⟨side, Sequent.exists_foreign_of_expand_eq_error hs he⟩
    · split at h <;> cases h

/-- A search that ends for want of a rule has come to a foreign value. -/
theorem exists_foreign_of_fromQueue {q : Queue (Open ι)} {r : Result ι}
    {e : Sequent.ExpandError ι} (h : fromQueue q r = .error (.noRule e)) :
    ∃ side v, e = .noRule side (.foreign v) := by
  induction q, r using fromQueue.induct with
  | case1 q r hq =>
    rw [fromQueue_of_none hq] at h
    cases h
  | case2 q r o rest hq e' hi =>
    rw [fromQueue_of_some hq, hi] at h
    cases h
    exact exists_foreign_of_infer hi
  | case3 q r o rest hq hi ih =>
    rw [fromQueue_of_some hq, hi] at h
    exact ih h
  | case4 q r o rest hq rule p hi i ih =>
    rw [fromQueue_of_some hq, hi] at h
    exact ih h
  | case5 q r o rest hq rule p p' hi i ih =>
    rw [fromQueue_of_some hq, hi] at h
    exact ih h

/-- The search for a derivation of a tree. -/
def ofTree : Tree ι → Except (Error ι) (Result ι)
  | .foreign v => .error (.notFormula v)
  | t =>
    let goal : Sequent ι := ⟨[], [t]⟩
    fromQueue (.singleton ⟨0, goal⟩) { trace := ({} : Trace ι).add goal none none }

end PropProver.Search

namespace PropProver

/-- There is a rule for all that a search for a formula selects. -/
theorem Search.ofTree_ne_noRule (f : Formula) (e : Sequent.ExpandError Empty) :
    ofTree f ≠ .error (.noRule e) := by
  intro h
  obtain ⟨-, v, -⟩ : ∃ side v, e = .noRule side (.foreign v) := by
    cases f with
    | foreign v => exact v.elim
    | _ => exact exists_foreign_of_fromQueue h
  exact v.elim

/-- A formula holds no foreign value, so nothing stands in the way of the search for a derivation
of it. -/
def Formula.search (f : Formula) : Search.Result Empty :=
  match _h : Search.ofTree f with
  | .ok r => r
  | .error (.notFormula v) => v.elim
  | .error (.foreign v) => v.elim
  | .error (.noRule e) => absurd _h (Search.ofTree_ne_noRule f e)

theorem Formula.search_eq {f : Formula} {r : Search.Result Empty} (h : Search.ofTree f = .ok r) :
    f.search = r := by
  unfold search
  split
  · next r' hr' => exact Except.ok.inj (hr'.symm.trans h)
  · next v _ => exact v.elim
  · next v _ => exact v.elim
  · next e he => exact absurd he (Search.ofTree_ne_noRule f e)

end PropProver
