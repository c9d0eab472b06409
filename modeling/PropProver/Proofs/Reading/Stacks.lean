import PropProver.Proofs.Reading.Grammar

/-!
# What the reader does to its stacks

Connectives that wait are completed as long as they bind at least as tightly as a floor. The
equations of `complete` say what that comes to when the operands are there, and `completeGroup` is
the case of the lowest floor (`completeGroup_eq`). A `Step` is the reading of one token that is not
refused.

Every operand is one more formula and every binary connective needs one more, so the `slack` of the
stacks is never positive. Tokens that stand where they may keep it, and a connective or a closing
bracket in the place of an operand lowers it for good (`Step.slack`).
-/

namespace PropProver.Reading

/-! ### Completing connectives -/

variable {floor : Nat} {op : Connective} {t : Token} {ps qs : List Pending}
  {fs gs : List Formula} {x l r : Formula}

theorem complete_negation :
    complete floor (.negation t :: ps) (x :: fs) = complete floor ps (.neg x :: fs) := rfl

theorem complete_binary (h : floor ≤ op.precedence) :
    complete floor (.binary op t :: ps) (r :: l :: fs) = complete floor ps (.bin op l r :: fs) := by
  rw [complete, if_pos h]
  rfl

theorem complete_binary_of_lt (h : op.precedence < floor) :
    complete floor (.binary op t :: ps) fs = .ok (.binary op t :: ps, fs) := by
  rw [complete, if_neg (Nat.not_le.2 h)]

theorem complete_bracket :
    complete floor (.bracket t :: ps) fs = .ok (.bracket t :: ps, fs) := rfl

theorem complete_nil : complete floor [] fs = .ok ([], fs) := rfl

/-- The innermost open bracket, if nothing waits after it, with what waits before it. -/
def openBracket? : List Pending → Option (Token × List Pending)
  | .bracket b :: ps => some (b, ps)
  | _ => none

/-- No connective binds looser than equivalence, so its floor leaves none after the innermost open
bracket. -/
theorem completeGroup_eq (ps : List Pending) (fs : List Formula) :
    completeGroup ps fs =
      (complete Connective.iff.precedence ps fs).map fun (qs, gs) => (openBracket? qs, gs) := by
  induction ps generalizing fs with
  | nil => rfl
  | cons p ps ih =>
    cases p with
    | bracket b => rfl
    | negation t =>
      cases fs with
      | nil => rfl
      | cons x fs => exact ih (.neg x :: fs)
    | binary op t =>
      rw [complete, if_pos op.iff_precedence_le]
      match fs with
      | [] => rfl
      | [_] => rfl
      | r :: l :: fs => exact ih (.bin op l r :: fs)

/-- One connective after the other is completed, until there is none that binds as tightly as the
floor. -/
inductive Completes (floor : Nat) : List Pending → List Formula → List Pending → List Formula → Prop
    where
  /-- Nothing waits. -/
  | nil {fs : List Formula} : Completes floor [] fs [] fs
  /-- A bracket is open. -/
  | bracket {t : Token} {ps : List Pending} {fs : List Formula} :
      Completes floor (.bracket t :: ps) fs (.bracket t :: ps) fs
  /-- A looser connective goes on waiting. -/
  | looser {op : Connective} {t : Token} {ps : List Pending} {fs : List Formula} :
      op.precedence < floor → Completes floor (.binary op t :: ps) fs (.binary op t :: ps) fs
  /-- A negation is completed. -/
  | negation {t : Token} {x : Formula} {ps qs : List Pending} {fs gs : List Formula} :
      Completes floor ps (.neg x :: fs) qs gs → Completes floor (.negation t :: ps) (x :: fs) qs gs
  /-- A binary connective is completed. -/
  | binary {op : Connective} {t : Token} {l r : Formula} {ps qs : List Pending}
      {fs gs : List Formula} : floor ≤ op.precedence → Completes floor ps (.bin op l r :: fs) qs gs →
      Completes floor (.binary op t :: ps) (r :: l :: fs) qs gs

theorem completes_of_complete (h : complete floor ps fs = .ok (qs, gs)) :
    Completes floor ps fs qs gs := by
  induction ps generalizing fs with
  | nil =>
    cases h
    exact .nil
  | cons p ps ih =>
    cases p with
    | bracket b =>
      cases h
      exact .bracket
    | negation t =>
      cases fs with
      | nil => cases h
      | cons x fs => exact .negation (ih h)
    | binary op t =>
      by_cases hf : floor ≤ op.precedence
      · rw [complete, if_pos hf] at h
        match fs with
        | [] => cases h
        | [_] => cases h
        | r :: l :: fs => exact .binary hf (ih h)
      · rw [complete, if_neg hf] at h
        cases h
        exact .looser (Nat.not_le.1 hf)

/-- Only an open bracket is left by the lowest floor. -/
theorem Completes.eq_nil (h : Completes Connective.iff.precedence ps fs qs gs)
    (hqs : openBracket? qs = none) : qs = [] := by
  induction h with
  | nil => rfl
  | bracket => cases hqs
  | @looser op _ _ _ hop => exact absurd op.iff_precedence_le (Nat.not_le.2 hop)
  | negation _ ih => exact ih hqs
  | binary _ _ ih => exact ih hqs

/-! ### Operands of what waits -/

/-- A phrase of the nonterminal may be the operand of what waits on top. -/
def Fits (n : Nonterminal) : List Pending → Prop
  | .negation _ :: _ => n = .operand
  | .binary op _ :: _ => op.precedence < n.precedence
  | _ => True

theorem fits_operand (ps : List Pending) : Fits .operand ps := by
  match ps with
  | [] => trivial
  | .bracket _ :: _ => trivial
  | .negation _ :: _ => rfl
  | .binary op _ :: _ =>
    have := op.tighter.precedence_le_operand
    rwa [op.precedence_tighter] at this

theorem fits_tighter (op : Connective) (t : Token) (ps : List Pending) :
    Fits op.tighter (.binary op t :: ps) := by
  rw [Fits, op.precedence_tighter]
  exact Nat.lt_succ_self _

theorem Fits.tighter (h : Fits (.chain op) ps) : Fits op.tighter ps := by
  match ps with
  | [] => trivial
  | .bracket _ :: _ => trivial
  | .negation _ :: _ => cases h
  | .binary op' _ :: _ =>
    rw [Fits, op.precedence_tighter]
    exact Nat.lt_succ_of_lt h

/-- Where a phrase of the connective's nonterminal fits, nothing waits for the connective. -/
theorem complete_of_fits (h : Fits (.chain op) ps) (hfloor : op.precedence ≤ floor)
    (fs : List Formula) : complete floor ps fs = .ok (ps, fs) := by
  match ps with
  | [] => rfl
  | .bracket _ :: _ => rfl
  | .negation _ :: _ => cases h
  | .binary op' _ :: _ => exact complete_binary_of_lt (Nat.lt_of_lt_of_le h hfloor)

/-! ### Reading one token -/

/-- The state after a token that is not refused. -/
inductive Step (s : State) (t : Token) (isLast : Bool) : State → Prop where
  /-- A bracket is opened. -/
  | opening : t.kind = .openBracket → s.expectsOperand = true →
      Step s t isLast { s with pending := .bracket t :: s.pending }
  /-- An atom is a formula. -/
  | atom : t.kind = .atom → s.expectsOperand = true →
      Step s t isLast ⟨s.pending, .atom t.lexeme :: s.formulas, false⟩
  /-- A negation waits. -/
  | negation : t.kind = .not → s.expectsOperand = true →
      Step s t isLast { s with pending := .negation t :: s.pending }
  /-- A binary connective waits after completing what binds as tightly. -/
  | binary {op : Connective} {qs : List Pending} {gs : List Formula} : t.kind = .binary op →
      complete op.precedence s.pending s.formulas = .ok (qs, gs) →
      Step s t isLast ⟨.binary op t :: qs, gs, true⟩
  /-- A bracket is closed. -/
  | closing {b : Token} {qs : List Pending} {gs : List Formula} : t.kind = .closeBracket →
      complete Connective.iff.precedence s.pending s.formulas = .ok (.bracket b :: qs, gs) →
      (qs = [] → isLast = true) → Step s t isLast ⟨qs, gs, false⟩

theorem step_eq_ok_iff {s s' : State} {isLast : Bool} :
    s.step t isLast = .ok s' ↔ Step s t isLast s' := by
  constructor
  · intro h
    unfold State.step at h
    split at h
    · next hk =>
      split at h
      · next he =>
        cases h
        exact .opening hk he
      · cases h
    · next hk =>
      split at h
      · next he =>
        cases h
        exact .atom hk he
      · cases h
    · next hk =>
      split at h
      · next he =>
        cases h
        exact .negation hk he
      · cases h
    · next op hk =>
      cases hc : complete op.precedence s.pending s.formulas with
      | error e =>
        rw [hc] at h
        cases h
      | ok p =>
        rw [hc] at h
        cases h
        exact .binary hk hc
    · next hk =>
      rw [completeGroup_eq] at h
      cases hc : complete Connective.iff.precedence s.pending s.formulas with
      | error e =>
        rw [hc] at h
        cases h
      | ok p =>
        obtain ⟨qs, gs⟩ := p
        rw [hc] at h
        match qs with
        | [] => cases h
        | .negation _ :: _ => cases h
        | .binary _ _ :: _ => cases h
        | .bracket b :: qs =>
          simp only [bind, Except.bind, Except.map, openBracket?] at h
          split at h
          · cases h
          · next hlast =>
            cases h
            refine .closing hk hc fun hqs => ?_
            simpa [hqs] using hlast
  · intro h
    cases h with
    | opening hk he => simp [State.step, hk, he]
    | atom hk he => simp [State.step, hk, he]
    | negation hk he => simp [State.step, hk, he]
    | binary hk hc =>
      simp only [State.step, hk, hc]
      rfl
    | @closing b qs gs hk hc hlast =>
      have hcond : ¬ (qs.isEmpty && !isLast) = true := by
        simpa using hlast
      simp only [State.step, hk, completeGroup_eq, hc]
      simp only [bind, Except.bind, Except.map, openBracket?, hcond]
      rfl

theorem run_nil (s : State) : s.run [] = .ok s := rfl

theorem run_cons (s : State) (t : Token) (ts : List Token) :
    s.run (t :: ts) = (s.step t ts.isEmpty).bind fun s' => s'.run ts := rfl

theorem run_of_step {s s' : State} {ts : List Token} (h : Step s t ts.isEmpty s') :
    s.run (t :: ts) = s'.run ts := by
  rw [run_cons, step_eq_ok_iff.2 h]
  rfl

/-- At the end one formula is left, and nothing waits. -/
theorem finish_eq_ok_iff {s : State} {f : Formula} :
    s.finish = .ok f ↔
      complete Connective.iff.precedence s.pending s.formulas = .ok ([], [f]) := by
  rw [State.finish, completeGroup_eq]
  cases hc : complete Connective.iff.precedence s.pending s.formulas with
  | error e => exact ⟨nofun, nofun⟩
  | ok p =>
    obtain ⟨qs, gs⟩ := p
    simp only [bind, Except.bind, Except.map, Except.ok.injEq, Prod.mk.injEq]
    cases hqs : openBracket? qs with
    | some b =>
      refine ⟨nofun, ?_⟩
      rintro ⟨rfl, -⟩
      cases hqs
    | none =>
      cases (completes_of_complete hc).eq_nil hqs
      match gs with
      | [] => exact ⟨nofun, nofun⟩
      | [g] => simp
      | _ :: _ :: _ => exact ⟨nofun, nofun⟩

/-! ### Counting operands -/

/-- Whether a binary connective waits. -/
def Pending.isBinary : Pending → Bool
  | .binary _ _ => true
  | _ => false

/-- The formulas that are there, less the binary connectives that will join two. -/
def surplus (ps : List Pending) (fs : List Formula) : Int := fs.length - ps.countP Pending.isBinary

@[simp] theorem surplus_formula (ps : List Pending) (x : Formula) (fs : List Formula) :
    surplus ps (x :: fs) = surplus ps fs + 1 := by
  simp only [surplus, List.length_cons]
  omega

@[simp] theorem surplus_bracket (t : Token) (ps : List Pending) (fs : List Formula) :
    surplus (.bracket t :: ps) fs = surplus ps fs := rfl

@[simp] theorem surplus_negation (t : Token) (ps : List Pending) (fs : List Formula) :
    surplus (.negation t :: ps) fs = surplus ps fs := rfl

@[simp] theorem surplus_binary (op : Connective) (t : Token) (ps : List Pending)
    (fs : List Formula) : surplus (.binary op t :: ps) fs = surplus ps fs - 1 := by
  simp only [surplus, List.countP_cons, Pending.isBinary, if_true]
  omega

/-- A completed connective leaves one formula in the place of its operands. -/
theorem Completes.surplus (h : Completes floor ps fs qs gs) : surplus qs gs = surplus ps fs := by
  induction h with
  | nil => rfl
  | bracket => rfl
  | looser => rfl
  | negation _ ih => simpa using ih
  | binary _ _ ih => simpa using ih

/-- The surplus, less the operand that has been read since the last connective. -/
def State.slack (s : State) : Int :=
  surplus s.pending s.formulas - if s.expectsOperand then 0 else 1

/-- A connective or a closing bracket comes in the place of an operand. -/
def misplaced (s : State) (t : Token) : Bool :=
  s.expectsOperand && (t.kind.isBinary || t.kind == .closeBracket)

/-- A token that stands where it may keeps the slack; any other lowers it. -/
theorem Step.slack {s s' : State} {isLast : Bool} (h : Step s t isLast s') :
    s'.slack = s.slack - if misplaced s t then 1 else 0 := by
  cases h with
  | opening hk he => simp [State.slack, misplaced, hk, he, Token.Kind.isBinary]
  | atom hk he => simp [State.slack, misplaced, hk, he, Token.Kind.isBinary]
  | negation hk he => simp [State.slack, misplaced, hk, he, Token.Kind.isBinary]
  | binary hk hc =>
    have := (completes_of_complete hc).surplus
    cases he : s.expectsOperand <;>
      simp [State.slack, misplaced, hk, he, Token.Kind.isBinary, this]
  | closing hk hc _ =>
    have := (completes_of_complete hc).surplus
    rw [surplus_bracket] at this
    cases he : s.expectsOperand <;>
      simp [State.slack, misplaced, hk, he, Token.Kind.isBinary, this]

/-- The slack never rises. -/
theorem slack_run_le {s s' : State} {ts : List Token} (h : s.run ts = .ok s') :
    s'.slack ≤ s.slack := by
  induction ts generalizing s with
  | nil =>
    cases h
    exact Int.le_refl _
  | cons t ts ih =>
    rw [run_cons] at h
    cases hs : s.step t ts.isEmpty with
    | error e =>
      rw [hs] at h
      cases h
    | ok s₁ =>
      rw [hs] at h
      have hle := ih h
      rw [(step_eq_ok_iff.1 hs).slack] at hle
      split at hle <;> omega

end PropProver.Reading
