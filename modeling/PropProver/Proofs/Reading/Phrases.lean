import PropProver.Proofs.Reading.Brackets
import PropProver.Proofs.Reading.Stacks

/-!
# Phrases and stacks

Where an operand has to come, the tokens of a phrase are read to the end, and what waits then comes
to the formula of the phrase as soon as something looser completes it (`Phrase.exists_run`).

The other way round, as long as no token is misplaced the stacks hold what was read (`HasRead`): what
waits are the beginnings of phrases (`Context`), and the formula on top is an operand. Completing
connectives joins phrases to larger ones (`Context.exists_complete`), so every step keeps this
(`HasRead.step`).
-/

namespace PropProver

open Token Reading

/-! ### Reading the tokens of a phrase -/

/-- A phrase is read where an operand has to come. A bracket must not be closed while nothing waits,
so if nothing does, the phrase must not start with one. -/
theorem Phrase.exists_run {n : Nonterminal} (x : Phrase n) (ps : List Pending) (fs : List Formula)
    (hfits : Fits n ps) (hstart : ps = [] → ¬ StartsOpen x.tokens) :
    ∃ (qs : List Pending) (gs : List Formula),
      (∀ ts, State.run ⟨ps, fs, true⟩ (x.tokens ++ ts) = State.run ⟨qs, gs, false⟩ ts) ∧
      ∀ floor ≤ n.precedence, complete floor qs gs = complete floor ps (x.formula :: fs) := by
  induction x generalizing ps fs with
  | @join op l sign r hs ihl ihr =>
    have hleft : ps = [] → ¬ StartsOpen l.tokens := by
      rintro hps ⟨t, us, hus, ht⟩
      refine hstart hps ⟨t, us ++ sign :: r.tokens, ?_, ht⟩
      rw [tokens, hus, List.cons_append]
    obtain ⟨qs, gs, hrun, hcomp⟩ := ihl ps fs hfits hleft
    obtain ⟨qs', gs', hrun', hcomp'⟩ :=
      ihr (.binary op sign :: ps) (l.formula :: fs) (fits_tighter op sign ps)
        fun h => absurd h (List.cons_ne_nil _ _)
    refine ⟨qs', gs', fun ts => ?_, fun floor hfloor => ?_⟩
    · have hsign : complete op.precedence qs gs = .ok (ps, l.formula :: fs) := by
        rw [hcomp op.precedence (Nat.le_refl _), complete_of_fits hfits (Nat.le_refl _)]
      rw [tokens, List.append_assoc, List.cons_append, hrun, run_of_step (.binary hs hsign), hrun']
    · have htighter : floor ≤ op.tighter.precedence := by
        rw [op.precedence_tighter]
        exact Nat.le_succ_of_le hfloor
      rw [hcomp' _ htighter, complete_binary hfloor, formula]
  | @lift op x ih =>
    obtain ⟨qs, gs, hrun, hcomp⟩ := ih ps fs hfits.tighter hstart
    refine ⟨qs, gs, hrun, fun floor hfloor => hcomp floor ?_⟩
    rw [op.precedence_tighter]
    exact Nat.le_succ_of_le hfloor
  | negation sign x hs ih =>
    obtain ⟨qs, gs, hrun, hcomp⟩ :=
      ih (.negation sign :: ps) fs (fits_operand _) fun h => absurd h (List.cons_ne_nil _ _)
    refine ⟨qs, gs, fun ts => ?_, fun floor hfloor => ?_⟩
    · rw [tokens, List.cons_append, run_of_step (.negation hs rfl), hrun]
    · rw [hcomp floor hfloor, complete_negation, formula]
  | atom name hn =>
    refine ⟨ps, .atom name.lexeme :: fs, fun ts => ?_, fun _ _ => rfl⟩
    rw [tokens, List.singleton_append, run_of_step (.atom hn rfl)]
  | bracket o x c ho hc ih =>
    have hps : ps ≠ [] := fun h => hstart h ⟨o, _, rfl, ho⟩
    obtain ⟨qs, gs, hrun, hcomp⟩ :=
      ih (.bracket o :: ps) fs trivial fun h => absurd h (List.cons_ne_nil _ _)
    refine ⟨ps, x.formula :: fs, fun ts => ?_, fun _ _ => rfl⟩
    have hclose : complete Connective.iff.precedence qs gs =
        .ok (.bracket o :: ps, x.formula :: fs) := by
      rw [hcomp Connective.iff.precedence (Nat.le_refl _), complete_bracket]
    rw [tokens, List.cons_append, List.append_assoc, run_of_step (.opening ho rfl), hrun,
      List.singleton_append, run_of_step (.closing hc hclose fun h => absurd h hps)]

/-- A formula between brackets is read where nothing waits, but nothing may come after it. -/
theorem Phrase.run_bracket (x : Phrase (.chain .iff)) {o c : Token} (ho : o.kind = .openBracket)
    (hc : c.kind = .closeBracket) (ts : List Token) :
    State.run {} (o :: (x.tokens ++ c :: ts)) =
      if ts = [] then .ok ⟨[], [x.formula], false⟩ else .error (.unmatched c) := by
  obtain ⟨qs, gs, hrun, hcomp⟩ :=
    x.exists_run [.bracket o] [] trivial fun h => absurd h (List.cons_ne_nil _ _)
  have hclose : complete Connective.iff.precedence qs gs = .ok ([.bracket o], [x.formula]) := by
    rw [hcomp Connective.iff.precedence (Nat.le_refl _), complete_bracket]
  rw [run_of_step (.opening ho rfl), hrun]
  split
  · next h =>
    subst h
    rw [run_of_step (.closing hc hclose fun _ => rfl), run_nil]
  · next h =>
    have hstep : State.step ⟨qs, gs, false⟩ c ts.isEmpty = .error (.unmatched c) := by
      have hts : ts.isEmpty = false := by simpa using h
      simp only [State.step, hc, completeGroup_eq, hclose]
      simp only [bind, Except.bind, Except.map, openBracket?, hts]
      rfl
    rw [run_cons, hstep]
    rfl

namespace Reading

/-! ### What the stacks hold -/

/-- The tokens read before an operand, with the stacks that hold them: brackets, negations, and
binary connectives each with its left operand. -/
inductive Context : List Token → List Pending → List Formula → Prop where
  /-- At the start nothing was read. -/
  | start : Context [] [] []
  /-- A bracket was opened. -/
  | bracket {ts : List Token} {ps : List Pending} {fs : List Formula} {t : Token} :
      Context ts ps fs → t.kind = .openBracket → Context (ts ++ [t]) (.bracket t :: ps) fs
  /-- A negation waits for its operand. -/
  | negation {ts : List Token} {ps : List Pending} {fs : List Formula} {t : Token} :
      Context ts ps fs → t.kind = .not → Context (ts ++ [t]) (.negation t :: ps) fs
  /-- A binary connective waits for its right operand; its left operand is no operand of what waits
  before. -/
  | binary {ts : List Token} {ps : List Pending} {fs : List Formula} {t : Token}
      {op : Connective} (l : Phrase (.chain op)) : Context ts ps fs → Fits (.chain op) ps →
      t.kind = .binary op →
      Context (ts ++ l.tokens ++ [t]) (.binary op t :: ps) (l.formula :: fs)

/-- Completing connectives after a phrase makes it part of a larger one, which ends with it. -/
theorem Context.exists_complete {ts : List Token} {ps : List Pending} {fs : List Formula}
    (h : Context ts ps fs) {n : Nonterminal} (x : Phrase n) (hfits : Fits n ps) (op : Connective)
    (hop : op.precedence ≤ n.precedence) :
    ∃ (us : List Token) (qs : List Pending) (gs : List Formula) (y : Phrase (.chain op)),
      complete op.precedence ps (x.formula :: fs) = .ok (qs, y.formula :: gs) ∧
      Context us qs gs ∧ Fits (.chain op) qs ∧ ts ++ x.tokens = us ++ y.tokens := by
  induction h generalizing n with
  | start =>
    obtain ⟨y, hy, hf⟩ := x.exists_widen (m := .chain op) hop
    exact ⟨[], [], [], y, by rw [hf, complete_nil], .start, trivial, by rw [hy]⟩
  | @bracket ts ps fs t h ht =>
    obtain ⟨y, hy, hf⟩ := x.exists_widen (m := .chain op) hop
    exact ⟨_, _, fs, y, by rw [hf, complete_bracket], .bracket h ht, trivial, by rw [hy]⟩
  | @negation ts ps fs t h ht ih =>
    cases hfits
    obtain ⟨us, qs, gs, y, hcomp, hctx, hqs, htokens⟩ :=
      ih (.negation t x ht) (fits_operand ps) hop
    refine ⟨us, qs, gs, y, ?_, hctx, hqs, ?_⟩
    · rw [complete_negation]
      exact hcomp
    · rw [← htokens, List.append_assoc]
      rfl
  | @binary ts ps fs t op' l h hl ht ih =>
    by_cases hle : op.precedence ≤ op'.precedence
    · have hr : op'.tighter.precedence ≤ n.precedence := by
        rw [op'.precedence_tighter]
        exact hfits
      obtain ⟨r, hr, hrf⟩ := x.exists_widen hr
      obtain ⟨us, qs, gs, y, hcomp, hctx, hqs, htokens⟩ := ih (.join l t r ht) hl hle
      refine ⟨us, qs, gs, y, ?_, hctx, hqs, ?_⟩
      · rw [complete_binary hle, ← hrf]
        exact hcomp
      · rw [← htokens, ← hr]
        simp [Phrase.tokens]
    · rw [Nat.not_le] at hle
      obtain ⟨y, hy, hf⟩ := x.exists_widen (m := .chain op) hop
      exact ⟨_, _, _, y, by rw [hf, complete_binary_of_lt hle], .binary l h hl ht, hle, by rw [hy]⟩

/-- The tokens that a state has read: those before an operand, and the operand if it is there. -/
inductive HasRead : List Token → State → Prop where
  /-- An operand has to come. -/
  | expecting {ts : List Token} {ps : List Pending} {fs : List Formula} :
      Context ts ps fs → HasRead ts ⟨ps, fs, true⟩
  /-- An operand has come. -/
  | operand {ts : List Token} {ps : List Pending} {fs : List Formula} (x : Phrase .operand) :
      Context ts ps fs → HasRead (ts ++ x.tokens) ⟨ps, x.formula :: fs, false⟩

/-- A step with a token that is not misplaced adds the token to what was read. -/
theorem HasRead.step {ts : List Token} {s s' : State} {t : Token} {isLast : Bool}
    (h : HasRead ts s) (hstep : Step s t isLast s') (hplace : misplaced s t = false) :
    HasRead (ts ++ [t]) s' := by
  cases h with
  | expecting h =>
    cases hstep with
    | opening hk _ => exact .expecting (.bracket h hk)
    | atom hk _ => exact .operand (.atom t hk) h
    | negation hk _ => exact .expecting (.negation h hk)
    | binary hk _ => simp [misplaced, hk, Kind.isBinary] at hplace
    | closing hk _ _ => simp [misplaced, hk] at hplace
  | @operand ts ps fs x h =>
    cases hstep with
    | opening _ he => cases he
    | atom _ he => cases he
    | negation _ he => cases he
    | @binary op _ _ hk hcomp =>
      obtain ⟨us, qs, gs, y, hy, hctx, hqs, htokens⟩ :=
        h.exists_complete x (fits_operand ps) op (Nonterminal.precedence_le_operand (.chain op))
      cases hy.symm.trans hcomp
      rw [htokens]
      exact .expecting (.binary y hctx hqs hk)
    | @closing b _ _ hk hcomp _ =>
      obtain ⟨us, qs, gs, y, hy, hctx, -, htokens⟩ :=
        h.exists_complete x (fits_operand ps) .iff (Nonterminal.precedence_le_operand (.chain .iff))
      cases hy.symm.trans hcomp
      cases hctx with
      | bracket hctx hb =>
        have hread := HasRead.operand (.bracket b y t hb hk) hctx
        rw [htokens]
        simpa [Phrase.tokens, Phrase.formula] using hread

/-- A run that loses no slack has read all its tokens. -/
theorem HasRead.run {ts us : List Token} {s s' : State} (h : HasRead ts s)
    (hrun : s.run us = .ok s') (hslack : s.slack ≤ s'.slack) : HasRead (ts ++ us) s' := by
  induction us generalizing ts s with
  | nil =>
    cases hrun
    rwa [List.append_nil]
  | cons t us ih =>
    rw [run_cons] at hrun
    cases hs : s.step t us.isEmpty with
    | error e =>
      rw [hs] at hrun
      cases hrun
    | ok s₁ =>
      rw [hs] at hrun
      have hstep := step_eq_ok_iff.1 hs
      have hle := slack_run_le hrun
      have heq := hstep.slack
      have hplace : misplaced s t = false := by
        by_contra hmis
        rw [Bool.not_eq_false] at hmis
        rw [if_pos hmis] at heq
        omega
      rw [if_neg (by simp [hplace])] at heq
      rw [List.append_cons]
      exact ih (h.step hstep hplace) hrun (by omega)

end Reading

end PropProver
