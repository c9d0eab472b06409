import Mathlib.Data.List.Infix
import PropProver.Proofs.Reading.Balance

/-!
# The reader move by move

The machine comes to what `Formula.ofTokens` gives (`ends_ofTokens`), which completes all connectives
of a group in one step and keeps only what can wait. What holds at every moment of the machine
therefore says which refusals there are.
-/

namespace PropProver.Reading

/-! ### What the machine comes to -/

/-- The token that waits. -/
def Pending.token : Pending → Token
  | .bracket t => t
  | .negation t => t
  | .binary _ t => t

/-- The token is of the kind that it waits as. -/
def Pending.Tagged : Pending → Prop
  | .bracket t => t.kind = .openBracket
  | .negation t => t.kind = .not
  | .binary op t => t.kind = .binary op

/-- The moment at which a state is reached and some tokens are left. -/
def State.moment (s : State) (ts : List Token) : Moment :=
  ⟨.next ts, s.pending.map Pending.token, s.formulas, s.expectsOperand⟩

/-- Where a task completes connectives, they bind at least this tightly. -/
def Task.floor? : Task → Option Nat
  | .next [] => some Connective.iff.precedence
  | .next (_ :: _) => none
  | .binary t _ => strength? t
  | .close _ _ => some Connective.iff.precedence

variable {t u : Token} {ts cs : List Token} {fs gs : List Formula} {m n : Moment}
  {task : Task} {floor k : Nat} {op : Connective} {ps qs : List Pending} {e : Bool}
  {s s' : State} {r : Except Stop Formula}

theorem move_of_floor (cs : List Token) (fs : List Formula) (e : Bool)
    (htask : task.floor? = some floor) (hu : strength? u = some k) (hk : floor ≤ k)
    (hopen : u.kind ≠ .openBracket) :
    (⟨task, u :: cs, fs, e⟩ : Moment).move = Moment.complete ⟨task, u :: cs, fs, e⟩ u cs := by
  match task with
  | .next [] => simp [Moment.move, hopen]
  | .next (_ :: _) => cases htask
  | .binary t ts =>
    have ht : strength? t = some floor := htask
    simp [Moment.move, hopen, hu, ht, hk]
  | .close t ts => simp [Moment.move, hopen]

/-- The machine goes on as it does after the result of a step, or stops with the same refusal. -/
def Follows {α : Type} (x : Except ParseError α) (next : α → Prop) (r : Except Stop Formula) :
    Prop :=
  match x with
  | .ok a => next a
  | .error e => r = .error (.refused e)

@[simp] theorem follows_ok {α : Type} {next : α → Prop} {a : α} :
    Follows (.ok a) next r ↔ next a := Iff.rfl

@[simp] theorem follows_error {α : Type} {next : α → Prop} {e : ParseError} :
    Follows (.error e) next r ↔ r = .error (.refused e) := Iff.rfl

theorem Task.floor_le (htask : task.floor? = some floor) :
    floor ≤ Nonterminal.operand.precedence := by
  match task with
  | .next [] | .close _ _ =>
    cases htask
    exact Nonterminal.precedence_le_operand (.chain .iff)
  | .next (_ :: _) => cases htask
  | .binary t _ =>
    have ht : strength? t = some floor := htask
    unfold strength? at ht
    split at ht
    · cases ht
      exact Nat.le_refl _
    · next op _ =>
      cases ht
      exact Nonterminal.precedence_le_operand (.chain op)
    · cases ht

/-- The machine completes connectives one by one. -/
theorem ends_of_complete (htask : task.floor? = some floor) (hps : ∀ p ∈ ps, p.Tagged)
    (h : Follows (complete floor ps fs)
      (fun (qs, gs) => Ends ⟨task, qs.map Pending.token, gs, e⟩ r) r) :
    Ends ⟨task, ps.map Pending.token, fs, e⟩ r := by
  induction ps generalizing fs with
  | nil => exact h
  | cons p ps ih =>
    obtain ⟨hp, htail⟩ := List.forall_mem_cons.1 hps
    cases p with
    | bracket b => exact h
    | negation u =>
      have hkind : u.kind = .not := hp
      have hmove := move_of_floor (ps.map Pending.token) fs e htask
        (strength?_not hkind) (Task.floor_le htask) (by simp [hkind])
      cases fs with
      | nil =>
        cases h
        exact .stop (hmove.trans (by simp [Moment.complete, reduce, hkind]))
      | cons x fs =>
        exact .goOn (hmove.trans (by simp [Moment.complete, reduce, hkind])) (ih htail h)
    | binary op u =>
      have hkind : u.kind = .binary op := hp
      by_cases hle : floor ≤ op.precedence
      · have hmove := move_of_floor (ps.map Pending.token) fs e htask
          (strength?_binary hkind) hle (by simp [hkind])
        rw [complete, if_pos hle] at h
        obtain _ | ⟨y, _ | ⟨x, fs⟩⟩ := fs
        · cases h
          exact .stop (hmove.trans (by simp [Moment.complete, reduce, hkind]))
        · cases h
          exact .stop (hmove.trans (by simp [Moment.complete, reduce, hkind]))
        · exact .goOn (hmove.trans (by simp [Moment.complete, reduce, hkind])) (ih htail h)
      · rwa [complete, if_neg hle] at h

/-- Nothing that binds as tightly as the floor is left on top. -/
theorem Completes.top (h : Completes floor ps fs qs gs) :
    qs = [] ∨ (∃ b qs', qs = .bracket b :: qs') ∨
      ∃ op t qs', qs = .binary op t :: qs' ∧ op.precedence < floor := by
  induction h with
  | nil => exact .inl rfl
  | bracket => exact .inr (.inl ⟨_, _, rfl⟩)
  | looser hlt => exact .inr (.inr ⟨_, _, _, rfl, hlt⟩)
  | negation _ ih => exact ih
  | binary _ _ ih => exact ih

/-- What is left has been waiting. -/
theorem Completes.suffix (h : Completes floor ps fs qs gs) : qs <:+ ps := by
  induction h with
  | nil | bracket | looser => exact List.suffix_rfl
  | negation _ ih | binary _ _ ih => exact ih.trans (List.suffix_cons _ _)

/-- A binary connective waits after what was completed for it. -/
theorem ends_of_push (hps : ∀ p ∈ ps, p.Tagged) (ht : t.kind = .binary op)
    (h : Follows (complete op.precedence ps fs)
      (fun (qs, gs) => Ends (State.moment ⟨.binary op t :: qs, gs, true⟩ ts) r) r) :
    Ends ⟨.binary t ts, ps.map Pending.token, fs, e⟩ r := by
  refine ends_of_complete (strength?_binary ht) hps ?_
  cases hc : complete op.precedence ps fs with
  | error e' => rwa [hc] at h
  | ok p =>
    obtain ⟨qs, gs⟩ := p
    rw [hc] at h
    refine .goOn ?_ h
    have hcompletes := completes_of_complete hc
    obtain rfl | ⟨b, qs', rfl⟩ | ⟨op', u, qs', rfl, hlt⟩ := hcompletes.top
    · rfl
    · have hb : b.kind = .openBracket := hps _ (hcompletes.suffix.subset List.mem_cons_self)
      simp [Moment.move, Moment.push, State.moment, Pending.token, hb]
    · have hu : u.kind = .binary op' := hps _ (hcompletes.suffix.subset List.mem_cons_self)
      simp [Moment.move, Moment.push, State.moment, Pending.token, strength?_binary ht,
        strength?_binary hu, hu, Nat.not_le.2 hlt]

/-- A bracket is closed after what waits behind it was completed. -/
theorem ends_of_close (hps : ∀ p ∈ ps, p.Tagged) (ht : t.kind = .closeBracket)
    (h : Follows (State.step ⟨ps, fs, e⟩ t ts.isEmpty) (fun s' => Ends (s'.moment ts) r) r) :
    Ends ⟨.close t ts, ps.map Pending.token, fs, e⟩ r := by
  refine ends_of_complete rfl hps ?_
  simp only [State.step, ht, completeGroup_eq] at h
  cases hc : complete Connective.iff.precedence ps fs with
  | error e' => rwa [hc] at h
  | ok p =>
    obtain ⟨qs, gs⟩ := p
    rw [hc] at h
    have hcompletes := completes_of_complete hc
    obtain rfl | ⟨b, qs', rfl⟩ | ⟨op', u, qs', rfl, hlt⟩ := hcompletes.top
    · cases h
      exact .stop rfl
    · have hb : b.kind = .openBracket := hps _ (hcompletes.suffix.subset List.mem_cons_self)
      simp only [Except.map, bind, Except.bind, openBracket?] at h
      split at h
      · next hearly =>
        cases h
        refine .stop ?_
        simp only [Moment.move, List.map_cons, Pending.token, hb, if_true, List.isEmpty_map, hearly]
      · next hlast =>
        refine .goOn ?_ h
        simp only [Moment.move, List.map_cons, Pending.token, hb, if_true, List.isEmpty_map, hlast]
        rfl
    · exact absurd op'.iff_precedence_le (Nat.not_le.2 hlt)

/-- A token is read in one or more moves. -/
theorem ends_of_step (hs : ∀ p ∈ s.pending, p.Tagged)
    (h : Follows (s.step t ts.isEmpty) (fun s' => Ends (s'.moment ts) r) r) :
    Ends (s.moment (t :: ts)) r := by
  obtain ⟨ps, fs, e⟩ := s
  cases hk : t.kind with
  | openBracket | atom | not =>
    cases e with
    | true =>
      simp only [State.step, hk, if_true, follows_ok] at h
      exact .goOn (by simp [State.moment, Moment.move, hk, Pending.token]) h
    | false =>
      simp only [State.step, hk] at h
      cases h
      exact .stop (by simp [State.moment, Moment.move, hk])
  | binary op =>
    have hmove : (State.moment ⟨ps, fs, e⟩ (t :: ts)).move =
        .goOn ⟨.binary t ts, ps.map Pending.token, fs, e⟩ := by
      simp [State.moment, Moment.move, hk]
    refine .goOn hmove (ends_of_push hs hk ?_)
    simp only [State.step, hk] at h
    cases hc : complete op.precedence ps fs with
    | error e' => rwa [hc] at h
    | ok p => rwa [hc] at h
  | closeBracket =>
    have hmove : (State.moment ⟨ps, fs, e⟩ (t :: ts)).move =
        .goOn ⟨.close t ts, ps.map Pending.token, fs, e⟩ := by
      simp [State.moment, Moment.move, hk]
    exact .goOn hmove (ends_of_close hs hk h)

/-- What waits after a token is of the kind that it waits as. -/
theorem Step.tagged {isLast : Bool} (h : Step s t isLast s') (hs : ∀ p ∈ s.pending, p.Tagged) :
    ∀ p ∈ s'.pending, p.Tagged := by
  cases h with
  | opening hk _ => exact List.forall_mem_cons.2 ⟨hk, hs⟩
  | atom => exact hs
  | negation hk _ => exact List.forall_mem_cons.2 ⟨hk, hs⟩
  | binary hk hc =>
    have hsuffix := (completes_of_complete hc).suffix
    exact List.forall_mem_cons.2 ⟨hk, fun p hp => hs p (hsuffix.subset hp)⟩
  | closing _ hc _ =>
    have hsuffix := (completes_of_complete hc).suffix
    exact fun p hp => hs p (hsuffix.subset (List.mem_cons_of_mem _ hp))

theorem ends_of_run (hs : ∀ p ∈ s.pending, p.Tagged)
    (h : Follows (s.run ts) (fun s' => (∀ p ∈ s'.pending, p.Tagged) → Ends (s'.moment []) r) r) :
    Ends (s.moment ts) r := by
  induction ts generalizing s with
  | nil => exact h hs
  | cons t ts ih =>
    rw [run_cons] at h
    refine ends_of_step hs ?_
    cases hstep : s.step t ts.isEmpty with
    | error e => rwa [hstep] at h
    | ok s₁ =>
      rw [hstep] at h
      exact ih ((step_eq_ok_iff.1 hstep).tagged hs) h

theorem ends_finish (hs : ∀ p ∈ s.pending, p.Tagged) :
    Ends (s.moment []) (s.finish.mapError .refused) := by
  obtain ⟨ps, fs, e⟩ := s
  refine ends_of_complete rfl hs ?_
  rw [State.finish, completeGroup_eq]
  cases hc : complete Connective.iff.precedence ps fs with
  | error e' => rfl
  | ok p =>
    obtain ⟨qs, gs⟩ := p
    have hcompletes := completes_of_complete hc
    obtain rfl | ⟨b, qs', rfl⟩ | ⟨op', u, qs', rfl, hlt⟩ := hcompletes.top
    · obtain _ | ⟨f, _ | ⟨g, gs⟩⟩ := gs
      · exact .stop rfl
      · exact .give rfl
      · exact .stop rfl
    · have hb : b.kind = .openBracket := hs _ (hcompletes.suffix.subset List.mem_cons_self)
      exact .stop (by simp [Moment.move, Pending.token, hb])
    · exact absurd op'.iff_precedence_le (Nat.not_le.2 hlt)

theorem ends_ofTokens (ts : List Token) :
    Ends (.start ts) ((Formula.ofTokens ts).mapError .refused) := by
  have htagged : ∀ p ∈ State.pending {}, p.Tagged := nofun
  refine ends_of_run htagged ?_
  rw [Formula.ofTokens]
  cases State.run {} ts with
  | error e => rfl
  | ok s => exact ends_finish

/-- Where the machine stops in the end, it stops at some moment. -/
theorem Ends.exists_stop {x : Stop} (h : Ends m (.error x)) (hm : Reached ts m) :
    ∃ n, Reached ts n ∧ n.move = .stop x := by
  generalize hr : (Except.error x : Except Stop Formula) = r at h
  induction h with
  | give => cases hr
  | stop hmove =>
    cases hr
    exact ⟨_, hm, hmove⟩
  | goOn hmove _ ih => exact ih (hm.move hmove) hr

/-- A refusal of some tokens comes about at a moment of their reading. -/
theorem exists_stop_of_ofTokens {x : ParseError} (h : Formula.ofTokens ts = .error x) :
    ∃ n, Reached ts n ∧ n.move = .stop (.refused x) := by
  have hends := ends_ofTokens ts
  rw [h] at hends
  exact hends.exists_stop .start

/-- **The stacks of the reader.** Reading tokens of any kinds move by move gives the same formula or
refusal as `Formula.ofTokens`. At every moment only opening brackets, negations and binary connectives
wait, and the formulas exceed the binary connectives that wait by one at most, and not at all while an
operand is expected. No move comes upon a token without precedence, or upon one that it cannot
complete. So several formulas are never left in the end, and none is left only if all tokens are
brackets. -/
theorem stacks_sound (ts : List Token) :
    Ends (.start ts) ((Formula.ofTokens ts).mapError .refused) ∧
    (∀ m, Reached ts m →
      (∀ t ∈ m.connectives, t.kind = .openBracket ∨ t.kind = .not ∨ t.kind.isBinary = true) ∧
      (m.formulas.length : Int) - m.connectives.countP (·.kind.isBinary) ≤ 1 ∧
      (m.expectsOperand = true →
        (m.formulas.length : Int) - m.connectives.countP (·.kind.isBinary) ≤ 0) ∧
      ∀ t, m.move ≠ .stop (.noEntry t)) ∧
    (∀ n, Formula.ofTokens ts ≠ .error (.leftOver n)) ∧
    (Formula.ofTokens ts = .error .noFormula →
      ∀ t ∈ ts, t.kind = .openBracket ∨ t.kind = .closeBracket) := by
  refine ⟨ends_ofTokens ts, fun m hm => ?_, fun n h => ?_, fun h => ?_⟩
  · have hkept := hm.kept
    exact ⟨hkept.waits, hkept.balance_le_one, hkept.balance_le_zero, hkept.move_ne_noEntry⟩
  · obtain ⟨m, hm, hmove⟩ := exists_stop_of_ofTokens h
    exact hm.kept.move_ne_leftOver n hmove
  · obtain ⟨m, hm, hmove⟩ := exists_stop_of_ofTokens h
    cases stopped_of_move hmove with
    | named hnames => cases hnames
    | noFormula htask hcs hfs =>
      obtain ⟨us, hus, hbrackets⟩ := hm.exists_brackets ⟨hfs, by rw [hcs]; exact nofun⟩
      rw [htask, Task.left, List.append_nil] at hus
      exact hus ▸ hbrackets

end PropProver.Reading
