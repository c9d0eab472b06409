import PropProver.Proofs.Reading.Phrases

/-!
# Which tokens are formulas

A list of tokens is read as a formula exactly if it has a derivation in the grammar and a bracket at
its head, if there is one, is closed by the last token; the formula is that of the derivation, of
which there is only one (`Formula.ofTokens_phrase_iff`). The tokens of a text stand between
brackets, so a text is read exactly if what stands between them has a derivation.
-/

namespace PropProver

open Token Reading

/-! ### The tokens of a text -/

/-- The last token of a text is the closing bracket that stands for its full stop. -/
theorem Token.exists_append_of_scanFrom {position : Nat} {cs : List Char} {ts : List Token}
    (h : scanFrom position cs = .ok ts) :
    ∃ (us : List Token) (c : Token), ts = us ++ [c] ∧ c.kind = .closeBracket := by
  fun_induction scanFrom position cs generalizing ts with
  | case1 position => cases h
  | case2 position cs =>
    cases h
    exact ⟨[], _, rfl, rfl⟩
  | case3 position c cs _ _ ih => exact ih h
  | case4 position c cs => cases h
  | case5 position c cs => cases h
  | case6 position c cs _ _ kind more _ _ _ =>
    rename_i ih
    cases hs : scanFrom (position + 1 + more) (cs.drop more) with
    | error e =>
      rw [hs] at h
      cases h
    | ok ts' =>
      rw [hs] at h
      cases h
      obtain ⟨us, c, rfl, hc⟩ := ih hs
      exact ⟨_ :: us, c, rfl, hc⟩

/-- The tokens of a text stand between brackets. -/
theorem Token.exists_between_of_scan {text : String} {ts : List Token} (h : scan text = .ok ts) :
    ∃ (o : Token) (us : List Token) (c : Token),
      ts = o :: (us ++ [c]) ∧ o.kind = .openBracket ∧ c.kind = .closeBracket := by
  rw [scan] at h
  cases hs : scanFrom 0 text.toList with
  | error e =>
    rw [hs] at h
    cases h
  | ok ts' =>
    rw [hs] at h
    cases h
    obtain ⟨us, c, rfl, hc⟩ := exists_append_of_scanFrom hs
    exact ⟨_, us, c, rfl, rfl, hc⟩

namespace Formula

/-! ### Derivations are read -/

theorem ofTokens_eq_ok_iff {ts : List Token} {f : Formula} :
    ofTokens ts = .ok f ↔ ∃ s, State.run {} ts = .ok s ∧ s.finish = .ok f := by
  rw [ofTokens]
  cases State.run {} ts with
  | error e => exact ⟨nofun, nofun⟩
  | ok s => simp [bind, Except.bind]

theorem ofTokens_of_phrase (x : Phrase (.chain .iff)) (h : ClosedAtEnd x.tokens) :
    ofTokens x.tokens = .ok x.formula := by
  rw [ofTokens_eq_ok_iff]
  by_cases hopen : StartsOpen x.tokens
  · obtain ⟨o, y, c, ts, ho, hc, htokens, hf⟩ := x.exists_bracket hopen
    rw [htokens, y.closedAtEnd_iff ho hc] at h
    refine ⟨⟨[], [y.formula], false⟩, ?_, ?_⟩
    · rw [htokens, y.run_bracket ho hc, if_pos h]
    · rw [finish_eq_ok_iff, hf h, complete_nil]
  · obtain ⟨qs, gs, hrun, hcomp⟩ := x.exists_run [] [] trivial fun _ => hopen
    refine ⟨⟨qs, gs, false⟩, ?_, ?_⟩
    · simpa [run_nil] using hrun []
    · rw [finish_eq_ok_iff]
      exact hcomp Connective.iff.precedence (Nat.le_refl _)

/-! ### What is read has a derivation -/

/-- Since one formula is left at the end, no token was misplaced, and the last operand is part of a
phrase that has all tokens. -/
theorem exists_phrase_of_ofTokens {ts : List Token} {f : Formula} (h : ofTokens ts = .ok f) :
    ∃ x : Phrase (.chain .iff), x.tokens = ts ∧ x.formula = f := by
  obtain ⟨s, hrun, hfinish⟩ := ofTokens_eq_ok_iff.1 h
  rw [finish_eq_ok_iff] at hfinish
  have hsurplus : surplus s.pending s.formulas = 1 := (completes_of_complete hfinish).surplus.symm
  have hstart : State.slack {} = 0 := rfl
  have hle := slack_run_le hrun
  rw [hstart] at hle
  have hge : State.slack {} ≤ s.slack := by
    rw [hstart, State.slack, hsurplus]
    split <;> decide
  have hread := HasRead.run (.expecting .start) hrun hge
  rw [List.nil_append] at hread
  cases hread with
  | expecting => simp [State.slack, hsurplus] at hle
  | operand x hctx =>
    obtain ⟨us, qs, gs, y, hcomp, hctx, -, htokens⟩ :=
      hctx.exists_complete x (fits_operand _) .iff (Nonterminal.precedence_le_operand (.chain .iff))
    cases hcomp.symm.trans hfinish
    cases hctx
    exact ⟨y, htokens.symm, rfl⟩

/-- A bracket at the head that is closed earlier leaves nothing waiting before the last token. -/
theorem closedAtEnd_of_ofTokens {ts : List Token} {f : Formula} (h : ofTokens ts = .ok f) :
    ClosedAtEnd ts := by
  intro hopen
  obtain ⟨x, rfl, -⟩ := exists_phrase_of_ofTokens h
  obtain ⟨o, y, c, us, ho, hc, htokens, -⟩ := x.exists_bracket hopen
  obtain ⟨s, hrun, -⟩ := ofTokens_eq_ok_iff.1 h
  rw [htokens, y.run_bracket ho hc] at hrun
  split at hrun
  · next hus =>
    rw [htokens] at hopen ⊢
    exact (y.closedAtEnd_iff ho hc us).2 hus hopen
  · cases hrun

theorem ofTokens_eq_ok_iff_phrase {ts : List Token} {f : Formula} :
    ofTokens ts = .ok f ↔
      (∃ x : Phrase (.chain .iff), x.tokens = ts ∧ x.formula = f) ∧ ClosedAtEnd ts := by
  constructor
  · exact fun h => ⟨exists_phrase_of_ofTokens h, closedAtEnd_of_ofTokens h⟩
  · rintro ⟨⟨x, rfl, rfl⟩, h⟩
    exact ofTokens_of_phrase x h

/-! ### Texts -/

theorem ofText_of_scan_error {text : String} {e : LexicalError} (h : Token.scan text = .error e) :
    ofText text = .error (.lexical e) := by
  rw [ofText, h]
  rfl

theorem ofText_eq_ok_iff_of_scan {text : String} {ts : List Token} {f : Formula}
    (h : Token.scan text = .ok ts) : ofText text = .ok f ↔ ofTokens ts = .ok f := by
  rw [ofText, h]
  simp only [bind, Except.bind, Except.mapError]
  cases ofTokens ts <;> simp

/-- **Reading**: tokens are a formula exactly if they have a derivation and a bracket at the head is
closed by the last token only; the formula is that of the derivation, which is the only one. All
other tokens are refused. A text that splits into tokens is a formula exactly if the tokens between
the added brackets have a derivation. -/
theorem ofTokens_phrase_iff :
    (∀ (ts : List Token) (f : Formula), ofTokens ts = .ok f ↔
      (∃ x : Phrase (.chain .iff), x.tokens = ts ∧ x.formula = f) ∧ ClosedAtEnd ts) ∧
    Function.Injective (Phrase.tokens : Phrase (.chain .iff) → List Token) ∧
    (∀ ts : List Token, (∃ e : ParseError, ofTokens ts = .error e) ↔
      ¬ ((∃ x : Phrase (.chain .iff), x.tokens = ts) ∧ ClosedAtEnd ts)) ∧
    ∀ text : String,
      (∃ e, Token.scan text = .error e ∧ ofText text = .error (.lexical e)) ∨
      ∃ (o : Token) (ts : List Token) (c : Token), Token.scan text = .ok (o :: (ts ++ [c])) ∧
        o.kind = .openBracket ∧ c.kind = .closeBracket ∧
        ∀ f, ofText text = .ok f ↔
          ∃ x : Phrase (.chain .iff), x.tokens = ts ∧ x.formula = f := by
  refine ⟨fun ts f => ofTokens_eq_ok_iff_phrase, fun x y h => Phrase.ext_tokens h, fun ts => ?_,
    fun text => ?_⟩
  · cases h : ofTokens ts with
    | ok f =>
      obtain ⟨⟨x, hx, -⟩, hclosed⟩ := ofTokens_eq_ok_iff_phrase.1 h
      exact ⟨nofun, fun hno => absurd ⟨⟨x, hx⟩, hclosed⟩ hno⟩
    | error e =>
      refine ⟨?_, fun _ => ⟨e, rfl⟩⟩
      rintro - ⟨⟨x, rfl⟩, hclosed⟩
      rw [ofTokens_of_phrase x hclosed] at h
      cases h
  · cases hscan : Token.scan text with
    | error e => exact .inl ⟨e, rfl, ofText_of_scan_error hscan⟩
    | ok us =>
      obtain ⟨o, ts, c, rfl, ho, hc⟩ := Token.exists_between_of_scan hscan
      refine .inr ⟨o, ts, c, rfl, ho, hc, fun f => ?_⟩
      rw [ofText_eq_ok_iff_of_scan hscan, ofTokens_eq_ok_iff_phrase, Phrase.exists_within ho hc]

-- A derivation alone is not enough: the bracket at the head of `(P) & Q` is closed too early.
example : ofTokens [⟨.openBracket, "(", 0⟩, ⟨.atom, "P", 1⟩, ⟨.closeBracket, ")", 2⟩,
    ⟨.binary .and, "&", 4⟩, ⟨.atom, "Q", 6⟩] = .error (.unmatched ⟨.closeBracket, ")", 2⟩) := by
  decide

end Formula

end PropProver
