import PropProver.Proofs.Reading.Language
import PropProver.Proofs.Reading.Scanning

/-!
# Reading what is written

The text of a formula has pieces, if the names of its atoms can be names in a text
(`Formula.exists_pieces`). Wherever they start, their tokens have a derivation that writes the formula:
every binary connective stands between brackets of its own, so a printed formula is an operand.
Therefore a formula is read back from its text (`Formula.ofText_text`). The names of atoms that are
read from a text are names that it can hold, so everything that was read once is read back.
-/

namespace PropProver

open Token

/-! ### Names -/

namespace Token

/-- Names are the lexemes of atoms. -/
theorem isName_iff {a : String} : isName a = true ↔ Spells .atom a.toList := by
  unfold isName
  constructor
  · intro h
    split at h
    · next c ds hcs =>
      simp only [Bool.and_eq_true, List.all_eq_true, decide_eq_true_eq] at h
      obtain ⟨⟨hc, hds⟩, hlen⟩ := h
      rw [hcs]
      exact .atom hc hds hlen
    · cases h
  · intro h
    cases hcs : a.toList with
    | nil =>
      obtain ⟨c, ds, hcons, -⟩ := h.exists_cons
      rw [hcs] at hcons
      cases hcons
    | cons c ds =>
      rw [hcs] at h
      cases h with
      | atom hc hds hlen =>
        simp only [Bool.and_eq_true, List.all_eq_true, decide_eq_true_eq]
        exact ⟨⟨hc, hds⟩, hlen⟩

theorem spells_symbol (op : Connective) : Spells (.binary op) op.symbol.toList := by
  cases op with
  | and => exact .and
  | or => exact .or
  | imply => exact .imply
  | iff => exact .iff

theorem tokensAt_append (n : Nat) (ps qs : List Piece) :
    tokensAt n (ps ++ qs) = tokensAt n ps ++ tokensAt (n + (spelling ps).length) qs := by
  induction ps generalizing n with
  | nil => rfl
  | cons p ps ih =>
    rw [List.cons_append, tokensAt_cons, ih, tokensAt_cons n p ps, List.append_assoc, spelling_cons,
      List.length_append, Nat.add_assoc]

end Token

/-- The names of a formula that a phrase writes are the lexemes of its atoms. -/
theorem Phrase.exists_token_of_mem_names {n : Nonterminal} (x : Phrase n) {a : String}
    (h : a ∈ x.formula.names) : ∃ t ∈ x.tokens, t.kind = .atom ∧ t.lexeme = a := by
  induction x with
  | join l sign r hs ihl ihr =>
    rcases List.mem_append.1 h with h | h
    · obtain ⟨t, ht, hatom⟩ := ihl h
      exact ⟨t, List.mem_append_left _ ht, hatom⟩
    · obtain ⟨t, ht, hatom⟩ := ihr h
      exact ⟨t, List.mem_append_right _ (List.mem_cons_of_mem _ ht), hatom⟩
  | lift x ih => exact ih h
  | negation sign x hs ih =>
    obtain ⟨t, ht, hatom⟩ := ih h
    exact ⟨t, List.mem_cons_of_mem _ ht, hatom⟩
  | atom name hn => exact ⟨name, List.mem_singleton_self name, hn, (List.mem_singleton.1 h).symm⟩
  | bracket o x c ho hc ih =>
    obtain ⟨t, ht, hatom⟩ := ih h
    exact ⟨t, List.mem_cons_of_mem _ (List.mem_append_left _ ht), hatom⟩

namespace Formula

/-! ### The pieces of a printed formula -/

/-- The pieces of a binary formula between its brackets, given those of its operands. -/
private def joined (op : Connective) (ps qs : List Piece) : List Piece :=
  .lexeme .openBracket ['('] .openBracket :: (ps ++ .blank ' ' (by decide) ::
    .lexeme (.binary op) op.symbol.toList (spells_symbol op) :: .blank ' ' (by decide) ::
    (qs ++ [.lexeme .closeBracket [')'] .closeBracket]))

/-- Operands that are joined and put between brackets are an operand again. -/
private theorem exists_joined (op : Connective) {ps qs : List Piece} {f g : Formula}
    (hf : ∀ n, ∃ x : Phrase .operand, x.tokens = tokensAt n ps ∧ x.formula = f)
    (hg : ∀ n, ∃ x : Phrase .operand, x.tokens = tokensAt n qs ∧ x.formula = g) (n : Nat) :
    ∃ x : Phrase .operand, x.tokens = tokensAt n (joined op ps qs) ∧ x.formula = .bin op f g := by
  -- where the connective, the right operand and the closing bracket stand
  let i := n + 1 + (spelling ps).length + 1
  let j := i + op.symbol.toList.length + 1
  let k := j + (spelling qs).length
  obtain ⟨x, hx, rfl⟩ := hf (n + 1)
  obtain ⟨y, hy, rfl⟩ := hg j
  obtain ⟨l, hl, hlf⟩ := x.exists_widen (Nonterminal.precedence_le_operand (.chain op))
  obtain ⟨r, hr, hrf⟩ := y.exists_widen op.tighter.precedence_le_operand
  let z : Phrase (.chain op) := .join l ⟨.binary op, .ofList op.symbol.toList, i⟩ r rfl
  obtain ⟨w, hw, hwf⟩ :=
    Phrase.exists_widen (n := .chain op) (m := .chain .iff) op.iff_precedence_le z
  refine ⟨.bracket ⟨.openBracket, .ofList ['('], n⟩ w ⟨.closeBracket, .ofList [')'], k⟩ rfl rfl,
    ?_, ?_⟩
  · have htokens : z.tokens = tokensAt (n + 1) ps ++
        ⟨.binary op, .ofList op.symbol.toList, i⟩ :: tokensAt j qs := by
      rw [Phrase.tokens, hl, hr, hx, hy]
    rw [Phrase.tokens, hw, htokens]
    simp [joined, tokensAt, tokensAt_append, i, j, k]
  · rw [Phrase.formula, hwf, Phrase.formula, hlf, hrf]

/-- The text of a formula has pieces whose tokens have a derivation that writes the formula. -/
theorem exists_pieces (f : Formula) (h : ∀ a ∈ f.names, isName a = true) :
    ∃ ps, spelling ps = f.text.toList ∧
      ∀ n, ∃ x : Phrase .operand, x.tokens = tokensAt n ps ∧ x.formula = f := by
  induction f with
  | atom a =>
    have ha := isName_iff.1 (h a (List.mem_singleton_self a))
    refine ⟨[.lexeme .atom a.toList ha], List.append_nil _, fun n => ?_⟩
    refine ⟨.atom ⟨.atom, .ofList a.toList, n⟩ rfl, rfl, ?_⟩
    rw [Phrase.formula, String.ofList_toList]
  | neg f ih =>
    obtain ⟨ps, hps, hf⟩ := ih h
    refine ⟨.lexeme .not ['!'] .not :: ps, ?_, fun n => ?_⟩
    · rw [spelling_cons, hps, text, String.toList_append]
      rfl
    · obtain ⟨x, hx, rfl⟩ := hf (n + 1)
      refine ⟨.negation ⟨.not, .ofList ['!'], n⟩ x rfl, ?_, rfl⟩
      rw [Phrase.tokens, hx]
      rfl
  | bin op l r ihl ihr =>
    obtain ⟨ps, hps, hl⟩ := ihl fun a ha => h a (List.mem_append_left _ ha)
    obtain ⟨qs, hqs, hr⟩ := ihr fun a ha => h a (List.mem_append_right _ ha)
    refine ⟨joined op ps qs, ?_, exists_joined op hl hr⟩
    simp [joined, hps, hqs, text, Piece.chars]
  | foreign v => exact v.elim

/-! ### Reading back -/

/-- A text is read as a formula exactly if it has pieces up to a full stop and the tokens of these
have a derivation that writes the formula. -/
theorem ofText_eq_ok_iff {text : String} {f : Formula} :
    ofText text = .ok f ↔ ∃ ps after, text.toList = spelling ps ++ '.' :: after ∧
      ∃ x : Phrase (.chain .iff), x.tokens = tokensAt 0 ps ∧ x.formula = f := by
  -- the tokens of the pieces stand between the added brackets
  have hread {ps : List Piece} (hscan : scan text = .ok (tokensOf ps)) :
      ofText text = .ok f ↔
        ∃ x : Phrase (.chain .iff), x.tokens = tokensAt 0 ps ∧ x.formula = f := by
    rw [ofText_eq_ok_iff_of_scan hscan, ofTokens_eq_ok_iff_phrase, tokensOf]
    exact Phrase.exists_within rfl rfl _ f
  constructor
  · intro h
    cases hscan : scan text with
    | error e =>
      rw [ofText_of_scan_error hscan] at h
      cases h
    | ok ts =>
      obtain ⟨ps, after, htext, rfl⟩ := scan_eq_ok_iff.1 hscan
      exact ⟨ps, after, htext, (hread hscan).1 h⟩
  · rintro ⟨ps, after, htext, hx⟩
    exact (hread (scan_of_spelling htext)).2 hx

/-- A formula with names that a text can hold is read back from its text. -/
theorem ofText_text_of_names {f : Formula} (h : ∀ a ∈ f.names, isName a = true) :
    ofText (f.text ++ ".") = .ok f := by
  obtain ⟨ps, hps, hx⟩ := f.exists_pieces h
  obtain ⟨x, hx, hxf⟩ := hx 0
  obtain ⟨y, hy, hyf⟩ := x.exists_widen (Nonterminal.precedence_le_operand (.chain .iff))
  refine ofText_eq_ok_iff.2 ⟨ps, [], ?_, y, hy.trans hx, hyf.trans hxf⟩
  rw [String.toList_append, hps]
  rfl

/-- Every name that is read from a text is a capital letter with at most two digits. -/
theorem isName_of_ofText {text : String} {f : Formula} (h : ofText text = .ok f) :
    ∀ a ∈ f.names, isName a = true := by
  intro a ha
  obtain ⟨ps, -, -, x, hx, rfl⟩ := ofText_eq_ok_iff.1 h
  obtain ⟨t, ht, hatom, rfl⟩ := x.exists_token_of_mem_names ha
  rw [hx] at ht
  have hspells := (laidOut_tokensAt ps).spells t ht
  rw [hatom] at hspells
  exact isName_iff.2 hspells

/-- **Reading back**: a formula is read back from its text, closed by a full stop, exactly if the
names of its atoms are capital letters with at most two digits. What is read from any text is such a
formula, so writing it and reading it again gives the same formula. -/
theorem ofText_text :
    (∀ f : Formula, ofText (f.text ++ ".") = .ok f ↔ ∀ a ∈ f.names, isName a = true) ∧
    ∀ (text : String) (f : Formula), ofText text = .ok f →
      (∀ a ∈ f.names, isName a = true) ∧ ofText (f.text ++ ".") = .ok f := by
  refine ⟨fun f => ⟨isName_of_ofText, ofText_text_of_names⟩, fun text f h => ?_⟩
  exact ⟨isName_of_ofText h, ofText_text_of_names (isName_of_ofText h)⟩

end Formula

end PropProver
