import PropProver.Proofs.Reading.Grammar

/-!
# Partners of brackets

`Token.partner?` finds the place where a bracket at the head of a list is closed. A phrase that
starts with a bracket starts with a formula between brackets (`Phrase.exists_bracket`), and the
closing one of these is the partner. So the partner is the last token exactly if nothing comes after
these brackets, and then they can be dropped (`Phrase.exists_within`).
-/

namespace PropProver

namespace Token

/-- The place of the bracket that closes one more bracket than are opened before it, when so many
others are open. -/
def closing? : Nat → List Token → Option Nat
  | _, [] => none
  | depth, t :: ts =>
    match t.kind, depth with
    | .closeBracket, 0 => some 0
    | .closeBracket, depth + 1 => (closing? depth ts).map (· + 1)
    | .openBracket, depth => (closing? (depth + 1) ts).map (· + 1)
    | _, depth => (closing? depth ts).map (· + 1)

/-- The place of the bracket that closes the bracket at the head. -/
def partner? : List Token → Option Nat
  | [] => none
  | t :: ts => if t.kind = .openBracket then (closing? 0 ts).map (· + 1) else none

/-- The tokens start with an opening bracket. -/
def StartsOpen (ts : List Token) : Prop := ∃ t us, ts = t :: us ∧ t.kind = .openBracket

/-- If the tokens start with an opening bracket, the last token closes it. -/
def ClosedAtEnd (ts : List Token) : Prop := StartsOpen ts → partner? ts = some (ts.length - 1)

end Token

open Token

namespace Phrase

variable {n : Nonterminal}

theorem tokens_ne_nil (x : Phrase n) : x.tokens ≠ [] := by
  induction x with
  | lift x ih => exact ih
  | _ => simp [tokens]

/-- Within a phrase no bracket is closed that was open before. -/
theorem closing?_tokens_append (x : Phrase n) (depth : Nat) (ts : List Token) :
    closing? depth (x.tokens ++ ts) = (closing? depth ts).map (x.tokens.length + ·) := by
  induction x generalizing depth ts with
  | join l sign r h ihl ihr =>
    simp [tokens, ihl, ihr, closing?, h, Function.comp_def, Nat.add_assoc, Nat.add_comm,
      Nat.add_left_comm]
  | lift x ih => exact ih depth ts
  | negation sign x h ih =>
    simp [tokens, ih, closing?, h, Function.comp_def, Nat.add_comm, Nat.add_left_comm]
  | atom name h => simp [tokens, closing?, h, Nat.add_comm]
  | bracket o x c ho hc ih =>
    simp [tokens, ih, closing?, ho, hc, Function.comp_def, Nat.add_assoc, Nat.add_comm,
      Nat.add_left_comm]

/-- The partner of a bracket before a phrase comes right after the phrase. -/
theorem partner?_tokens (x : Phrase n) {o c : Token} (ho : o.kind = .openBracket)
    (hc : c.kind = .closeBracket) (ts : List Token) :
    partner? (o :: (x.tokens ++ c :: ts)) = some (x.tokens.length + 1) := by
  simp [partner?, ho, closing?_tokens_append, closing?, hc]

/-- The partner is the last token if it is followed by none. -/
theorem closedAtEnd_iff (x : Phrase n) {o c : Token} (ho : o.kind = .openBracket)
    (hc : c.kind = .closeBracket) (ts : List Token) :
    ClosedAtEnd (o :: (x.tokens ++ c :: ts)) ↔ ts = [] := by
  have hopen : StartsOpen (o :: (x.tokens ++ c :: ts)) := ⟨o, _, rfl, ho⟩
  rw [ClosedAtEnd, partner?_tokens x ho hc, ← List.length_eq_zero_iff]
  simp only [hopen, forall_const, Option.some.injEq, List.length_cons, List.length_append]
  omega

/-- A phrase that starts with a bracket starts with a formula between brackets. If nothing follows
these, both write the same formula. -/
theorem exists_bracket (x : Phrase n) (h : StartsOpen x.tokens) :
    ∃ (o : Token) (y : Phrase (.chain .iff)) (c : Token) (ts : List Token),
      o.kind = .openBracket ∧ c.kind = .closeBracket ∧
      x.tokens = o :: (y.tokens ++ c :: ts) ∧ (ts = [] → x.formula = y.formula) := by
  induction x with
  | join l sign r hs ihl ihr =>
    have hl : StartsOpen l.tokens := by
      obtain ⟨t, us, hus, ht⟩ := h
      rcases List.append_eq_cons_iff.1 hus with ⟨hnil, -⟩ | ⟨vs, hvs, -⟩
      · exact absurd hnil l.tokens_ne_nil
      · exact ⟨t, vs, hvs, ht⟩
    obtain ⟨o, y, c, ts, ho, hc, hts, -⟩ := ihl hl
    exact ⟨o, y, c, ts ++ sign :: r.tokens, ho, hc, by simp [tokens, hts], by simp⟩
  | lift x ih => exact ih h
  | negation sign x hs ih =>
    obtain ⟨t, us, hus, ht⟩ := h
    obtain ⟨rfl, -⟩ := List.cons.inj hus
    cases hs.symm.trans ht
  | atom name hn =>
    obtain ⟨t, us, hus, ht⟩ := h
    obtain ⟨rfl, -⟩ := List.cons.inj hus
    cases hn.symm.trans ht
  | bracket o x c ho hc ih => exact ⟨o, x, c, [], ho, hc, rfl, fun _ => rfl⟩

/-- Tokens between brackets that are closed by the last token are a formula exactly if the tokens
without the brackets are. -/
theorem exists_within {o c : Token} (ho : o.kind = .openBracket) (hc : c.kind = .closeBracket)
    (ts : List Token) (f : Formula) :
    ((∃ x : Phrase (.chain .iff), x.tokens = o :: (ts ++ [c]) ∧ x.formula = f) ∧
      ClosedAtEnd (o :: (ts ++ [c]))) ↔
    ∃ x : Phrase (.chain .iff), x.tokens = ts ∧ x.formula = f := by
  constructor
  · rintro ⟨⟨x, hx, rfl⟩, hclosed⟩
    obtain ⟨o', y, c', us, ho', hc', hy, hf⟩ := x.exists_bracket ⟨o, _, hx, ho⟩
    rw [← hx, hy, y.closedAtEnd_iff ho' hc'] at hclosed
    subst hclosed
    rw [hy] at hx
    obtain ⟨-, htokens⟩ := List.cons.inj hx
    exact ⟨y, (List.append_inj' htokens rfl).1, (hf rfl).symm⟩
  · rintro ⟨x, rfl, rfl⟩
    refine ⟨?_, (x.closedAtEnd_iff ho hc []).2 rfl⟩
    exact exists_widen (Nonterminal.precedence_le_operand _) (.bracket o x c ho hc)

end Phrase

end PropProver
