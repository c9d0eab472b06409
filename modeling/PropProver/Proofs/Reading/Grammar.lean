import Mathlib.Algebra.BigOperators.Group.List.Basic
import Mathlib.Algebra.Ring.Int.Defs
import PropProver.Formula.Reading

/-!
# The grammar of formulas

Every binary connective has a nonterminal of its own, and the operands of the tightest have one:

    Iff   ::= Iff   "<=>" Imply | Imply
    Imply ::= Imply "=>"  Or    | Or
    Or    ::= Or    "|"   And   | And
    And   ::= And   "&"   Operand | Operand
    Operand ::= "!" Operand | ATOM | "(" Iff ")"

A `Phrase` is a derivation in this grammar. It has the tokens that it derives and the formula that
they write, in which the brackets are dropped.

The grammar is unambiguous: a list of tokens has at most one derivation (`Phrase.ext_tokens`). In
the tokens of a phrase the brackets are balanced, and outside of all brackets stand only connectives
that the nonterminal allows, so that a connective can be split off at one place only.
-/

namespace PropProver

/-- The nonterminals of the grammar. -/
inductive Nonterminal where
  /-- Formulas that are joined by the connective or by tighter ones. -/
  | chain (op : Connective)
  /-- Formulas that may stand beside every connective. -/
  | operand
  deriving DecidableEq, Repr

/-- What stands on the right of a connective: the next tighter nonterminal. -/
def Connective.tighter : Connective → Nonterminal
  | .iff => .chain .imply
  | .imply => .chain .or
  | .or => .chain .and
  | .and => .operand

/-- How tightly the connectives outside of all brackets bind at least. -/
def Nonterminal.precedence : Nonterminal → Nat
  | .chain op => op.precedence
  | .operand => 6

theorem Connective.precedence_tighter (op : Connective) :
    op.tighter.precedence = op.precedence + 1 := by
  cases op <;> rfl

theorem Connective.iff_precedence_le (op : Connective) :
    Connective.iff.precedence ≤ op.precedence := by
  cases op <;> decide

theorem Nonterminal.precedence_le_operand (n : Nonterminal) :
    n.precedence ≤ Nonterminal.operand.precedence := by
  rcases n with ⟨op⟩ | -
  · cases op <;> decide
  · exact Nat.le_refl _

theorem Nonterminal.precedence_injective {n m : Nonterminal} (h : n.precedence = m.precedence) :
    n = m := by
  rcases n with ⟨⟨⟩⟩ | - <;> rcases m with ⟨⟨⟩⟩ | - <;> first | rfl | cases h

/-- The derivations from a nonterminal. -/
inductive Phrase : Nonterminal → Type where
  /-- Two phrases joined by a connective, which groups to the left. -/
  | join {op : Connective} (left : Phrase (.chain op)) (sign : Token) (right : Phrase op.tighter)
    (h : sign.kind = .binary op) : Phrase (.chain op)
  /-- A phrase of the next tighter nonterminal. -/
  | lift {op : Connective} (x : Phrase op.tighter) : Phrase (.chain op)
  /-- A negation. -/
  | negation (sign : Token) (x : Phrase .operand) (h : sign.kind = .not) : Phrase .operand
  /-- An atom. -/
  | atom (name : Token) (h : name.kind = .atom) : Phrase .operand
  /-- A formula between brackets. -/
  | bracket (opening : Token) (x : Phrase (.chain .iff)) (closing : Token)
    (ho : opening.kind = .openBracket) (hc : closing.kind = .closeBracket) : Phrase .operand

namespace Phrase

variable {n : Nonterminal}

/-- The tokens that are derived. -/
def tokens : {n : Nonterminal} → Phrase n → List Token
  | _, .join l sign r _ => l.tokens ++ sign :: r.tokens
  | _, .lift x => x.tokens
  | _, .negation sign x _ => sign :: x.tokens
  | _, .atom name _ => [name]
  | _, .bracket o x c _ _ => o :: (x.tokens ++ [c])

/-- The formula that is written, without the brackets. -/
def formula : {n : Nonterminal} → Phrase n → Formula
  | _, @join op l _ r _ => .bin op l.formula r.formula
  | _, .lift x => x.formula
  | _, .negation _ x _ => .neg x.formula
  | _, .atom name _ => .atom name.lexeme
  | _, .bracket _ x _ _ _ => x.formula

/-- A phrase is also a phrase of every looser nonterminal. -/
theorem exists_widen {n m : Nonterminal} (h : m.precedence ≤ n.precedence) (x : Phrase n) :
    ∃ y : Phrase m, y.tokens = x.tokens ∧ y.formula = x.formula := by
  obtain ⟨k, hk⟩ := Nat.exists_eq_add_of_le h
  clear h
  induction k generalizing m with
  | zero =>
    cases Nonterminal.precedence_injective hk
    exact ⟨x, rfl, rfl⟩
  | succ k ih =>
    cases m with
    | operand =>
      have := n.precedence_le_operand
      omega
    | chain op =>
      have htighter : n.precedence = op.tighter.precedence + k := by
        rw [op.precedence_tighter, hk, Nonterminal.precedence]
        omega
      obtain ⟨y, hy⟩ := ih htighter
      exact ⟨.lift y, hy⟩

end Phrase

/-! ### Brackets -/

namespace Token

/-- How a token changes the number of open brackets. -/
def Kind.nesting : Kind → Int
  | .openBracket => 1
  | .closeBracket => -1
  | _ => 0

/-- The brackets that a list of tokens opens, less those that it closes. -/
def nesting (ts : List Token) : Int := (ts.map fun t => t.kind.nesting).sum

@[simp] theorem nesting_nil : nesting [] = 0 := rfl

@[simp] theorem nesting_cons (t : Token) (ts : List Token) :
    nesting (t :: ts) = t.kind.nesting + nesting ts := List.sum_cons

@[simp] theorem nesting_append (ts us : List Token) :
    nesting (ts ++ us) = nesting ts + nesting us := by
  rw [nesting, List.map_append, List.sum_append]
  rfl

end Token

open Token

namespace Phrase

variable {n : Nonterminal}

/-- A phrase closes all brackets that it opens. -/
@[simp] theorem nesting_tokens (x : Phrase n) : nesting x.tokens = 0 := by
  induction x with
  | join l sign r h ihl ihr => simp [tokens, ihl, ihr, h, Kind.nesting]
  | lift x ih => exact ih
  | negation sign x h ih => simp [tokens, ih, h, Kind.nesting]
  | atom name h => simp [tokens, h, Kind.nesting]
  | bracket o x c ho hc ih => simp [tokens, ih, ho, hc, Kind.nesting]

/-- The place where a list of tokens is cut lies before a given token or after it. -/
private theorem cut_cases {ts us vs ws : List Token} {t : Token} (h : ts ++ t :: us = vs ++ ws) :
    (∃ xs, ts = vs ++ xs ∧ ws = xs ++ t :: us) ∨ ∃ xs, vs = ts ++ t :: xs ∧ us = xs ++ ws := by
  rcases List.append_eq_append_iff.1 h with ⟨xs, hvs, hws⟩ | ⟨xs, hts, hws⟩
  · rcases List.cons_eq_append_iff.1 hws with ⟨rfl, rfl⟩ | ⟨ys, rfl, hus⟩
    · exact .inl ⟨[], by simpa using hvs.symm, rfl⟩
    · exact .inr ⟨ys, hvs, hus⟩
  · exact .inl ⟨xs, hts, hws⟩

/-- A phrase closes no bracket that it has not opened before. -/
theorem nesting_nonneg (x : Phrase n) {ts us : List Token} (h : x.tokens = ts ++ us) :
    0 ≤ nesting ts := by
  induction x generalizing ts us with
  | join l sign r hs ihl ihr =>
    rcases cut_cases h with ⟨vs, hl, -⟩ | ⟨vs, rfl, hr⟩
    · exact ihl hl
    · simpa [hs, Kind.nesting] using ihr hr
  | lift x ih => exact ih h
  | negation sign x hs ih =>
    rcases List.cons_eq_append_iff.1 h with ⟨rfl, -⟩ | ⟨vs, rfl, hx⟩
    · exact Int.le_refl _
    · simpa [hs, Kind.nesting] using ih hx
  | atom name hn =>
    rcases List.cons_eq_append_iff.1 h with ⟨rfl, -⟩ | ⟨vs, rfl, hvs⟩
    · exact Int.le_refl _
    · rw [(List.append_eq_nil_iff.1 hvs.symm).1]
      simp [hn, Kind.nesting]
  | bracket o x c ho hc ih =>
    rcases List.cons_eq_append_iff.1 h with ⟨rfl, -⟩ | ⟨vs, rfl, hvs⟩
    · exact Int.le_refl _
    simp only [nesting_cons, ho, Kind.nesting]
    rcases cut_cases hvs with ⟨ws, hx, -⟩ | ⟨ws, rfl, hws⟩
    · have := ih hx
      omega
    · rw [(List.append_eq_nil_iff.1 hws.symm).1]
      simp [hc, Kind.nesting]

/-- Outside of all brackets a phrase has no looser connective than its nonterminal allows. -/
theorem precedence_le (x : Phrase n) {ts us : List Token} {sign : Token} {op : Connective}
    (h : x.tokens = ts ++ sign :: us) (hs : sign.kind = .binary op) (hts : nesting ts = 0) :
    n.precedence ≤ op.precedence := by
  induction x generalizing ts us with
  | @join op' l sign' r hs' ihl ihr =>
    rcases cut_cases h with ⟨vs, hl, hvs⟩ | ⟨vs, rfl, hr⟩
    · rcases List.cons_eq_append_iff.1 hvs with ⟨-, hvs⟩ | ⟨ws, rfl, -⟩
      · obtain ⟨rfl, -⟩ := List.cons.inj hvs
        cases hs.symm.trans hs'
        exact Nat.le_refl _
      · exact ihl hl hts
    · have := ihr hr (by simpa [hs', Kind.nesting] using hts)
      rw [op'.precedence_tighter] at this
      exact Nat.le_of_succ_le this
  | @lift op' x ih =>
    have := ih h hts
    rw [op'.precedence_tighter] at this
    exact Nat.le_of_succ_le this
  | negation sign' x hs' ih =>
    rcases List.cons_eq_append_iff.1 h with ⟨-, hx⟩ | ⟨vs, rfl, hx⟩
    · obtain ⟨rfl, -⟩ := List.cons.inj hx
      cases hs.symm.trans hs'
    · exact ih hx (by simpa [hs', Kind.nesting] using hts)
  | atom name hn =>
    rcases List.cons_eq_append_iff.1 h with ⟨-, hx⟩ | ⟨vs, rfl, hx⟩
    · obtain ⟨rfl, -⟩ := List.cons.inj hx
      cases hs.symm.trans hn
    · cases (List.append_eq_nil_iff.1 hx.symm).2
  | bracket o x c ho hc ih =>
    rcases List.cons_eq_append_iff.1 h with ⟨-, hx⟩ | ⟨vs, rfl, hx⟩
    · obtain ⟨rfl, -⟩ := List.cons.inj hx
      cases hs.symm.trans ho
    -- inside of the brackets the nesting is never zero
    simp only [nesting_cons, ho, Kind.nesting] at hts
    rcases cut_cases hx with ⟨ws, hws, hcut⟩ | ⟨ws, rfl, hws⟩
    · have := x.nesting_nonneg hws
      omega
    · cases (List.append_eq_nil_iff.1 hws.symm).2

/-! ### One derivation only -/

/-- On the right of a connective the same connective is not found outside of all brackets, so a
longer left part leaves no right part. -/
theorem not_split_later {op : Connective} {l l' : Phrase (.chain op)} {r : Phrase op.tighter}
    {sign sign' : Token} {ts us : List Token} (hs : sign.kind = .binary op)
    (hs' : sign'.kind = .binary op) (hl : l'.tokens = l.tokens ++ sign :: ts)
    (hr : r.tokens = ts ++ sign' :: us) : False := by
  have hts : nesting ts = 0 := by
    simpa [hs, Kind.nesting] using (congrArg nesting hl).symm
  have := r.precedence_le hr hs' hts
  rw [op.precedence_tighter] at this
  omega

/-- There is one way only to split tokens at a connective. -/
theorem join_inj {op : Connective} {l l' : Phrase (.chain op)} {r r' : Phrase op.tighter}
    {sign sign' : Token} (hs : sign.kind = .binary op) (hs' : sign'.kind = .binary op)
    (h : l.tokens ++ sign :: r.tokens = l'.tokens ++ sign' :: r'.tokens) :
    l.tokens = l'.tokens ∧ sign = sign' ∧ r.tokens = r'.tokens := by
  rcases cut_cases h with ⟨ts, hl, hts⟩ | ⟨ts, hl, hr⟩
  · rcases List.cons_eq_append_iff.1 hts with ⟨rfl, hts⟩ | ⟨us, rfl, hr⟩
    · obtain ⟨rfl, hr⟩ := List.cons.inj hts
      exact ⟨by simpa using hl, rfl, hr.symm⟩
    · exact (not_split_later hs' hs hl hr).elim
  · exact (not_split_later hs hs' hl hr).elim

/-- Tokens that are split at a connective are no operand of this connective. -/
theorem join_ne {op : Connective} {l : Phrase (.chain op)} {sign : Token} {us : List Token}
    (hs : sign.kind = .binary op) (x : Phrase op.tighter) : l.tokens ++ sign :: us ≠ x.tokens := by
  intro h
  have := x.precedence_le h.symm hs l.nesting_tokens
  rw [op.precedence_tighter] at this
  omega

/-- **The grammar is unambiguous**: tokens have at most one derivation from a nonterminal. -/
theorem ext_tokens {x y : Phrase n} (h : x.tokens = y.tokens) : x = y := by
  induction x with
  | join l sign r hs ihl ihr =>
    cases y with
    | join l' sign' r' hs' =>
      obtain ⟨hl, rfl, hr⟩ := join_inj hs hs' h
      rw [ihl hl, ihr hr]
    | lift y => exact absurd h (join_ne hs y)
  | lift x ih =>
    cases y with
    | join l sign r hs => exact absurd h.symm (join_ne hs x)
    | lift y => rw [ih h]
  | negation sign x hs ih =>
    cases y with
    | negation sign' y hs' =>
      obtain ⟨rfl, hx⟩ := List.cons.inj h
      rw [ih hx]
    | atom name hn =>
      obtain ⟨rfl, -⟩ := List.cons.inj h
      cases hs.symm.trans hn
    | bracket o y c ho hc =>
      obtain ⟨rfl, -⟩ := List.cons.inj h
      cases hs.symm.trans ho
  | atom name hn =>
    cases y with
    | negation sign y hs =>
      obtain ⟨rfl, -⟩ := List.cons.inj h
      cases hs.symm.trans hn
    | atom name' hn' =>
      obtain ⟨rfl, -⟩ := List.cons.inj h
      rfl
    | bracket o y c ho hc =>
      obtain ⟨rfl, -⟩ := List.cons.inj h
      cases hn.symm.trans ho
  | bracket o x c ho hc ih =>
    cases y with
    | negation sign y hs =>
      obtain ⟨rfl, -⟩ := List.cons.inj h
      cases ho.symm.trans hs
    | atom name hn =>
      obtain ⟨rfl, -⟩ := List.cons.inj h
      cases ho.symm.trans hn
    | bracket o' y c' ho' hc' =>
      obtain ⟨rfl, hx⟩ := List.cons.inj h
      obtain ⟨hxy, hcc⟩ := List.append_inj' hx rfl
      obtain ⟨rfl, -⟩ := List.cons.inj hcc
      rw [ih hxy]

end Phrase

end PropProver
