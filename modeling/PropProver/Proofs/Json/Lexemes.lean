import PropProver.Json.Reader
import PropProver.Json.Writer
import Mathlib.Data.List.Basic

/-!
# The lexemes of written JSON

What the writer writes splits into the lexemes of the value: `written` lists them, and
`charLexemes_chars` says that nothing but these is found, whatever the layout, as long as its margin
is blank. A text is read as what was written except that each pair of halves in it is put together:
every code is written in one of a few ways (`Spelled`, `exists_pieces_escapeCode`), and what is
written in these ways is read as the joined text (`SpelledOut.text_eq`). Numbers come back because a
run of digits ends where it is followed by something else.
-/

namespace PropProver

/-! ### Hexadecimal digits -/

namespace Text

theorem hex_one {n : Nat} (h : n < 16) : hex 1 n = [Nat.digitChar n] := by
  unfold hex
  rw [Nat.toDigits_of_lt_base h]
  rfl

theorem hex_succ {width : Nat} (hwidth : 0 < width) (n : Nat) :
    hex (width + 1) n = hex width (n / 16) ++ [Nat.digitChar (n % 16)] := by
  unfold hex
  by_cases h : n < 16
  · rw [Nat.toDigits_of_lt_base h, Nat.div_eq_of_lt h, Nat.mod_eq_of_lt h, Nat.toDigits_zero]
    obtain ⟨w, rfl⟩ := Nat.exists_eq_add_of_lt hwidth
    simp [List.replicate_succ']
  · rw [Nat.toDigits_of_base_le (by decide) (Nat.le_of_not_lt h)]
    simp [Nat.add_sub_add_right]

end Text

namespace Json

theorem hexDigit?_digitChar {n : Nat} (h : n < 16) : hexDigit? (Nat.digitChar n) = some n := by
  revert n
  decide

/-! ### Texts -/

/-- The ways in which a code is written between quotes: for itself or by a letter, by its number, or
by the numbers of its halves. -/
inductive Spelled : Code → List Piece → Prop
  | plain (c : Char) : Spelled (.char c) [.plain (.char c)]
  | numbered (c : Code) : Spelled c [.numbered c]
  | halves (m n : Fin 0x400) :
      Spelled (.char (Code.pair m n)) [.numbered (.high m), .numbered (.low n)]

/-- A text is written code by code. -/
inductive SpelledOut : Codes → List Piece → Prop
  | nil : SpelledOut [] []
  | cons {c : Code} {cs : Codes} {ps qs : List Piece} :
      Spelled c ps → SpelledOut cs qs → SpelledOut (c :: cs) (ps ++ qs)

/-- Only a low half is written with the number of a low half at its front. -/
theorem SpelledOut.exists_low {cs : Codes} {n : Fin 0x400} {ps : List Piece}
    (h : SpelledOut cs (.numbered (.low n) :: ps)) : ∃ ds, cs = .low n :: ds := by
  generalize hqs : Piece.numbered (.low n) :: ps = qs at h
  cases h with
  | nil => cases hqs
  | cons hc hcs =>
    cases hc with
    | plain | halves => cases hqs
    | numbered =>
      cases hqs
      exact ⟨_, rfl⟩

/-- What is spelled out is read with every pair of halves put together. -/
theorem SpelledOut.text_eq {cs : Codes} {ps : List Piece} (h : SpelledOut cs ps) :
    Piece.text ps = cs.joined := by
  fun_induction Codes.joined cs generalizing ps with
  | case1 =>
    cases h
    rfl
  | case2 m n cs ih =>
    cases h with
    | cons hm hrest =>
      cases hrest with
      | cons hn hcs =>
        cases hm
        cases hn
        exact congrArg (_ :: ·) (ih hcs)
  | case3 c cs hpair ih =>
    cases h with
    | @cons _ _ _ qs hc hcs =>
      rw [← ih hcs]
      cases hc with
      | plain c => rfl
      | numbered =>
        -- the number of a high half is not followed by that of a low one
        rw [List.singleton_append, Piece.text]
        rintro m n qs rfl rfl
        obtain ⟨ds, rfl⟩ := hcs.exists_low
        exact hpair m n ds rfl rfl
      | halves m n => rfl

/-- A number in four hexadecimal digits is read back. -/
theorem pieces?_unit {n : Nat} (h : n < 0x10000) (cs : List Char) :
    pieces? (Codes.ofChars (unit n ++ cs)) =
      (pieces? (Codes.ofChars cs)).map fun (ps, rest) => (.numbered (.ofNumber n) :: ps, rest) := by
  have hunit : unit n = ['\\', 'u', Nat.digitChar (n / 16 / 16 / 16),
      Nat.digitChar (n / 16 / 16 % 16), Nat.digitChar (n / 16 % 16), Nat.digitChar (n % 16)] := by
    unfold unit
    rw [Text.hex_succ (by decide), Text.hex_succ (by decide), Text.hex_succ (by decide),
      Text.hex_one (by omega)]
    rfl
  have hvalue :
      (((n / 16 / 16 / 16) * 16 + n / 16 / 16 % 16) * 16 + n / 16 % 16) * 16 + n % 16 = n := by
    omega
  rw [hunit]
  simp only [List.cons_append, List.nil_append, Codes.ofChars_cons]
  rw [pieces?, unit?, hexDigit?_digitChar (by omega), hexDigit?_digitChar (by omega),
    hexDigit?_digitChar (by omega), hexDigit?_digitChar (by omega)]
  cases pieces? (Codes.ofChars cs) <;> simp [hvalue]

/-- A character that stands for itself between quotes is read as it is. -/
theorem pieces?_plain {c : Char} (hquote : c ≠ '"') (hslash : c ≠ '\\') (h : 0x20 ≤ c.toNat)
    (cs : Codes) :
    pieces? (.char c :: cs) =
      (pieces? cs).map fun (ps, rest) => (.plain (.char c) :: ps, rest) := by
  have hne {d : Char} (hd : c ≠ d) : Code.char c ≠ .char d := fun heq => hd (Code.char.inj heq)
  rw [pieces?.eq_5 _ cs (hne hquote) (fun _ _ _ _ _ hc => absurd hc (hne hslash))
    fun _ _ hc => absurd hc (hne hslash), Code.number, if_neg (Nat.not_lt.2 h)]
  cases pieces? cs <;> rfl

/-- A character behind a backslash is read as what it stands for. -/
theorem pieces?_letter {c e : Char} (h : escape? (.char c) = some e) (cs : Codes) :
    pieces? (.char '\\' :: .char c :: cs) =
      (pieces? cs).map fun (ps, rest) => (.plain (.char e) :: ps, rest) := by
  have hu : Code.char c ≠ .char 'u' := by
    intro heq
    rw [heq] at h
    cases h
  rw [pieces?.eq_4 _ cs fun _ _ _ _ _ hc => absurd hc hu, h]
  cases pieces? cs <;> rfl

/-- How a character is written: by a letter that stands for it, as it is, by its number, or by the
numbers of its halves. -/
theorem escape_cases (c : Char) :
    (∃ l, escape c = ['\\', l] ∧ escape? (.char l) = some c) ∨
    (escape c = [c] ∧ c ≠ '"' ∧ c ≠ '\\' ∧ 0x20 ≤ c.toNat) ∨
    (escape c = unit c.toNat ∧ c.toNat < 0x10000) ∨
    ∃ m n, escape c = unit (Code.high m).number ++ unit (Code.low n).number ∧
      c = Code.pair m n := by
  by_cases hletter : c = '"' ∨ c = '\\' ∨ c = '\n' ∨ c = '\r' ∨ c = '\t' ∨ c = '\x08' ∨ c = '\x0c'
  · left
    rcases hletter with rfl | rfl | rfl | rfl | rfl | rfl | rfl <;> exact ⟨_, rfl, rfl⟩
  · simp only [not_or] at hletter
    obtain ⟨hquote, hslash, hn, hr, ht, hb, hf⟩ := hletter
    right
    unfold escape
    rw [if_neg hquote, if_neg hslash, if_neg hn, if_neg hr, if_neg ht, if_neg hb, if_neg hf]
    by_cases hplain : 0x20 ≤ c.toNat ∧ c.toNat < 0x7F
    · rw [if_pos hplain]
      exact .inl ⟨rfl, hquote, hslash, hplain.1⟩
    · rw [if_neg hplain]
      by_cases hsmall : c.toNat < 0x10000
      · rw [if_pos hsmall]
        exact .inr (.inl ⟨rfl, hsmall⟩)
      · have hvalid : c.toNat < 0xD800 ∨ 0xDFFF < c.toNat ∧ c.toNat < 0x110000 := c.valid
        have hhigh : (c.toNat - 0x10000) / 0x400 < 0x400 := by omega
        have hlow : (c.toNat - 0x10000) % 0x400 < 0x400 := Nat.mod_lt _ (by decide)
        have hcode : 0x10000 + (c.toNat - 0x10000) / 0x400 * 0x400 + (c.toNat - 0x10000) % 0x400 =
            c.toNat := by omega
        rw [if_neg hsmall]
        refine .inr (.inr ⟨⟨_, hhigh⟩, ⟨_, hlow⟩, rfl, ?_⟩)
        rw [Code.pair, hcode, Char.ofNat_toNat]

/-- A code in writing is read as one of the ways in which the code is written. -/
theorem exists_pieces_escapeCode (c : Code) :
    ∃ ps, Spelled c ps ∧ ∀ cs, pieces? (Codes.ofChars (escapeCode c ++ cs)) =
      (pieces? (Codes.ofChars cs)).map fun (qs, rest) => (ps ++ qs, rest) := by
  have hnumber {c : Code} (h : c.number < 0x10000) (cs : List Char) :
      pieces? (Codes.ofChars (unit c.number ++ cs)) =
        (pieces? (Codes.ofChars cs)).map fun (qs, rest) => ([.numbered c] ++ qs, rest) := by
    rw [pieces?_unit h, Code.ofNumber_number]
    rfl
  cases c with
  | high m => exact ⟨_, .numbered _, hnumber (Code.number_high_lt m)⟩
  | low n => exact ⟨_, .numbered _, hnumber (Code.number_low_lt n)⟩
  | char c =>
    rw [escapeCode]
    rcases escape_cases c with ⟨l, hc, hl⟩ | ⟨hc, hquote, hslash, hle⟩ | ⟨hc, hsmall⟩ |
      ⟨m, n, hc, rfl⟩
    · exact ⟨_, .plain c, fun cs => by rw [hc]; exact pieces?_letter hl _⟩
    · exact ⟨_, .plain c, fun cs => by rw [hc]; exact pieces?_plain hquote hslash hle _⟩
    · exact ⟨_, .numbered _, fun cs => by rw [hc]; exact hnumber (c := .char c) hsmall cs⟩
    · refine ⟨_, .halves m n, fun cs => ?_⟩
      rw [hc, List.append_assoc, hnumber (Code.number_high_lt m), hnumber (Code.number_low_lt n),
        Option.map_map]
      rfl

/-- What stands between quotes is read as a text that is spelled out, up to the closing quote. -/
theorem exists_pieces_flatMap (cs : Codes) (rest : List Char) :
    ∃ ps, SpelledOut cs ps ∧
      pieces? (Codes.ofChars (cs.flatMap escapeCode ++ '"' :: rest)) =
        some (ps, Codes.ofChars rest) := by
  induction cs with
  | nil => exact ⟨[], .nil, rfl⟩
  | cons c cs ih =>
    obtain ⟨ps, hps, hread⟩ := exists_pieces_escapeCode c
    obtain ⟨qs, hqs, hrest⟩ := ih
    refine ⟨ps ++ qs, .cons hps hqs, ?_⟩
    rw [List.flatMap_cons, List.append_assoc, hread, hrest]
    rfl

/-! ### Single lexemes -/

/-- The lexemes of a text without halves. -/
def charLexemes (cs : List Char) : List Lexeme := lexemes (Codes.ofChars cs)

/-- The lexemes that are one character. -/
def mark? : Char → Option Lexeme
  | '[' => some .openList
  | ']' => some .closeList
  | '{' => some .openObject
  | '}' => some .closeObject
  | ',' => some .comma
  | ':' => some .colon
  | _ => none

theorem charLexemes_mark {c : Char} {l : Lexeme} (h : mark? c = some l) (cs : List Char) :
    charLexemes (c :: cs) = l :: charLexemes cs := by
  unfold mark? at h
  split at h
  all_goals
    cases h
    try (rw [charLexemes, Codes.ofChars_cons, lexemes]; rfl)

theorem charLexemes_append_of_blank {ws : List Char} (h : ∀ c ∈ ws, isSpace c = true)
    (cs : List Char) : charLexemes (ws ++ cs) = charLexemes cs := by
  induction ws with
  | nil => rfl
  | cons w ws ih =>
    rw [List.cons_append, charLexemes, Codes.ofChars_cons, lexemes,
      if_pos (h w List.mem_cons_self)]
    exact ih fun c hc => h c (List.mem_cons_of_mem _ hc)

/-- A text between quotes is one lexeme. -/
theorem charLexemes_quote (s : Codes) (rest : List Char) :
    charLexemes (quote s ++ rest) = .text s.joined :: charLexemes rest := by
  obtain ⟨ps, hps, hpieces⟩ := exists_pieces_flatMap s rest
  have hquote : quote s ++ rest = '"' :: (s.flatMap escapeCode ++ '"' :: rest) := by
    simp [quote]
  rw [hquote, charLexemes, Codes.ofChars_cons, lexemes, if_neg (by decide), if_neg (by decide),
    if_neg (by decide), if_neg (by decide), if_neg (by decide), if_neg (by decide),
    if_neg (by decide), if_pos rfl]
  split
  · next hnone =>
    rw [hpieces] at hnone
    cases hnone
  · next hsome =>
    rw [hpieces] at hsome
    cases hsome
    rw [hps.text_eq, charLexemes]

/-- A word or number is one lexeme, which ends where no further letters and digits follow. -/
theorem charLexemes_of_scalar? {c : Char} (word : List Char) {rest : List Char} {l : Lexeme}
    (hc : c.isAlphanum = true ∨ c = '-') (hword : ∀ d ∈ word, d.isAlphanum = true)
    (h : scalar? (c :: (word ++ rest.takeWhile Char.isAlphanum)) = some (l, word.length)) :
    charLexemes (c :: (word ++ rest)) = l :: charLexemes rest := by
  -- such a character is neither blank nor a mark nor a quote
  have hne {d : Char} (hd : (d.isAlphanum || d == '-') = false) : c ≠ d := by
    rintro rfl
    rcases hc with hc | rfl
    · rw [hc] at hd
      cases hd
    · cases hd
  have hspace : ¬isSpace c = true := by
    simp [isSpace, hne (d := ' ') rfl, hne (d := '\t') rfl, hne (d := '\n') rfl,
      hne (d := '\r') rfl]
  have hdrop : (Codes.ofChars (word ++ rest)).drop word.length = Codes.ofChars rest := by
    rw [Codes.ofChars, ← List.map_drop, List.drop_left, Codes.ofChars]
  rw [charLexemes, Codes.ofChars_cons, lexemes, if_neg hspace, if_neg (hne rfl), if_neg (hne rfl),
    if_neg (hne rfl), if_neg (hne rfl), if_neg (hne rfl), if_neg (hne rfl), if_neg (hne rfl),
    Codes.leading_ofChars, List.takeWhile_append_of_pos hword, h]
  simp only [hdrop, charLexemes]

/-! ### Numbers -/

/-- A text that does not go on with a digit. -/
def NoDigit (cs : List Char) : Prop := ∀ c ∈ cs.head?, c.isDigit = false

theorem isDigit_of_mem_toDigits {n : Nat} {c : Char} (h : c ∈ Nat.toDigits 10 n) :
    c.isDigit = true :=
  Nat.isDigit_of_mem_toDigits (by decide) (by decide) h

/-- Only the number zero is written with a zero at its front. -/
theorem head?_toDigits_ne {n : Nat} (h : 0 < n) : (Nat.toDigits 10 n).head? ≠ some '0' := by
  induction n using Nat.base_induction 10 (by decide) with
  | single m hm =>
    rw [Nat.toDigits_of_lt_base hm]
    have hdigit : ∀ m < 10, 0 < m → Nat.digitChar m ≠ '0' := by decide
    simpa using hdigit m hm h
  | digit m k hk hm ih =>
    rw [← Nat.toDigits_append_toDigits (by decide) hm hk,
      List.head?_append_of_ne_nil _ Nat.toDigits_ne_nil]
    exact ih hm

/-- The digits of a number are read to their end. -/
theorem naturalLength_toDigits (n : Nat) {rest : List Char} (hrest : NoDigit rest) :
    naturalLength (Nat.toDigits 10 n ++ rest) = (Nat.toDigits 10 n).length := by
  have htake : (Nat.toDigits 10 n ++ rest).takeWhile Char.isDigit = Nat.toDigits 10 n := by
    rw [List.takeWhile_append_of_pos fun c => isDigit_of_mem_toDigits]
    cases rest with
    | nil => simp
    | cons c rest => simp [hrest c rfl]
  rcases Nat.eq_zero_or_pos n with rfl | hn
  · rfl
  · rw [naturalLength.eq_2, htake]
    intro cs hcs
    apply head?_toDigits_ne hn
    rw [← List.head?_append_of_ne_nil _ Nat.toDigits_ne_nil, hcs]
    rfl

theorem ofDigits_toDigits (n : Nat) : ofDigits (Nat.toDigits 10 n) = n := by
  have h := Nat.ofDigitChars_ten_toDigits (n := n)
  rw [Nat.ofDigitChars_eq_foldl] at h
  exact h

/-- The lexeme of a number in writing. -/
def Lexeme.ofInt (n : Int) : Lexeme :=
  if Text.digitLimit < (Nat.toDigits 10 n.natAbs).length then
    .longNumber (Nat.toDigits 10 n.natAbs).length
  else .scalar (.int n)

theorem toList_toString_int (n : Int) : (toString n).toList =
    if n < 0 then '-' :: Nat.toDigits 10 n.natAbs else Nat.toDigits 10 n.natAbs := by
  cases n with
  | ofNat m => exact Nat.toList_repr
  | negSucc m =>
    rw [if_pos (Int.negSucc_lt_zero m)]
    show ("-" ++ Nat.repr (m + 1)).toList = _
    rw [String.toList_append, Nat.toList_repr]
    rfl

theorem ofNumber_toDigits (n : Int) :
    Lexeme.ofNumber (if n < 0 then -1 else 1) (Nat.toDigits 10 n.natAbs) = Lexeme.ofInt n := by
  have hvalue : (if n < 0 then -1 else 1) * (n.natAbs : Int) = n := by
    split <;> omega
  rw [Lexeme.ofNumber, Lexeme.ofInt, ofDigits_toDigits, hvalue]

theorem scalar?_minus {ds rest : List Char} (hds : ds ≠ [])
    (h : naturalLength (ds ++ rest) = ds.length) :
    scalar? ('-' :: (ds ++ rest)) = some (.ofNumber (-1) ds, ds.length) := by
  simp [scalar?, h, hds]

theorem scalar?_digit {d : Char} {ds rest : List Char} (hd : d.isDigit = true)
    (h : naturalLength (d :: (ds ++ rest)) = ds.length + 1) :
    scalar? (d :: (ds ++ rest)) = some (.ofNumber 1 (d :: ds), ds.length) := by
  have hne {c : Char} (hc : c.isDigit = false) : d ≠ c := by
    rintro rfl
    rw [hd] at hc
    cases hc
  simp [scalar?, hne (c := 'n') rfl, hne (c := 't') rfl, hne (c := 'f') rfl, hne (c := '-') rfl, h]

theorem NoDigit.takeWhile {cs : List Char} (h : NoDigit cs) (p : Char → Bool) :
    NoDigit (cs.takeWhile p) := by
  cases cs with
  | nil => exact h
  | cons c cs =>
    rw [List.takeWhile_cons]
    split
    · exact h
    · nofun

/-- A number is one lexeme. -/
theorem charLexemes_toString (n : Int) {rest : List Char} (hrest : NoDigit rest) :
    charLexemes ((toString n).toList ++ rest) = Lexeme.ofInt n :: charLexemes rest := by
  have hlength := naturalLength_toDigits n.natAbs (hrest.takeWhile Char.isAlphanum)
  have halnum : ∀ d ∈ Nat.toDigits 10 n.natAbs, d.isAlphanum = true := fun d hd => by
    simp [Char.isAlphanum, isDigit_of_mem_toDigits hd]
  rw [toList_toString_int, ← ofNumber_toDigits n]
  cases hds : Nat.toDigits 10 n.natAbs with
  | nil => exact absurd hds Nat.toDigits_ne_nil
  | cons d ds =>
    rw [hds] at hlength halnum
    have hd : d.isDigit = true := isDigit_of_mem_toDigits (n := n.natAbs) (by simp [hds])
    obtain ⟨hfirst, hothers⟩ := List.forall_mem_cons.1 halnum
    by_cases hn : n < 0
    · rw [if_pos hn, if_pos hn, List.cons_append]
      exact charLexemes_of_scalar? (d :: ds) (.inr rfl) halnum
        (scalar?_minus (List.cons_ne_nil d ds) hlength)
    · rw [if_neg hn, if_neg hn, List.cons_append]
      exact charLexemes_of_scalar? ds (.inl hfirst) hothers (scalar?_digit hd hlength)

/-! ### Whole values -/

mutual

/-- The lexemes of a value in writing. -/
def written : Wire → List Lexeme
  | .null => [.scalar .null]
  | .bool b => [.scalar (.bool b)]
  | .int n => [.ofInt n]
  | .str s => [.text s.joined]
  | .arr [] => [.openList, .closeList]
  | .arr (x :: xs) => .openList :: (written x ++ (writtenItems xs ++ [.closeList]))
  | .obj [] => [.openObject, .closeObject]
  | .obj ((k, x) :: fs) =>
    .openObject :: .text k.joined :: .colon :: (written x ++ (writtenFields fs ++ [.closeObject]))

/-- The lexemes of the items after the first. -/
def writtenItems : List Wire → List Lexeme
  | [] => []
  | x :: xs => .comma :: (written x ++ writtenItems xs)

/-- The lexemes of the fields after the first. -/
def writtenFields : List (Codes × Wire) → List Lexeme
  | [] => []
  | (k, x) :: fs => .comma :: .text k.joined :: .colon :: (written x ++ writtenFields fs)

end

/-- The margin of a layout, if there is one, is blank. -/
def Layout.IsBlank (layout : Layout) : Prop :=
  ∀ margin ∈ layout, ∀ c ∈ margin.toList, isSpace c = true

/-- The layout with a number of spaces as its margin, or on one line. -/
def Layout.spaces (indent : Option Nat) : Layout :=
  indent.map fun n => String.ofList (List.replicate n ' ')

theorem Layout.isBlank_spaces (indent : Option Nat) : (Layout.spaces indent).IsBlank := by
  intro margin hmargin c hc
  obtain ⟨n, -, rfl⟩ := Option.map_eq_some_iff.1 hmargin
  rw [String.toList_ofList] at hc
  rw [(List.mem_replicate.1 hc).2]
  rfl

variable {layout : Layout}

theorem Layout.IsBlank.lineBreak (h : layout.IsBlank) (depth : Nat) :
    ∀ c ∈ layout.lineBreak depth, isSpace c = true := by
  intro c hc
  cases layout with
  | none => cases hc
  | some margin =>
    rcases List.mem_cons.1 hc with rfl | hc
    · rfl
    · obtain ⟨cs, hcs, hc⟩ := List.mem_flatten.1 hc
      rw [(List.mem_replicate.1 hcs).2] at hc
      exact h margin rfl c hc

/-- The characters between two items are a comma and white space. -/
theorem Layout.IsBlank.exists_comma (h : layout.IsBlank) (depth : Nat) :
    ∃ ws, layout.comma depth = ',' :: ws ∧ ∀ c ∈ ws, isSpace c = true := by
  cases layout with
  | none => exact ⟨[' '], rfl, by simp [isSpace]⟩
  | some margin => exact ⟨_, rfl, h.lineBreak depth⟩

theorem charLexemes_lineBreak (h : layout.IsBlank) (depth : Nat) (cs : List Char) :
    charLexemes (layout.lineBreak depth ++ cs) = charLexemes cs :=
  charLexemes_append_of_blank (h.lineBreak depth) cs

theorem charLexemes_comma (h : layout.IsBlank) (depth : Nat) (cs : List Char) :
    charLexemes (layout.comma depth ++ cs) = .comma :: charLexemes cs := by
  obtain ⟨ws, hcomma, hblank⟩ := h.exists_comma depth
  rw [hcomma, List.cons_append, charLexemes_mark rfl, charLexemes_append_of_blank hblank]

theorem NoDigit.cons {c : Char} (hc : c.isDigit = false) (cs : List Char) : NoDigit (c :: cs) := by
  rintro _ ⟨⟩
  exact hc

theorem NoDigit.lineBreak {cs : List Char} (h : NoDigit cs) (depth : Nat) :
    NoDigit (layout.lineBreak depth ++ cs) := by
  cases layout with
  | none => exact h
  | some margin => exact .cons rfl _

theorem NoDigit.comma (depth : Nat) (cs : List Char) : NoDigit (layout.comma depth ++ cs) := by
  cases layout with
  | none => exact .cons rfl _
  | some margin => exact .cons rfl _

theorem NoDigit.itemChars {cs : List Char} (h : NoDigit cs) (depth : Nat) (xs : List Wire) :
    NoDigit (itemChars layout depth xs ++ cs) := by
  cases xs with
  | nil => exact h
  | cons x xs =>
    rw [Json.itemChars, List.append_assoc, List.append_assoc]
    exact .comma depth _

theorem NoDigit.fieldChars {cs : List Char} (h : NoDigit cs) (depth : Nat)
    (fs : List (Codes × Wire)) : NoDigit (fieldChars layout depth fs ++ cs) := by
  match fs with
  | [] => exact h
  | (k, x) :: fs =>
    rw [Json.fieldChars, List.append_assoc, List.append_assoc, List.append_assoc, List.append_assoc]
    exact .comma depth _

theorem charLexemes_null (cs : List Char) :
    charLexemes ("null".toList ++ cs) = .scalar .null :: charLexemes cs :=
  charLexemes_of_scalar? ['u', 'l', 'l'] (.inl rfl) (by simp) (scalar?.eq_1 _)

theorem charLexemes_true (cs : List Char) :
    charLexemes ("true".toList ++ cs) = .scalar (.bool true) :: charLexemes cs :=
  charLexemes_of_scalar? ['r', 'u', 'e'] (.inl rfl) (by simp) (scalar?.eq_2 _)

theorem charLexemes_false (cs : List Char) :
    charLexemes ("false".toList ++ cs) = .scalar (.bool false) :: charLexemes cs :=
  charLexemes_of_scalar? ['a', 'l', 's', 'e'] (.inl rfl) (by simp) (scalar?.eq_3 _)

/-- A name with the colon after it. -/
theorem charLexemes_name (k : Codes) (cs : List Char) :
    charLexemes (quote k ++ ([':', ' '] ++ cs)) = .text k.joined :: .colon :: charLexemes cs := by
  have hblank : ∀ c ∈ [' '], isSpace c = true := by simp [isSpace]
  rw [charLexemes_quote, List.cons_append, charLexemes_mark rfl, charLexemes_append_of_blank hblank]

mutual

/-- The text of a value, followed by anything but a digit, begins with the lexemes of the value. -/
theorem charLexemes_chars (h : layout.IsBlank) (depth : Nat) (x : Wire) {rest : List Char}
    (hrest : NoDigit rest) :
    charLexemes (chars layout depth x ++ rest) = written x ++ charLexemes rest := by
  match x with
  | .null => exact charLexemes_null rest
  | .bool true => exact charLexemes_true rest
  | .bool false => exact charLexemes_false rest
  | .int n => exact charLexemes_toString n hrest
  | .str s => exact charLexemes_quote s rest
  | .arr [] =>
    rw [chars, written, List.cons_append, charLexemes_mark rfl, List.cons_append,
      charLexemes_mark rfl]
    rfl
  | .arr (x :: xs) =>
    have hclose : NoDigit (layout.lineBreak depth ++ ([']'] ++ rest)) :=
      .lineBreak (.cons rfl _) depth
    rw [chars, written]
    simp only [List.append_assoc]
    rw [List.cons_append, charLexemes_mark rfl, charLexemes_lineBreak h,
      charLexemes_chars h _ x (hclose.itemChars _ xs), charLexemes_itemChars h _ xs hclose,
      charLexemes_lineBreak h, List.cons_append, charLexemes_mark rfl]
    simp
  | .obj [] =>
    rw [chars, written, List.cons_append, charLexemes_mark rfl, List.cons_append,
      charLexemes_mark rfl]
    rfl
  | .obj ((k, x) :: fs) =>
    have hclose : NoDigit (layout.lineBreak depth ++ (['}'] ++ rest)) :=
      .lineBreak (.cons rfl _) depth
    rw [chars, written]
    simp only [List.append_assoc]
    rw [List.cons_append, charLexemes_mark rfl, charLexemes_lineBreak h, charLexemes_name,
      charLexemes_chars h _ x (hclose.fieldChars _ fs), charLexemes_fieldChars h _ fs hclose,
      charLexemes_lineBreak h, List.cons_append, charLexemes_mark rfl]
    simp

theorem charLexemes_itemChars (h : layout.IsBlank) (depth : Nat) (xs : List Wire) {rest : List Char}
    (hrest : NoDigit rest) :
    charLexemes (itemChars layout depth xs ++ rest) = writtenItems xs ++ charLexemes rest := by
  match xs with
  | [] => rfl
  | x :: xs =>
    rw [itemChars, writtenItems, List.append_assoc, List.append_assoc, charLexemes_comma h,
      charLexemes_chars h depth x (hrest.itemChars depth xs),
      charLexemes_itemChars h depth xs hrest, List.cons_append, List.append_assoc]

theorem charLexemes_fieldChars (h : layout.IsBlank) (depth : Nat) (fs : List (Codes × Wire))
    {rest : List Char} (hrest : NoDigit rest) :
    charLexemes (fieldChars layout depth fs ++ rest) = writtenFields fs ++ charLexemes rest := by
  match fs with
  | [] => rfl
  | (k, x) :: fs =>
    rw [fieldChars, writtenFields, List.append_assoc, List.append_assoc, List.append_assoc,
      List.append_assoc, charLexemes_comma h, charLexemes_name,
      charLexemes_chars h depth x (hrest.fieldChars depth fs),
      charLexemes_fieldChars h depth fs hrest, List.cons_append, List.cons_append,
      List.cons_append, List.append_assoc]

end

/-- The lexemes of the text of a value are the lexemes of the value. -/
theorem lexemes_text (h : layout.IsBlank) (x : Wire) :
    lexemes (x.text layout) = written x := by
  have hend : NoDigit [] := by simp [NoDigit]
  have hnil : charLexemes [] = [] := by rw [charLexemes, Codes.ofChars_nil, lexemes]
  have hchars := charLexemes_chars h 0 x hend
  rw [List.append_nil, hnil, List.append_nil] at hchars
  rw [Wire.text, Codes.ofString, String.toList_ofList]
  exact hchars

end Json

end PropProver
