import PropProver.Proofs.Reading.Lexemes

/-!
# Which texts split into tokens

A text splits into tokens exactly if it has pieces up to a full stop. The tokens then stand where
their characters are, one behind the other, with nothing but white space between them (`LaidOut`),
and between the added brackets. Every other text is refused with the fault that is found first on the
way from piece to piece. What comes after the full stop does not matter (`scanFrom_dot_congr`), and
white space does not matter but for the places of the tokens (`scan_pieces_or_fault`).
-/

namespace PropProver.Token

/-! ### Where the tokens stand -/

/-- Tokens in a text: every token stands at its place, the tokens stand one behind the other, and
what is outside of them is white space. -/
structure LaidOut (text : List Char) (ts : List Token) : Prop where
  /-- A token has the characters of its kind. -/
  spells : ∀ t ∈ ts, Spells t.kind t.lexeme.toList
  /-- The characters of a token are found in the text at its place. -/
  slice : ∀ t ∈ ts, ∃ i : Nat, t.position = i ∧
    (text.drop i).take t.lexeme.length = t.lexeme.toList
  /-- A token starts behind the end of every earlier one. -/
  increasing : ts.Pairwise fun t u =>
    t.position < u.position ∧ t.position + (t.lexeme.length : Int) ≤ u.position
  /-- Every character belongs to a token or is white space. -/
  gaps : ∀ (i : Nat) (h : i < text.length), isSpace text[i] = true ∨
    ∃ t ∈ ts, t.position ≤ i ∧ (i : Int) < t.position + t.lexeme.length

/-- The tokens of pieces are their lexemes, each behind the pieces before it. -/
theorem mem_tokensAt {n : Nat} {ps : List Piece} {t : Token} :
    t ∈ tokensAt n ps ↔ ∃ qs rs kind cs h, ps = qs ++ .lexeme kind cs h :: rs ∧
      t = ⟨kind, .ofList cs, (n + (spelling qs).length : Nat)⟩ := by
  induction ps generalizing n with
  | nil => simp [tokensAt]
  | cons p ps ih =>
    rw [tokensAt_cons, List.mem_append, ih]
    constructor
    · rintro (hp | ⟨qs, rs, kind, cs, h, rfl, rfl⟩)
      · cases p with
        | blank c hc => cases hp
        | lexeme kind cs h =>
          rw [tokensAt, tokensAt, List.mem_singleton] at hp
          exact ⟨[], ps, kind, cs, h, rfl, hp⟩
      · refine ⟨p :: qs, rs, kind, cs, h, rfl, ?_⟩
        rw [spelling_cons, List.length_append, Nat.add_assoc]
    · rintro ⟨qs, rs, kind, cs, h, hps, rfl⟩
      rcases List.cons_eq_append_iff.1 hps with ⟨rfl, hps⟩ | ⟨qs, rfl, rfl⟩
      · obtain ⟨rfl, -⟩ := List.cons.inj hps
        exact .inl List.mem_cons_self
      · refine .inr ⟨qs, rs, kind, cs, h, rfl, ?_⟩
        rw [spelling_cons, List.length_append, Nat.add_assoc]

/-- Every character of pieces belongs to one of them. -/
theorem exists_piece_of_lt {ps : List Piece} {i : Nat} (h : i < (spelling ps).length) :
    ∃ qs p rs, ps = qs ++ p :: rs ∧ (spelling qs).length ≤ i ∧
      i < (spelling qs).length + p.chars.length := by
  induction ps generalizing i with
  | nil => cases h
  | cons p ps ih =>
    rw [spelling_cons, List.length_append] at h
    by_cases hi : i < p.chars.length
    · exact ⟨[], p, ps, rfl, Nat.zero_le i, by simpa using hi⟩
    · obtain ⟨qs, q, rs, rfl, hle, hlt⟩ := ih (i := i - p.chars.length) (by omega)
      refine ⟨p :: qs, q, rs, rfl, ?_, ?_⟩ <;> rw [spelling_cons, List.length_append] <;> omega

theorem pairwise_tokensAt (n : Nat) (ps : List Piece) :
    (tokensAt n ps).Pairwise fun t u =>
      t.position < u.position ∧ t.position + (t.lexeme.length : Int) ≤ u.position := by
  induction ps generalizing n with
  | nil => exact .nil
  | cons p ps ih =>
    cases p with
    | blank c hc => exact ih _
    | lexeme kind cs h =>
      refine List.pairwise_cons.2 ⟨fun t ht => ?_, ih _⟩
      obtain ⟨qs, rs, kind', ds, h', rfl, rfl⟩ := mem_tokensAt.1 ht
      have hpos : 0 < cs.length := List.length_pos_iff.2 (Piece.lexeme kind cs h).chars_ne_nil
      simp only [String.length_ofList]
      omega

/-- The tokens of pieces are laid out in the characters of the pieces. -/
theorem laidOut_tokensAt (ps : List Piece) : LaidOut (spelling ps) (tokensAt 0 ps) where
  spells t ht := by
    obtain ⟨qs, rs, kind, cs, h, rfl, rfl⟩ := mem_tokensAt.1 ht
    simpa using h
  slice t ht := by
    obtain ⟨qs, rs, kind, cs, h, rfl, rfl⟩ := mem_tokensAt.1 ht
    refine ⟨_, rfl, ?_⟩
    simp [Piece.chars]
  increasing := pairwise_tokensAt 0 ps
  gaps i hi := by
    obtain ⟨qs, p, rs, rfl, hle, hlt⟩ := exists_piece_of_lt hi
    cases p with
    | blank c hc =>
      refine .inl ?_
      have : i = (spelling qs).length := by
        rw [Piece.chars, List.length_singleton] at hlt
        omega
      subst this
      simpa [Piece.chars] using hc
    | lexeme kind cs h =>
      refine .inr ⟨_, mem_tokensAt.2 ⟨qs, rs, kind, cs, h, rfl, rfl⟩, ?_, ?_⟩
      · simp only [Nat.zero_add]
        omega
      · rw [Piece.chars] at hlt
        simp only [Nat.zero_add, String.length_ofList]
        omega

/-! ### Up to the full stop -/

theorem not_startsWithDigit_cons {c : Char} (h : c.isDigit = false) (cs : List Char) :
    ¬ StartsWithDigit (c :: cs) := by
  rintro ⟨d, ds, hcs, hd⟩
  obtain ⟨rfl, -⟩ := List.cons.inj hcs
  rw [h] at hd
  cases hd

theorem not_startsWithDigit_spelling (ps : List Piece) {rest : List Char}
    (h : ¬ StartsWithDigit rest) : ¬ StartsWithDigit (spelling ps ++ rest) := by
  cases ps with
  | nil => exact h
  | cons p ps =>
    obtain ⟨c, ds, hp, hc⟩ := p.exists_cons
    rw [spelling_cons, hp]
    exact not_startsWithDigit_cons hc _

/-- In front of anything but a digit, pieces are taken as they are. -/
theorem scans_spelling (ps : List Piece) {rest : List Char} (h : ¬ StartsWithDigit rest) :
    Scans (spelling ps ++ rest) ps rest := by
  induction ps with
  | nil => exact .here rest
  | cons p ps ih =>
    rw [spelling_cons, List.append_assoc]
    refine .of_whole ?_ ih
    have hnext := not_startsWithDigit_spelling ps h
    unfold Piece.Whole
    split
    · exact hnext
    · trivial

/-- The tokens of a text that has these pieces in front of its full stop, between the added
brackets. -/
def tokensOf (ps : List Piece) : List Token :=
  ⟨.openBracket, "(", 0⟩ :: (tokensAt 0 ps ++ [⟨.closeBracket, ")", (spelling ps).length⟩])

theorem scan_eq_map (text : String) :
    scan text = (⟨.openBracket, "(", 0⟩ :: ·) <$> scanFrom 0 text.toList := by
  rw [scan]
  cases scanFrom 0 text.toList <;> rfl

theorem scan_of_scans_dot {text : String} {ps : List Piece} {after : List Char}
    (h : Scans text.toList ps ('.' :: after)) : scan text = .ok (tokensOf ps) := by
  rw [scan_eq_map, h.scanFrom, scanFrom_dot, Nat.zero_add]
  rfl

theorem scan_of_faultAt {text : String} {ps : List Piece} {rest : List Char} {e : LexicalError}
    (h : Scans text.toList ps rest) (he : FaultAt rest (spelling ps).length e) :
    scan text = .error e := by
  rw [scan_eq_map, h.scanFrom, Nat.zero_add, he.scanFrom]
  rfl

/-- A text splits into the tokens of its pieces up to the full stop. -/
theorem scan_of_spelling {text : String} {ps : List Piece} {after : List Char}
    (h : text.toList = spelling ps ++ '.' :: after) : scan text = .ok (tokensOf ps) := by
  have hscans : Scans text.toList ps ('.' :: after) := by
    rw [h]
    exact scans_spelling ps (not_startsWithDigit_cons (by decide) after)
  exact scan_of_scans_dot hscans

theorem scan_eq_ok_iff {text : String} {ts : List Token} :
    scan text = .ok ts ↔
      ∃ ps after, text.toList = spelling ps ++ '.' :: after ∧ ts = tokensOf ps := by
  constructor
  · intro h
    obtain ⟨ps, rest, hscans, ⟨after, rfl⟩ | hfault⟩ := exists_scans text.toList
    · rw [scan_of_scans_dot hscans] at h
      cases h
      exact ⟨ps, after, hscans.eq_append, rfl⟩
    · obtain ⟨e, he⟩ := hfault (spelling ps).length
      rw [scan_of_faultAt hscans he] at h
      cases h
  · rintro ⟨ps, after, htext, rfl⟩
    exact scan_of_spelling htext

theorem scan_eq_error_iff {text : String} {e : LexicalError} :
    scan text = .error e ↔
      ∃ ps rest, Scans text.toList ps rest ∧ FaultAt rest (spelling ps).length e := by
  constructor
  · intro h
    obtain ⟨ps, rest, hscans, ⟨after, rfl⟩ | hfault⟩ := exists_scans text.toList
    · rw [scan_of_scans_dot hscans] at h
      cases h
    · obtain ⟨e', he⟩ := hfault (spelling ps).length
      rw [scan_of_faultAt hscans he] at h
      cases h
      exact ⟨ps, rest, hscans, he⟩
  · rintro ⟨ps, rest, hscans, he⟩
    exact scan_of_faultAt hscans he

/-! ### Behind the full stop -/

/-- What lies in front of a full stop that it does not contain. -/
theorem exists_append_of_not_mem_dot {xs ys before after : List Char}
    (h : xs ++ ys = before ++ '.' :: after) (hx : '.' ∉ xs) :
    ∃ r, before = xs ++ r ∧ ys = r ++ '.' :: after := by
  rcases List.append_eq_append_iff.1 h with ⟨r, hbefore, hys⟩ | ⟨r, hxs, hdot⟩
  · exact ⟨r, hbefore, hys⟩
  · rcases List.cons_eq_append_iff.1 hdot with ⟨rfl, rfl⟩ | ⟨r, rfl, -⟩
    · exact ⟨[], by simpa using hxs.symm, rfl⟩
    · exact absurd (hxs ▸ List.mem_append_right _ List.mem_cons_self) hx

theorem Piece.isPrefix_append {p : Piece} {cs after : List Char}
    (h : p.chars <+: cs ++ '.' :: after) (rest : List Char) : p.chars <+: cs ++ rest := by
  obtain ⟨ys, hys⟩ := h
  obtain ⟨r, rfl, -⟩ := exists_append_of_not_mem_dot hys p.not_mem_dot
  exact ⟨r ++ rest, by rw [List.append_assoc]⟩

theorem startsWithDigit_append {xs ys zs : List Char}
    (h : StartsWithDigit zs → StartsWithDigit ys) (hz : StartsWithDigit (xs ++ zs)) :
    StartsWithDigit (xs ++ ys) := by
  cases xs with
  | nil => exact h hz
  | cons x xs =>
    obtain ⟨d, ds, hcs, hd⟩ := hz
    obtain ⟨rfl, -⟩ := List.cons.inj hcs
    exact ⟨x, xs ++ ys, rfl, hd⟩

/-- A full stop at the same place stops the digits of a name in the same way. -/
theorem startsWithDigit_dot {cs after after' : List Char}
    (h : StartsWithDigit (cs ++ '.' :: after)) : StartsWithDigit (cs ++ '.' :: after') :=
  startsWithDigit_append (fun hdot => absurd hdot (not_startsWithDigit_cons (by decide) _)) h

/-- The way to the rest of a text is the same for another rest that brings in no digit. -/
theorem Scans.congr {cs rest rest' : List Char} {ps : List Piece} (h : Scans cs ps rest)
    (hrest : StartsWithDigit rest' → StartsWithDigit rest) :
    Scans (spelling ps ++ rest') ps rest' := by
  induction h with
  | here cs => exact .here rest'
  | @piece p cs rest ps hlongest hfine hscans ih =>
    rw [spelling_cons, List.append_assoc]
    refine .of_whole ?_ (ih hrest)
    have hwhole := p.whole_of_longest hlongest hfine
    rw [hscans.eq_append] at hwhole
    unfold Piece.Whole at hwhole ⊢
    split at hwhole
    · exact fun hd => hwhole (startsWithDigit_append hrest hd)
    · trivial

theorem FaultAt.congr_dot {cs after : List Char} {n : Nat} {e : LexicalError}
    (h : FaultAt (cs ++ '.' :: after) n e) (after' : List Char) :
    FaultAt (cs ++ '.' :: after') n e := by
  generalize htext : cs ++ '.' :: after = text at h
  cases h with
  | unterminated n => simp at htext
  | @longName ds rest n hlong hrest =>
    have hdot : '.' ∉ ds := by
      cases hlong with
      | mk hc hds _ => exact not_mem_dot_name hc hds
    obtain ⟨r, rfl, rfl⟩ := exists_append_of_not_mem_dot htext.symm hdot
    rw [List.append_assoc]
    exact .longName n hlong fun hd => hrest (startsWithDigit_dot hd)
  | @brokenArrow c ds n hno harrow =>
    have hdot : '.' ∉ [c] := by
      rw [List.mem_singleton]
      rintro rfl
      exact absurd harrow (by decide)
    have hsplit : [c] ++ ds = _ := htext.symm
    obtain ⟨r, rfl, rfl⟩ := exists_append_of_not_mem_dot hsplit hdot
    refine .brokenArrow n (fun p hp => hno p ?_) harrow
    exact p.isPrefix_append (show _ <+: (c :: r) ++ _ from hp) _
  | @unexpected c ds n hno hc hless heq =>
    have hdot : '.' ∉ [c] := by
      rw [List.mem_singleton]
      exact hc.symm
    have hsplit : [c] ++ ds = _ := htext.symm
    obtain ⟨r, rfl, rfl⟩ := exists_append_of_not_mem_dot hsplit hdot
    refine .unexpected n (fun p hp => hno p ?_) hc hless heq
    exact p.isPrefix_append (show _ <+: (c :: r) ++ _ from hp) _

/-- What comes after a full stop is not looked at. -/
theorem scanFrom_dot_congr (n : Nat) (before after after' : List Char) :
    scanFrom n (before ++ '.' :: after) = scanFrom n (before ++ '.' :: after') := by
  obtain ⟨ps, rest, hscans, hstop⟩ := exists_scans (before ++ '.' :: after)
  obtain ⟨r, rfl, rfl⟩ := exists_append_of_not_mem_dot hscans.eq_append.symm (not_mem_dot ps)
  have hscans' : Scans (spelling ps ++ (r ++ '.' :: after')) ps (r ++ '.' :: after') :=
    hscans.congr startsWithDigit_dot
  rw [← List.append_assoc] at hscans'
  rw [hscans.scanFrom, hscans'.scanFrom]
  congr 1
  rcases hstop with ⟨after₁, hdot⟩ | hfault
  · cases r with
    | nil => rw [List.nil_append, List.nil_append, scanFrom_dot, scanFrom_dot]
    | cons c r =>
      obtain ⟨rfl, -⟩ := List.cons.inj hdot
      rw [List.cons_append, List.cons_append, scanFrom_dot, scanFrom_dot]
  · obtain ⟨e, he⟩ := hfault (n + (spelling ps).length)
    rw [he.scanFrom, (he.congr_dot after').scanFrom]

/-- **Scanning**: a text splits into tokens exactly if it has pieces, white space and lexemes, up to
a full stop. This is the first one of the text, and the tokens are the added brackets and between
them one token for each lexeme, laid out where their characters stand. Every other text is refused
with the fault to which the way from its head leads, piece by piece; at its end, if there is no other
fault. Nothing after a full stop makes a difference, and white space between the same lexemes makes
none but for the places of the tokens. -/
theorem scan_pieces_or_fault :
    (∀ (text : String) (ts : List Token), scan text = .ok ts ↔
      ∃ ps after, text.toList = spelling ps ++ '.' :: after ∧ ts = tokensOf ps) ∧
    (∀ ps : List Piece, '.' ∉ spelling ps ∧ LaidOut (spelling ps) (tokensAt 0 ps) ∧
      (tokensAt 0 ps).map (fun t => (t.kind, t.lexeme)) = lexemes ps) ∧
    (∀ (text : String) (e : LexicalError), scan text = .error e ↔
      ∃ ps rest, Scans text.toList ps rest ∧ FaultAt rest (spelling ps).length e) ∧
    (∀ before after after' : String,
      scan (before ++ "." ++ after) = scan (before ++ "." ++ after')) ∧
    ∀ (ps qs : List Piece) (after after' : List Char), lexemes ps = lexemes qs →
      ∃ ts us, scan (.ofList (spelling ps ++ '.' :: after)) = .ok ts ∧
        scan (.ofList (spelling qs ++ '.' :: after')) = .ok us ∧
        ts.map (fun t => (t.kind, t.lexeme)) = us.map (fun t => (t.kind, t.lexeme)) := by
  refine ⟨fun text ts => scan_eq_ok_iff, fun ps => ?_, fun text e => scan_eq_error_iff, ?_, ?_⟩
  · exact ⟨not_mem_dot ps, laidOut_tokensAt ps, map_tokensAt 0 ps⟩
  · intro before after after'
    simp only [scan_eq_map, String.toList_append, List.append_assoc]
    exact congrArg _ (scanFrom_dot_congr 0 before.toList after.toList after'.toList)
  · intro ps qs after after' h
    refine ⟨tokensOf ps, tokensOf qs, scan_of_spelling String.toList_ofList,
      scan_of_spelling String.toList_ofList, ?_⟩
    simp only [tokensOf, List.map_cons, List.map_append, map_tokensAt, h, List.map_nil]

-- A name is taken with all its digits before they are counted.
example : scan "P & Q123." = .error (.longName "Q123" 4) := by
  cbv

end PropProver.Token
