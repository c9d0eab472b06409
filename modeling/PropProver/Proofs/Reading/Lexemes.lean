import Mathlib.Data.List.Infix
import Mathlib.Data.List.TakeWhile
import PropProver.Token.Scan

/-!
# Lexemes

A text in front of its full stop is a row of pieces: white space and lexemes (`Piece`). The tokens of
a text are read off its pieces (`tokensAt`), each at the place where the characters of the pieces
before it end. Nothing about this depends on how far the scanner looks ahead: from any place it goes
on piece by piece, as long as it takes the longest piece and no name is too long (`Scans`), until it
comes to the full stop or to a fault (`FaultAt`, `exists_scans`).

So a text is accepted exactly if it has pieces up to a full stop, and it is refused with the fault at
the first place where no piece can be taken (`scan_pieces`).
-/

namespace PropProver.Token

/-! ### Pieces of a text -/

/-- The characters of the lexemes of each kind. -/
inductive Spells : Kind → List Char → Prop where
  /-- An opening bracket. -/
  | openBracket : Spells .openBracket ['(']
  /-- A closing bracket. -/
  | closeBracket : Spells .closeBracket [')']
  /-- The sign of negation. -/
  | not : Spells .not ['!']
  /-- The sign of conjunction. -/
  | and : Spells (.binary .and) ['&']
  /-- The sign of disjunction. -/
  | or : Spells (.binary .or) ['|']
  /-- The arrow of implication. -/
  | imply : Spells (.binary .imply) ['=', '>']
  /-- The arrow of equivalence. -/
  | iff : Spells (.binary .iff) ['<', '=', '>']
  /-- The name of an atom: a capital letter with at most two digits. -/
  | atom {c : Char} {ds : List Char} : c.isUpper = true → (∀ d ∈ ds, d.isDigit = true) →
      ds.length ≤ 2 → Spells .atom (c :: ds)

/-- A piece of a text: white space or a lexeme. -/
inductive Piece where
  /-- A character of white space. -/
  | blank (c : Char) (h : isSpace c = true)
  /-- A lexeme. -/
  | lexeme (kind : Kind) (cs : List Char) (h : Spells kind cs)

/-- The characters of a piece. -/
def Piece.chars : Piece → List Char
  | .blank c _ => [c]
  | .lexeme _ cs _ => cs

/-- The characters of pieces. -/
def spelling (ps : List Piece) : List Char := ps.flatMap Piece.chars

/-- The lexemes among pieces, with their kinds. -/
def lexemes : List Piece → List (Kind × String)
  | [] => []
  | .blank _ _ :: ps => lexemes ps
  | .lexeme kind cs _ :: ps => (kind, .ofList cs) :: lexemes ps

/-- The tokens of pieces that start at a place. -/
def tokensAt (position : Nat) : List Piece → List Token
  | [] => []
  | .blank _ _ :: ps => tokensAt (position + 1) ps
  | .lexeme kind cs _ :: ps =>
    ⟨kind, .ofList cs, position⟩ :: tokensAt (position + cs.length) ps

@[simp] theorem spelling_nil : spelling [] = [] := rfl

@[simp] theorem spelling_cons (p : Piece) (ps : List Piece) :
    spelling (p :: ps) = p.chars ++ spelling ps := rfl

@[simp] theorem spelling_append (ps qs : List Piece) :
    spelling (ps ++ qs) = spelling ps ++ spelling qs := List.flatMap_append

/-- The tokens of the first piece come first. -/
theorem tokensAt_cons (n : Nat) (p : Piece) (ps : List Piece) :
    tokensAt n (p :: ps) = tokensAt n [p] ++ tokensAt (n + p.chars.length) ps := by
  cases p <;> rfl

/-- The tokens of pieces are their lexemes, in order. -/
theorem map_tokensAt (n : Nat) (ps : List Piece) :
    (tokensAt n ps).map (fun t => (t.kind, t.lexeme)) = lexemes ps := by
  induction ps generalizing n with
  | nil => rfl
  | cons p ps ih =>
    cases p <;> simp [tokensAt, lexemes, ih]

/-! ### Characters of pieces -/

theorem ne_of_isUpper {c d : Char} (h : c.isUpper = true) (hd : d.isUpper = false) : c ≠ d := by
  rintro rfl
  rw [h] at hd
  cases hd

theorem not_isSpace_of_isUpper {c : Char} (h : c.isUpper = true) : isSpace c = false := by
  simp [isSpace, ne_of_isUpper h]

theorem not_isDigit_of_isUpper {c : Char} (h : c.isUpper = true) : c.isDigit = false := by
  rw [Bool.eq_false_iff]
  intro hd
  have hupper : 'A'.val ≤ c.val ∧ c.val ≤ 'Z'.val := of_decide_eq_true h
  have hdigit : c.val ≤ '9'.val := of_decide_eq_true (Bool.and_eq_true_iff.1 hd).2
  exact absurd (UInt32.le_trans hupper.1 hdigit) (by decide)

theorem not_isDigit_of_isSpace {c : Char} (h : isSpace c = true) : c.isDigit = false := by
  simp only [isSpace, Bool.or_eq_true, beq_iff_eq] at h
  rcases h with (((rfl | rfl) | rfl) | rfl) | rfl <;> rfl

/-- A lexeme starts with a character that is no white space, no full stop and no digit. -/
theorem Spells.exists_cons {kind : Kind} {cs : List Char} (h : Spells kind cs) :
    ∃ c ds, cs = c :: ds ∧ isSpace c = false ∧ c ≠ '.' ∧ c.isDigit = false := by
  cases h with
  | atom hc _ _ =>
    exact ⟨_, _, rfl, not_isSpace_of_isUpper hc, ne_of_isUpper hc (by decide),
      not_isDigit_of_isUpper hc⟩
  | _ => exact ⟨_, _, rfl, by decide, by decide, by decide⟩

theorem not_mem_dot_name {c : Char} {ds : List Char} (hc : c.isUpper = true)
    (hds : ∀ d ∈ ds, d.isDigit = true) : '.' ∉ c :: ds := by
  intro hmem
  rcases List.mem_cons.1 hmem with rfl | hmem
  · exact absurd hc (by decide)
  · exact absurd (hds _ hmem) (by decide)

theorem Spells.not_mem_dot {kind : Kind} {cs : List Char} (h : Spells kind cs) : '.' ∉ cs := by
  cases h with
  | atom hc hds _ => exact not_mem_dot_name hc hds
  | _ => decide

/-- No piece starts with a digit. -/
theorem Piece.exists_cons (p : Piece) : ∃ c ds, p.chars = c :: ds ∧ c.isDigit = false := by
  cases p with
  | blank c h => exact ⟨c, [], rfl, not_isDigit_of_isSpace h⟩
  | lexeme kind cs h =>
    obtain ⟨c, ds, rfl, -, -, hd⟩ := h.exists_cons
    exact ⟨c, ds, rfl, hd⟩

theorem Piece.chars_ne_nil (p : Piece) : p.chars ≠ [] := by
  obtain ⟨c, ds, h, -⟩ := p.exists_cons
  rw [h]
  exact List.cons_ne_nil c ds

theorem Piece.not_mem_dot (p : Piece) : '.' ∉ p.chars := by
  cases p with
  | blank c h =>
    intro hmem
    rw [Piece.chars, List.mem_singleton] at hmem
    subst hmem
    exact absurd h (by decide)
  | lexeme kind cs h => exact h.not_mem_dot

/-- The full stop is no part of a piece. -/
theorem not_mem_dot (ps : List Piece) : '.' ∉ spelling ps := by
  intro h
  obtain ⟨p, -, hp⟩ := List.mem_flatMap.1 h
  exact p.not_mem_dot hp

/-! ### Names -/

/-- A digit comes next. -/
def StartsWithDigit (cs : List Char) : Prop := ∃ d ds, cs = d :: ds ∧ d.isDigit = true

/-- The digits at the head of a text can be split off. -/
theorem exists_digits (cs : List Char) :
    ∃ ds rest, cs = ds ++ rest ∧ (∀ d ∈ ds, d.isDigit = true) ∧ ¬ StartsWithDigit rest := by
  refine ⟨cs.takeWhile Char.isDigit, cs.dropWhile Char.isDigit,
    List.takeWhile_append_dropWhile.symm, fun d hd => List.mem_takeWhile_imp hd, ?_⟩
  rintro ⟨d, ds, hcs, hd⟩
  have := List.dropWhile_get_zero_not Char.isDigit cs (by simp [hcs])
  simp [hcs, hd] at this

theorem takeWhile_isDigit {ds rest : List Char} (hds : ∀ d ∈ ds, d.isDigit = true)
    (hrest : ¬ StartsWithDigit rest) : (ds ++ rest).takeWhile Char.isDigit = ds := by
  rw [List.takeWhile_append_of_pos hds]
  have hnil : rest.takeWhile Char.isDigit = [] := by
    cases rest with
    | nil => rfl
    | cons d rest =>
      have hd : ¬ d.isDigit = true := fun hd => hrest ⟨d, rest, rfl, hd⟩
      rw [List.takeWhile_cons_of_neg hd]
  rw [hnil, List.append_nil]

theorem lexemeAt?_of_isUpper {c : Char} (h : c.isUpper = true) (cs : List Char) :
    lexemeAt? (c :: cs) = some (.atom, (cs.takeWhile Char.isDigit).length) := by
  unfold lexemeAt?
  split <;> simp_all

/-- The longest lexeme at the head of a text is found. A name is the longest one if no digit
follows. -/
theorem Spells.lexemeAt? {kind : Kind} {cs rest : List Char} (h : Spells kind cs)
    (hrest : kind = .atom → ¬ StartsWithDigit rest) :
    lexemeAt? (cs ++ rest) = some (kind, cs.length - 1) := by
  cases h with
  | @atom c ds hc hds _ =>
    rw [List.cons_append, lexemeAt?_of_isUpper hc, takeWhile_isDigit hds (hrest rfl)]
    rfl
  | _ => rfl

/-- A lexeme at the head of a text is found, or a longer one of its kind. -/
theorem Spells.exists_lexemeAt? {kind : Kind} {cs : List Char} (h : Spells kind cs)
    (rest : List Char) :
    ∃ more, Token.lexemeAt? (cs ++ rest) = some (kind, more) ∧ cs.length ≤ more + 1 := by
  cases h with
  | @atom c ds hc hds _ =>
    refine ⟨_, lexemeAt?_of_isUpper hc (ds ++ rest), ?_⟩
    rw [List.takeWhile_append_of_pos hds, List.length_append, List.length_cons]
    omega
  | _ => exact ⟨_, rfl, Nat.le_refl _⟩

/-- A name with too many digits, and all of them. -/
inductive LongName : List Char → Prop where
  /-- A capital letter with more than two digits. -/
  | mk {c : Char} {ds : List Char} : c.isUpper = true → (∀ d ∈ ds, d.isDigit = true) →
      2 < ds.length → LongName (c :: ds)

theorem LongName.lexemeAt? {cs rest : List Char} (h : LongName cs)
    (hrest : ¬ StartsWithDigit rest) :
    Token.lexemeAt? (cs ++ rest) = some (.atom, cs.length - 1) := by
  cases h with
  | @mk c ds hc hds _ =>
    rw [List.cons_append, lexemeAt?_of_isUpper hc, takeWhile_isDigit hds hrest]
    rfl

/-- What is found at the head of a text is a lexeme or a name with too many digits. A name is taken
with all its digits. -/
theorem lexemeAt?_eq_some {text : List Char} {kind : Kind} {more : Nat}
    (h : lexemeAt? text = some (kind, more)) :
    ∃ cs rest, text = cs ++ rest ∧ cs.length = more + 1 ∧
      (kind = .atom → ¬ StartsWithDigit rest) ∧ (Spells kind cs ∨ kind = .atom ∧ LongName cs) := by
  unfold lexemeAt? at h
  split at h
  · cases h; exact ⟨['('], _, rfl, rfl, nofun, .inl .openBracket⟩
  · cases h; exact ⟨[')'], _, rfl, rfl, nofun, .inl .closeBracket⟩
  · cases h; exact ⟨['!'], _, rfl, rfl, nofun, .inl .not⟩
  · cases h; exact ⟨['&'], _, rfl, rfl, nofun, .inl .and⟩
  · cases h; exact ⟨['|'], _, rfl, rfl, nofun, .inl .or⟩
  · cases h; exact ⟨['=', '>'], _, rfl, rfl, nofun, .inl .imply⟩
  · cases h; exact ⟨['<', '=', '>'], _, rfl, rfl, nofun, .inl .iff⟩
  · next c cs _ _ _ _ _ _ _ =>
    split at h
    · next hc =>
      obtain ⟨ds, rest, rfl, hds, hrest⟩ := exists_digits cs
      rw [takeWhile_isDigit hds hrest] at h
      cases h
      refine ⟨c :: ds, rest, rfl, rfl, fun _ => hrest, ?_⟩
      by_cases hlen : ds.length ≤ 2
      · exact .inl (.atom hc hds hlen)
      · exact .inr ⟨rfl, .mk hc hds (Nat.lt_of_not_le hlen)⟩
    · cases h
  · cases h

/-! ### The way through a text -/

/-- The faults that a text may have where a lexeme should start, each with its place. -/
inductive FaultAt : List Char → Nat → LexicalError → Prop where
  /-- The text is over. -/
  | unterminated (n : Nat) : FaultAt [] n (.unterminated n)
  /-- A name with too many digits starts. -/
  | longName {cs rest : List Char} (n : Nat) : LongName cs → ¬ StartsWithDigit rest →
      FaultAt (cs ++ rest) n (.longName (.ofList cs) n)
  /-- Nothing starts with this beginning of an arrow. -/
  | brokenArrow {c : Char} {cs : List Char} (n : Nat) : (∀ p : Piece, ¬ p.chars <+: c :: cs) →
      c = '<' ∨ c = '=' → FaultAt (c :: cs) n (.brokenArrow c n)
  /-- Nothing starts with this character. -/
  | unexpected {c : Char} {cs : List Char} (n : Nat) : (∀ p : Piece, ¬ p.chars <+: c :: cs) →
      c ≠ '.' → c ≠ '<' → c ≠ '=' → FaultAt (c :: cs) n (.unexpected c n)

/-- From the head of a text one comes to the rest by taking pieces: each is the longest one at its
place, and none starts at a fault. -/
inductive Scans : List Char → List Piece → List Char → Prop where
  /-- No piece is taken. -/
  | here (cs : List Char) : Scans cs [] cs
  /-- A piece is taken first. -/
  | piece (p : Piece) {cs rest : List Char} {ps : List Piece} :
      (∀ q : Piece, q.chars <+: p.chars ++ cs → q.chars.length ≤ p.chars.length) →
      (∀ n e, ¬ FaultAt (p.chars ++ cs) n e) → Scans cs ps rest →
      Scans (p.chars ++ cs) (p :: ps) rest

/-- A name is taken with all its digits; of other pieces there is no more to take. -/
def Piece.Whole : Piece → List Char → Prop
  | .lexeme .atom _ _, cs => ¬ StartsWithDigit cs
  | _, _ => True

theorem Piece.whole_of_longest {p : Piece} {cs : List Char}
    (hlongest : ∀ q : Piece, q.chars <+: p.chars ++ cs → q.chars.length ≤ p.chars.length)
    (hfine : ∀ n e, ¬ FaultAt (p.chars ++ cs) n e) : p.Whole cs := by
  cases p with
  | blank c h => trivial
  | lexeme kind ds h =>
    cases h with
    | @atom c ds hc hds hlen =>
      rintro ⟨d, cs, rfl, hd⟩
      by_cases hlt : ds.length < 2
      · -- the name with the next digit is a longer piece
        have hds' : ∀ e ∈ ds ++ [d], e.isDigit = true :=
          List.forall_mem_append.2 ⟨hds, List.forall_mem_singleton.2 hd⟩
        have hle := hlongest (.lexeme .atom (c :: (ds ++ [d])) (.atom hc hds' (by simp; omega)))
          ⟨cs, by simp [Piece.chars]⟩
        simp only [Piece.chars, List.length_cons, List.length_append, List.length_nil] at hle
        omega
      · -- the name with all its digits is too long
        obtain ⟨es, rest, rfl, hes, hrest⟩ := exists_digits cs
        have hds' : ∀ e ∈ ds ++ d :: es, e.isDigit = true :=
          List.forall_mem_append.2 ⟨hds, List.forall_mem_cons.2 ⟨hd, hes⟩⟩
        have hlong : LongName (c :: (ds ++ d :: es)) := .mk hc hds' (by simp; omega)
        have hfault := FaultAt.longName 0 hlong hrest
        refine hfine 0 (.longName (.ofList (c :: (ds ++ d :: es))) 0) ?_
        simpa [Piece.chars] using hfault
    | _ => trivial

theorem Piece.longest_of_whole {p q : Piece} {cs : List Char} (h : p.Whole cs)
    (hq : q.chars <+: p.chars ++ cs) : q.chars.length ≤ p.chars.length := by
  obtain ⟨rest, hrest⟩ := hq
  cases q with
  | blank c hc => exact List.length_pos_iff.2 p.chars_ne_nil
  | lexeme kind ds hds =>
    cases p with
    | blank c hc =>
      obtain ⟨d, ds, rfl, hd, -⟩ := hds.exists_cons
      obtain ⟨rfl, -⟩ := List.cons.inj hrest
      rw [hc] at hd
      cases hd
    | lexeme kind' es hes =>
      have hw : kind' = .atom → ¬ StartsWithDigit cs := by
        rintro rfl
        exact h
      obtain ⟨more, hmore, hle⟩ := hds.exists_lexemeAt? rest
      change ds ++ rest = es ++ cs at hrest
      rw [hrest, hes.lexemeAt? hw] at hmore
      obtain ⟨-, rfl⟩ := Prod.mk.inj (Option.some.inj hmore)
      have hpos : 0 < es.length := List.length_pos_iff.2 (Piece.lexeme kind' es hes).chars_ne_nil
      show ds.length ≤ es.length
      omega

theorem Piece.not_faultAt_of_whole {p : Piece} {cs : List Char} (h : p.Whole cs) (n : Nat)
    (e : LexicalError) : ¬ FaultAt (p.chars ++ cs) n e := by
  intro hfault
  generalize htext : p.chars ++ cs = text at hfault
  cases hfault with
  | unterminated n => exact p.chars_ne_nil (List.append_eq_nil_iff.1 htext).1
  | @longName ds rest n hlong hrest =>
    have hfound := hlong.lexemeAt? hrest
    rw [← htext] at hfound
    cases p with
    | blank c hc =>
      cases hlong with
      | mk hup _ _ =>
        obtain ⟨rfl, -⟩ := List.cons.inj htext
        rw [not_isSpace_of_isUpper hup] at hc
        cases hc
    | lexeme kind es hes =>
      have hw : kind = .atom → ¬ StartsWithDigit cs := by
        rintro rfl
        exact h
      change Token.lexemeAt? (es ++ cs) = _ at hfound
      rw [hes.lexemeAt? hw] at hfound
      obtain ⟨rfl, hlen⟩ := Prod.mk.inj (Option.some.inj hfound)
      cases hes with
      | atom _ _ hle =>
        cases hlong with
        | mk _ _ hlt =>
          simp only [List.length_cons] at hlen
          omega
  | brokenArrow n hno _ => exact hno p ⟨cs, htext⟩
  | unexpected n hno _ _ _ => exact hno p ⟨cs, htext⟩

/-- A whole piece can be taken. -/
theorem Scans.of_whole {p : Piece} {cs rest : List Char} {ps : List Piece} (h : p.Whole cs)
    (hscans : Scans cs ps rest) : Scans (p.chars ++ cs) (p :: ps) rest :=
  .piece p (fun _ hq => p.longest_of_whole h hq) (p.not_faultAt_of_whole h) hscans

theorem Scans.eq_append {cs rest : List Char} {ps : List Piece} (h : Scans cs ps rest) :
    cs = spelling ps ++ rest := by
  induction h with
  | here cs => rfl
  | piece p _ _ _ ih => rw [spelling_cons, List.append_assoc, ← ih]

/-- Every text can be followed by pieces up to a full stop or a fault. -/
theorem exists_scans (cs : List Char) :
    ∃ ps rest, Scans cs ps rest ∧
      ((∃ after, rest = '.' :: after) ∨ ∀ n, ∃ e, FaultAt rest n e) := by
  induction h : cs.length using Nat.strong_induction_on generalizing cs with
  | _ k ih =>
    subst h
    -- after a whole piece the way goes on
    have next (p : Piece) (rest : List Char) (hw : p.Whole rest) (hcs : cs = p.chars ++ rest) :
        ∃ ps rest, Scans cs ps rest ∧
          ((∃ after, rest = '.' :: after) ∨ ∀ n, ∃ e, FaultAt rest n e) := by
      subst hcs
      have hpos : 0 < p.chars.length := List.length_pos_iff.2 p.chars_ne_nil
      obtain ⟨ps, rest', hscans, hstop⟩ := ih rest.length (by simp; omega) rest rfl
      exact ⟨p :: ps, rest', .of_whole hw hscans, hstop⟩
    -- the way ends here
    have stop (hstop : (∃ after, cs = '.' :: after) ∨ ∀ n, ∃ e, FaultAt cs n e) :
        ∃ ps rest, Scans cs ps rest ∧
          ((∃ after, rest = '.' :: after) ∨ ∀ n, ∃ e, FaultAt rest n e) :=
      ⟨[], cs, .here cs, hstop⟩
    cases cs with
    | nil => exact stop (.inr fun n => ⟨_, .unterminated n⟩)
    | cons c cs =>
      by_cases hdot : c = '.'
      · exact stop (.inl ⟨cs, by rw [hdot]⟩)
      by_cases hspace : isSpace c = true
      · exact next (.blank c hspace) cs trivial rfl
      cases hl : Token.lexemeAt? (c :: cs) with
      | some r =>
        obtain ⟨kind, more⟩ := r
        obtain ⟨ds, rest, htext, -, hrest, hds | ⟨rfl, hlong⟩⟩ := lexemeAt?_eq_some hl
        · refine next (.lexeme kind ds hds) rest ?_ htext
          cases kind <;> first | exact hrest rfl | trivial
        · rw [htext] at stop ⊢
          exact stop (.inr fun n => ⟨_, .longName n hlong (hrest rfl)⟩)
      | none =>
        have hno : ∀ p : Piece, ¬ p.chars <+: c :: cs := by
          rintro p ⟨rest, hp⟩
          cases p with
          | blank d hd =>
            obtain ⟨rfl, -⟩ := List.cons.inj hp
            exact hspace hd
          | lexeme kind ds hds =>
            obtain ⟨more, hmore, -⟩ := hds.exists_lexemeAt? rest
            change ds ++ rest = c :: cs at hp
            rw [hp, hl] at hmore
            cases hmore
        refine stop (.inr fun n => ?_)
        by_cases harrow : c = '<' ∨ c = '='
        · exact ⟨_, .brokenArrow n hno harrow⟩
        · exact ⟨_, .unexpected n hno hdot (fun h => harrow (.inl h)) fun h => harrow (.inr h)⟩

/-! ### What the scanner does on its way -/

theorem scanFrom_dot (n : Nat) (after : List Char) :
    scanFrom n ('.' :: after) = .ok [⟨.closeBracket, ")", n⟩] := by
  rw [scanFrom, if_pos rfl]

/-- The tokens of a piece come before those of the rest. -/
theorem Piece.scanFrom {p : Piece} {cs : List Char} (h : p.Whole cs) (n : Nat) :
    Token.scanFrom n (p.chars ++ cs) =
      (tokensAt n [p] ++ ·) <$> Token.scanFrom (n + p.chars.length) cs := by
  cases p with
  | blank c hc =>
    have hdot : c ≠ '.' := by
      rintro rfl
      exact absurd hc (by decide)
    rw [Piece.chars, List.singleton_append, Token.scanFrom, if_neg hdot, if_pos hc]
    cases Token.scanFrom (n + 1) cs <;> rfl
  | lexeme kind ds hds =>
    have hw : kind = .atom → ¬ StartsWithDigit cs := by
      rintro rfl
      exact h
    have hlen : ¬ (kind = .atom ∧ maxDigits < ds.length - 1) := by
      rintro ⟨rfl, hlt⟩
      cases hds with
      | atom _ _ hle => exact absurd hlt (Nat.not_lt.2 hle)
    have hfound := hds.lexemeAt? hw
    obtain ⟨c, ds, rfl, hspace, hdot, -⟩ := hds.exists_cons
    rw [List.length_cons, Nat.add_sub_cancel] at hfound hlen
    rw [List.cons_append] at hfound
    rw [Piece.chars, List.cons_append, Token.scanFrom, if_neg hdot, hspace]
    simp only [hfound, if_neg hlen, List.take_left, List.drop_left]
    rw [List.length_cons, Nat.add_right_comm, Nat.add_assoc]
    cases Token.scanFrom (n + (ds.length + 1)) cs <;> rfl

theorem Scans.scanFrom {cs rest : List Char} {ps : List Piece} (h : Scans cs ps rest) (n : Nat) :
    Token.scanFrom n cs =
      (tokensAt n ps ++ ·) <$> Token.scanFrom (n + (spelling ps).length) rest := by
  induction h generalizing n with
  | here cs =>
    simp only [tokensAt, List.nil_append, id_map', spelling_nil, List.length_nil, Nat.add_zero]
  | @piece p cs rest ps hlongest hfine _ ih =>
    rw [p.scanFrom (p.whole_of_longest hlongest hfine), ih, Functor.map_map, tokensAt_cons n p ps,
      spelling_cons, List.length_append, Nat.add_assoc]
    simp only [List.append_assoc]

/-- The scanner reports the fault that it comes to. -/
theorem FaultAt.scanFrom {cs : List Char} {n : Nat} {e : LexicalError} (h : FaultAt cs n e) :
    Token.scanFrom n cs = .error e := by
  -- where no piece starts, no lexeme is found
  have none_of_no {c : Char} {cs : List Char} (hno : ∀ p : Piece, ¬ p.chars <+: c :: cs) :
      isSpace c ≠ true ∧ Token.lexemeAt? (c :: cs) = none := by
    refine ⟨fun hspace => hno (.blank c hspace) ⟨cs, rfl⟩, ?_⟩
    cases hl : Token.lexemeAt? (c :: cs) with
    | none => rfl
    | some r =>
      obtain ⟨kind, more⟩ := r
      obtain ⟨ds, rest, htext, -, -, hds | ⟨-, hlong⟩⟩ := lexemeAt?_eq_some hl
      · exact absurd ⟨rest, htext.symm⟩ (hno (.lexeme kind ds hds))
      · cases hlong with
        | @mk c' ds hc _ _ =>
          -- a shorter name starts where a name with too many digits starts
          have hname : Spells .atom [c'] := .atom hc (List.forall_mem_nil _) (Nat.zero_le 2)
          exact absurd ⟨ds ++ rest, htext.symm⟩ (hno (.lexeme .atom [c'] hname))
  cases h with
  | unterminated n => rw [Token.scanFrom]
  | @longName ds rest n hlong hrest =>
    have hfound := hlong.lexemeAt? hrest
    cases hlong with
    | @mk c ds hc _ hlt =>
      have hdot : c ≠ '.' := ne_of_isUpper hc (by decide)
      have hspace : isSpace c ≠ true := Bool.eq_false_iff.1 (not_isSpace_of_isUpper hc)
      rw [List.length_cons, Nat.add_sub_cancel, List.cons_append] at hfound
      rw [List.cons_append, Token.scanFrom, if_neg hdot, if_neg hspace]
      simp only [hfound, List.take_left]
      exact if_pos ⟨trivial, hlt⟩
  | @brokenArrow c cs n hno harrow =>
    obtain ⟨hspace, hnone⟩ := none_of_no hno
    have hdot : c ≠ '.' := by
      rintro rfl
      exact absurd harrow (by decide)
    rw [Token.scanFrom, if_neg hdot, if_neg hspace]
    simp only [hnone, noLexeme, if_pos harrow]
  | @unexpected c cs n hno hdot hless heq =>
    obtain ⟨hspace, hnone⟩ := none_of_no hno
    have harrow : ¬ (c = '<' ∨ c = '=') := fun h => h.elim hless heq
    rw [Token.scanFrom, if_neg hdot, if_neg hspace]
    simp only [hnone, noLexeme, if_neg harrow]

end PropProver.Token
