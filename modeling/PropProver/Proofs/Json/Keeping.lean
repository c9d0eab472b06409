import PropProver.Json.Reader
import Mathlib.Algebra.Ring.Nat
import Mathlib.Data.List.Induction
import Mathlib.Data.List.Nodup

/-!
# What holds of everything that is read

The reader puts values together from words, numbers and texts. A property that these have, and that
passes from the parts to a whole (`Builder.Keeps`), therefore holds of everything that is read, from
whatever text: every step of the reader preserves it on what was read so far (`Reader.All.step`).
Two things can be relied on besides: a number has no more digits than are read, and no name occurs
twice in an object.

The texts in a document may be of a certain kind. If there are no halves in the document itself,
then no text in it has a pair of halves, since pairs that are given by numbers are put together
(`Piece.unpaired_text`).
-/

namespace PropProver

universe u

/-! ### Fields without repetition -/

namespace Fields

variable {κ : Type} {α : Type u}

/-- The names in order. -/
def names (fs : Fields α κ) : List κ := fs.map Prod.fst

theorem names_cons (f : κ × α) (fs : Fields α κ) : names (f :: fs) = f.1 :: names fs := rfl

theorem names_append (fs gs : Fields α κ) : names (fs ++ gs) = names fs ++ names gs :=
  List.map_append

variable [DecidableEq κ]

theorem mem_of_get? {fs : Fields α κ} {k : κ} {v : α} (h : fs.get? k = some v) :
    (k, v) ∈ fs := by
  obtain ⟨before, after, rfl, -⟩ := List.lookup_eq_some_iff.1 h
  exact List.mem_append_right _ List.mem_cons_self

theorem names_put (fs : Fields α κ) (k : κ) (v : α) :
    names (fs.put k v) = if k ∈ names fs then names fs else names fs ++ [k] := by
  induction fs with
  | nil => rfl
  | cons f fs ih =>
    obtain ⟨n, w⟩ := f
    rw [put, names_cons]
    by_cases h : n = k
    · rw [if_pos h, if_pos (h ▸ List.mem_cons_self), names_cons]
    · rw [if_neg h, names_cons, ih]
      by_cases hmem : k ∈ names fs
      · rw [if_pos hmem, if_pos (List.mem_cons_of_mem _ hmem)]
      · have hcons : k ∉ n :: names fs := fun hk =>
          hmem (List.mem_of_ne_of_mem (Ne.symm h) hk)
        rw [if_neg hmem, if_neg hcons]
        rfl

theorem nodup_put {fs : Fields α κ} (h : (names fs).Nodup) (k : κ) (v : α) :
    (names (fs.put k v)).Nodup := by
  rw [names_put]
  split
  · exact h
  · next hmem => exact List.Nodup.append h (List.nodup_singleton k) (by simpa using hmem)

theorem mem_put {fs : Fields α κ} {k : κ} {v : α} {f : κ × α} (h : f ∈ fs.put k v) :
    f ∈ fs ∨ f = (k, v) := by
  induction fs with
  | nil => exact .inr (List.mem_singleton.1 h)
  | cons g fs ih =>
    obtain ⟨n, w⟩ := g
    unfold put at h
    by_cases hn : n = k
    · rw [if_pos hn, hn] at h
      rcases List.mem_cons.1 h with h | h
      · exact .inr h
      · exact .inl (List.mem_cons_of_mem _ h)
    · rw [if_neg hn] at h
      rcases List.mem_cons.1 h with h | h
      · exact .inl (h ▸ List.mem_cons_self)
      · exact (ih h).imp_left (List.mem_cons_of_mem _)

/-- A new name is put at the end. -/
theorem put_of_notMem {fs : Fields α κ} {k : κ} (h : k ∉ names fs) (v : α) :
    fs.put k v = fs ++ [(k, v)] := by
  induction fs with
  | nil => rfl
  | cons f fs ih =>
    obtain ⟨n, w⟩ := f
    have hne : ¬n = k := fun heq => h (heq ▸ List.mem_cons_self)
    rw [put, if_neg hne, ih fun hmem => h (List.mem_cons_of_mem _ hmem)]
    rfl

theorem ofPairs_append (ps qs : List (κ × α)) :
    ofPairs (ps ++ qs) = qs.foldl (fun fs (k, v) => fs.put k v) (ofPairs ps) :=
  List.foldl_append

theorem nodup_ofPairs (ps : List (κ × α)) : (names (ofPairs ps)).Nodup := by
  induction ps using List.reverseRecOn with
  | nil => exact List.nodup_nil
  | append_singleton ps p ih =>
    rw [ofPairs_append]
    exact nodup_put ih p.1 p.2

theorem mem_ofPairs {ps : List (κ × α)} {f : κ × α} (h : f ∈ ofPairs ps) : f ∈ ps := by
  induction ps using List.reverseRecOn with
  | nil => cases h
  | append_singleton ps p ih =>
    rw [ofPairs_append] at h
    rcases mem_put h with h | h
    · exact List.mem_append_left _ (ih h)
    · exact List.mem_append_right _ (List.mem_singleton.2 h)

/-- Pairs with different names are fields as they are. -/
theorem ofPairs_of_nodup {ps : List (κ × α)} (h : (names ps).Nodup) : ofPairs ps = ps := by
  induction ps using List.reverseRecOn with
  | nil => rfl
  | append_singleton ps p ih =>
    rw [names_append, List.nodup_append] at h
    rw [ofPairs_append, ih h.1]
    exact put_of_notMem (fun hmem => h.2.2 p.1 hmem p.1 (List.mem_singleton_self _) rfl) p.2

end Fields

namespace Json

/-! ### Words and numbers -/

/-- A word, or a number with no more digits than are read. -/
inductive Scalar.IsShort : Scalar → Prop where
  | null : IsShort .null
  | bool (b : Bool) : IsShort (.bool b)
  | int {n : Int} (h : n.natAbs < 10 ^ Text.digitLimit) : IsShort (.int n)

/-- A lexeme holds a word, a number with few enough digits, or a text of a certain kind. -/
def Lexeme.Holds (Text : Codes → Prop) : Lexeme → Prop
  | .scalar x => x.IsShort
  | .text s => Text s
  | _ => True

theorem ofDigits_lt {ds : List Char} (h : ∀ d ∈ ds, d.isDigit = true) :
    ofDigits ds < 10 ^ ds.length := by
  induction ds using List.reverseRecOn with
  | nil => exact Nat.one_pos
  | append_singleton ds d ih =>
    have hds := ih fun c hc => h c (List.mem_append_left _ hc)
    have hd := Char.isDigit_iff_toNat.1 (h d (List.mem_append_right _ (List.mem_singleton_self d)))
    have hvalue : ofDigits (ds ++ [d]) = 10 * ofDigits ds + (d.toNat - '0'.toNat) :=
      List.foldl_append
    have hnine : d.toNat - '0'.toNat ≤ 9 := Nat.sub_le_sub_right hd.2 '0'.toNat
    rw [hvalue, List.length_append, List.length_singleton, Nat.pow_succ]
    omega

theorem isDigit_of_mem_takeWhile {cs : List Char} {c : Char}
    (h : c ∈ cs.takeWhile Char.isDigit) : c.isDigit = true := by
  have hall := List.all_takeWhile (p := Char.isDigit) (l := cs)
  exact List.all_eq_true.1 hall c h

/-- The characters of a natural number at the head of a text are digits. -/
theorem isDigit_of_mem_natural {cs : List Char} {c : Char}
    (h : c ∈ cs.take (naturalLength cs)) : c.isDigit = true := by
  unfold naturalLength at h
  split at h
  · rw [List.mem_singleton.1 h]
    rfl
  · rw [← List.prefix_iff_eq_take.1 (List.takeWhile_prefix Char.isDigit)] at h
    exact isDigit_of_mem_takeWhile h

theorem Lexeme.holds_ofNumber {Text : Codes → Prop} {sign : Int} (hsign : sign.natAbs = 1)
    {ds : List Char} (h : ∀ d ∈ ds, d.isDigit = true) : (Lexeme.ofNumber sign ds).Holds Text := by
  unfold Lexeme.ofNumber
  split
  · trivial
  · next hlimit =>
    refine .int ?_
    rw [Int.natAbs_mul, hsign, Nat.one_mul, Int.natAbs_natCast]
    have hle := Nat.pow_le_pow_right (n := 10) (by decide) (Nat.not_lt.1 hlimit)
    exact Nat.lt_of_lt_of_le (ofDigits_lt h) hle

theorem holds_of_scalar? {Text : Codes → Prop} {cs : List Char} {l : Lexeme} {more : Nat}
    (h : scalar? cs = some (l, more)) : l.Holds Text := by
  unfold scalar? at h
  split at h
  · cases h
    exact .null
  · cases h
    exact .bool true
  · cases h
    exact .bool false
  · dsimp only at h
    split at h
    · cases h
    · cases h
      exact Lexeme.holds_ofNumber rfl fun d => isDigit_of_mem_natural
  · dsimp only at h
    split at h
    · cases h
    · cases h
      exact Lexeme.holds_ofNumber rfl fun d => isDigit_of_mem_natural

/-! ### Texts -/

/-- What comes behind the closing quote is the end of the document. -/
theorem isSuffix_of_pieces? {cs rest : Codes} {ps : List Piece}
    (h : pieces? cs = some (ps, rest)) : rest <:+ cs := by
  fun_induction pieces? cs generalizing ps with
  | case1 => cases h
  | case2 cs =>
    cases h
    exact List.suffix_cons _ _
  | case3 a b c d cs ih =>
    simp only [Option.bind_eq_bind, Option.bind_eq_some_iff] at h
    obtain ⟨n, _, ⟨ps', rest'⟩, hp, he⟩ := h
    cases he
    exact (ih hp).trans ⟨[.char '\\', .char 'u', a, b, c, d], rfl⟩
  | case4 c cs _ ih =>
    simp only [Option.bind_eq_bind, Option.bind_eq_some_iff] at h
    obtain ⟨n, _, ⟨ps', rest'⟩, hp, he⟩ := h
    cases he
    exact (ih hp).trans ⟨[.char '\\', c], rfl⟩
  | case5 => cases h
  | case6 c cs _ _ _ _ ih =>
    simp only [Option.bind_eq_bind, Option.bind_eq_some_iff] at h
    obtain ⟨⟨ps', rest'⟩, hp, he⟩ := h
    cases he
    exact (ih hp).trans (List.suffix_cons _ _)

/-- What stands for itself between quotes is a code of the document, or given by a letter. -/
theorem mem_of_plain_mem {cs rest : Codes} {ps : List Piece} (h : pieces? cs = some (ps, rest))
    {c : Code} (hc : .plain c ∈ ps) : c ∈ cs ∨ ∃ e, c = .char e := by
  fun_induction pieces? cs generalizing ps with
  | case1 => cases h
  | case2 cs =>
    cases h
    cases hc
  | case3 _ _ _ _ cs ih =>
    simp only [Option.bind_eq_bind, Option.bind_eq_some_iff] at h
    obtain ⟨n, _, ⟨ps', rest'⟩, hp, he⟩ := h
    cases he
    have hps' := List.mem_of_ne_of_mem (by simp) hc
    exact (ih hp hps').imp_left fun hmem => by simp [hmem]
  | case4 d cs _ ih =>
    simp only [Option.bind_eq_bind, Option.bind_eq_some_iff] at h
    obtain ⟨e, _, ⟨ps', rest'⟩, hp, he⟩ := h
    cases he
    rcases List.mem_cons.1 hc with heq | hc
    · exact .inr ⟨e, Piece.plain.inj heq⟩
    · exact (ih hp hc).imp_left fun hmem => by simp [hmem]
  | case5 => cases h
  | case6 d cs _ _ _ _ ih =>
    simp only [Option.bind_eq_bind, Option.bind_eq_some_iff] at h
    obtain ⟨⟨ps', rest'⟩, hp, he⟩ := h
    cases he
    rcases List.mem_cons.1 hc with heq | hc
    · exact .inl (Piece.plain.inj heq ▸ List.mem_cons_self)
    · exact (ih hp hc).imp_left (List.mem_cons_of_mem _)

/-- A text that begins with a low half begins with the number of one, unless a low half stands for
itself. -/
theorem Piece.exists_low {ps : List Piece} (h : ∀ c, .plain c ∈ ps → ∃ a, c = .char a)
    {n : Fin 0x400} {cs : Codes} (htext : Piece.text ps = .low n :: cs) :
    ∃ qs, ps = .numbered (.low n) :: qs := by
  fun_induction Piece.text ps with
  | case1 => cases htext
  | case2 => cases htext
  | case3 c qs _ _ =>
    cases htext
    exact ⟨qs, rfl⟩
  | case4 c qs _ =>
    obtain ⟨a, rfl⟩ := h c List.mem_cons_self
    cases htext

/-- Numbered halves are put together, so that a text has no pair unless a half stands for itself. -/
theorem Piece.unpaired_text {ps : List Piece} (h : ∀ c, .plain c ∈ ps → ∃ a, c = .char a) :
    (Piece.text ps).Unpaired := by
  fun_induction Piece.text ps with
  | case1 => exact Codes.unpaired_nil
  | case2 m n ps ih =>
    have hps := ih fun c hc => h c (List.mem_cons_of_mem _ (List.mem_cons_of_mem _ hc))
    exact Codes.unpaired_cons_iff.2 ⟨nofun, hps⟩
  | case3 c ps hpair ih =>
    have hps := fun c hc => h c (List.mem_cons_of_mem _ hc)
    refine Codes.unpaired_cons_iff.2 ⟨?_, ih hps⟩
    rintro m n cs rfl htext
    obtain ⟨qs, rfl⟩ := Piece.exists_low hps htext
    exact hpair m n qs rfl rfl
  | case4 c ps ih =>
    obtain ⟨a, rfl⟩ := h c List.mem_cons_self
    exact Codes.unpaired_cons_iff.2 ⟨nofun, ih fun c hc => h c (List.mem_cons_of_mem _ hc)⟩

/-- The lexemes of a document hold texts of a certain kind if its quotes do. -/
theorem holds_of_mem_lexemes {Text : Codes → Prop} {cs : Codes}
    (h : ∀ ds ps rest, ds <:+ cs → pieces? ds = some (ps, rest) → Text (Piece.text ps)) :
    ∀ l ∈ lexemes cs, l.Holds Text := by
  have hcons {l : Lexeme} {ls : List Lexeme} (hl : l.Holds Text)
      (ih : ∀ m ∈ ls, m.Holds Text) : ∀ m ∈ l :: ls, m.Holds Text :=
    List.forall_mem_cons.2 ⟨hl, ih⟩
  have hnil : ∀ m ∈ ([] : List Lexeme), m.Holds Text := fun _ hm => nomatch hm
  have htail {c : Code} {ds cs : Codes} (hds : ds <:+ cs) : ds <:+ c :: cs :=
    hds.trans (List.suffix_cons c cs)
  fun_induction lexemes cs with
  | case1 => exact hnil
  | case2 _ _ _ ih => exact ih fun ds ps rest hds => h ds ps rest (htail hds)
  -- marks
  | case3 | case4 | case5 | case6 | case7 | case8 =>
    rename_i ih
    exact hcons trivial (ih fun ds ps rest hds => h ds ps rest (htail hds))
  -- flaws
  | case9 | case11 | case13 => exact hcons trivial hnil
  -- texts
  | case10 cs ps rest hps _ _ _ _ _ _ _ ih =>
    refine hcons (h cs ps rest (List.suffix_cons _ _) hps) (ih fun ds ps' rest' hds => ?_)
    exact h ds ps' rest' (htail (hds.trans (isSuffix_of_pieces? hps)))
  | case12 c cs _ _ _ _ _ _ _ _ l more hscalar ih =>
    refine hcons (holds_of_scalar? hscalar) (ih fun ds ps rest hds => ?_)
    exact h ds ps rest (htail (hds.trans (List.drop_suffix more cs)))

/-- No lexeme of a string holds a text with a pair of halves. -/
theorem unpaired_of_mem_lexemes (s : String) : ∀ l ∈ lexemes s, l.Holds Codes.Unpaired := by
  refine holds_of_mem_lexemes fun ds ps rest hds hps => Piece.unpaired_text fun c hc => ?_
  rcases mem_of_plain_mem hps hc with hmem | hchar
  · obtain ⟨a, -, rfl⟩ := List.mem_map.1 (hds.subset hmem)
    exact ⟨a, rfl⟩
  · exact hchar

/-! ### The reader -/

variable {ε : Type} {α : Type u}

/-- A property of what is built that passes from the parts of a value to the value, as long as texts
and names are of a certain kind. -/
structure Builder.Keeps (b : Builder ε α) (Text : Codes → Prop) (P : α → Prop) : Prop where
  /-- Words and numbers have it. -/
  scalar : ∀ x, x.IsShort → P (b.scalar x)
  /-- Texts of the kind have it. -/
  text : ∀ s, Text s → P (b.text s)
  /-- Lists have it if their items do. -/
  list : ∀ xs, (∀ x ∈ xs, P x) → P (b.list xs)
  /-- Objects have it if they are accepted and their fields do. -/
  object : ∀ fs x, (Fields.names fs).Nodup → (∀ f ∈ fs, Text f.1 ∧ P f.2) →
    b.object fs = .ok x → P x

/-- What was read of an open container has a property. -/
def Frame.All (Text : Codes → Prop) (P : α → Prop) : Frame α → Prop
  | .list before => ∀ x ∈ before, P x
  | .object before k => Text k ∧ ∀ f ∈ before, Text f.1 ∧ P f.2

/-- What was read so far has a property. -/
def Reader.All (Text : Codes → Prop) (P : α → Prop) : Reader α → Prop
  | .value stack | .firstItem stack | .firstName stack => ∀ f ∈ stack, f.All Text P
  | .name before stack => (∀ f ∈ before, Text f.1 ∧ P f.2) ∧ ∀ f ∈ stack, f.All Text P
  | .colon before k stack =>
    (Text k ∧ ∀ f ∈ before, Text f.1 ∧ P f.2) ∧ ∀ f ∈ stack, f.All Text P
  | .afterValue x stack => P x ∧ ∀ f ∈ stack, f.All Text P

namespace Reader

variable {b : Builder ε α} {Text : Codes → Prop} {P : α → Prop}

theorem all_close (h : b.Keeps Text P) {before : Fields α Codes} {stack : List (Frame α)}
    {r : Reader α} (hbefore : ∀ f ∈ before, Text f.1 ∧ P f.2) (hstack : ∀ f ∈ stack, f.All Text P)
    (hclose : close b before stack = .ok r) : r.All Text P := by
  unfold close at hclose
  split at hclose
  · next x hx =>
    cases hclose
    refine ⟨h.object _ x (Fields.nodup_ofPairs _) (fun f hf => ?_) hx, hstack⟩
    exact hbefore f (List.mem_reverse.1 (Fields.mem_ofPairs hf))
  · cases hclose

theorem all_startValue (h : b.Keeps Text P) {stack : List (Frame α)} {l : Lexeme} {r : Reader α}
    (hl : l.Holds Text) (hstack : ∀ f ∈ stack, f.All Text P)
    (hstart : startValue b stack l = .ok r) : r.All Text P := by
  unfold startValue at hstart
  split at hstart
  · cases hstart
    exact ⟨h.scalar _ hl, hstack⟩
  · cases hstart
    exact ⟨h.text _ hl, hstack⟩
  · cases hstart
    exact hstack
  · cases hstart
    exact hstack
  · cases hstart
  · cases hstart

/-- A step keeps the property of what was read so far. -/
theorem All.step (h : b.Keeps Text P) {r r' : Reader α} {l : Lexeme} (hl : l.Holds Text)
    (hr : r.All Text P) (hstep : step b r l = .ok r') : r'.All Text P := by
  unfold Reader.step at hstep
  split at hstep
  -- a value begins
  · next stack => exact all_startValue h hl hr hstep
  · next stack =>
    cases hstep
    exact ⟨h.list [] (List.forall_mem_nil P), hr⟩
  · next stack hne =>
    have hfirst : (Frame.list ([] : List α)).All Text P := List.forall_mem_nil P
    exact all_startValue h hl (List.forall_mem_cons.2 ⟨hfirst, hr⟩) hstep
  -- names
  · next stack => exact all_close h (List.forall_mem_nil _) hr hstep
  · next stack k =>
    cases hstep
    exact ⟨⟨hl, List.forall_mem_nil _⟩, hr⟩
  · next before stack k =>
    cases hstep
    exact ⟨⟨hl, hr.1⟩, hr.2⟩
  · next before k stack =>
    cases hstep
    exact List.forall_mem_cons.2 hr
  -- a value is complete
  · next x before stack =>
    cases hstep
    obtain ⟨hbefore, hstack⟩ := List.forall_mem_cons.1 hr.2
    exact List.forall_mem_cons.2 ⟨List.forall_mem_cons.2 ⟨hr.1, hbefore⟩, hstack⟩
  · next x before stack =>
    cases hstep
    obtain ⟨hbefore, hstack⟩ := List.forall_mem_cons.1 hr.2
    refine ⟨h.list _ fun y hy => ?_, hstack⟩
    exact List.forall_mem_cons.2 ⟨hr.1, hbefore⟩ y (List.mem_reverse.1 hy)
  · next x before k stack =>
    cases hstep
    obtain ⟨⟨hk, hbefore⟩, hstack⟩ := List.forall_mem_cons.1 hr.2
    exact ⟨List.forall_mem_cons.2 ⟨⟨hk, hr.1⟩, hbefore⟩, hstack⟩
  · next x before k stack =>
    obtain ⟨⟨hk, hbefore⟩, hstack⟩ := List.forall_mem_cons.1 hr.2
    exact all_close h (List.forall_mem_cons.2 ⟨⟨hk, hr.1⟩, hbefore⟩) hstack hstep
  · cases hstep

theorem All.run (h : b.Keeps Text P) {ls : List Lexeme} (hls : ∀ l ∈ ls, l.Holds Text)
    {r r' : Reader α} (hr : r.All Text P) (hrun : run b r ls = .ok r') : r'.All Text P := by
  induction ls generalizing r with
  | nil =>
    cases hrun
    exact hr
  | cons l ls ih =>
    obtain ⟨hl, hls⟩ := List.forall_mem_cons.1 hls
    rw [Reader.run] at hrun
    split at hrun
    · next r₁ hstep => exact ih hls (hr.step h hl hstep) hrun
    · cases hrun

end Reader

/-- What the builder keeps holds of everything that is read from a document with texts of the
kind. -/
theorem Builder.Keeps.readWith {b : Builder ε α} {Text : Codes → Prop} {P : α → Prop}
    (h : b.Keeps Text P) {text : Codes} (htext : ∀ l ∈ lexemes text, l.Holds Text) {x : α}
    (hread : readWith b text = .ok x) : P x := by
  unfold Json.readWith at hread
  split at hread
  · next y hrun =>
    cases hread
    have hstart : (Reader.value []).All Text P := List.forall_mem_nil _
    exact (hstart.run h htext hrun).1
  · cases hread
  · cases hread

end Json

end PropProver
