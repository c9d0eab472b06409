import PropProver.Text.Quoted

/-!
# Texts that may hold halves of characters

Some encodings give a character with a large number as two halves, a high one and a low one, and a
text from outside may hold a half in any place. `Codes` are such texts; a `String` is one without
halves.

A high half with a low half behind it is not the character that the two stand for, but it looks
like it in writing. `Codes.joined` puts the character in the place of each such pair, and leaves
alone exactly the texts without any (`Codes.joined_eq_self_iff`).
-/

namespace PropProver

/-- A character, or half of one. -/
inductive Code where
  /-- A character. -/
  | char (c : Char)
  /-- A high half. -/
  | high (n : Fin 0x400)
  /-- A low half. -/
  | low (n : Fin 0x400)
  deriving DecidableEq, Repr

/-- A text in which halves of characters may occur. -/
abbrev Codes := List Code

namespace Code

/-- The number of a code. -/
def number : Code → Nat
  | .char c => c.toNat
  | .high n => 0xD800 + n
  | .low n => 0xDC00 + n

/-- The code with a number. -/
def ofNumber (n : Nat) : Code :=
  if h : 0xD800 ≤ n ∧ n < 0xDC00 then .high ⟨n - 0xD800, by omega⟩
  else if h : 0xDC00 ≤ n ∧ n < 0xE000 then .low ⟨n - 0xDC00, by omega⟩
  else .char (Char.ofNat n)

/-- The character that two halves stand for. -/
def pair (m n : Fin 0x400) : Char := Char.ofNat (0x10000 + m * 0x400 + n)

/-- The code is a character. -/
def char? : Code → Option Char
  | .char c => some c
  | _ => none

/-- A half by its number in hexadecimal digits. -/
def escapedHalf (c : Code) : List Char := '\\' :: 'u' :: Text.hex 4 c.number

/-- A code as it stands between quotes. -/
def escaped (quote : Char) : Code → List Char
  | .char c => Text.escaped quote c
  | c => c.escapedHalf

/-- A code as it stands on the error stream, which has no halves. -/
def shown : Code → List Char
  | .char c => [c]
  | c => c.escapedHalf

/-- Every code is the one with its number. -/
theorem ofNumber_number (c : Code) : ofNumber c.number = c := by
  cases c with
  | char c =>
    have hvalid : c.toNat < 0xD800 ∨ 0xDFFF < c.toNat ∧ c.toNat < 0x110000 := c.valid
    rw [number, ofNumber, dif_neg (by omega), dif_neg (by omega), Char.ofNat_toNat]
  | high n =>
    rw [number, ofNumber, dif_pos (by omega)]
    simp
  | low n =>
    rw [number, ofNumber, dif_neg (by omega), dif_pos (by omega)]
    simp

theorem number_high_lt (n : Fin 0x400) : (high n).number < 0x10000 := by
  rw [number]
  omega

theorem number_low_lt (n : Fin 0x400) : (low n).number < 0x10000 := by
  rw [number]
  omega

end Code

namespace Codes

/-- The codes of characters. -/
def ofChars (cs : List Char) : Codes := cs.map .char

/-- The codes of a string. -/
def ofString (s : String) : Codes := ofChars s.toList

instance : Coe String Codes := ⟨ofString⟩

/-- The string with the codes, if there are no halves. -/
def toString? (cs : Codes) : Option String := (cs.mapM Code.char?).map String.ofList

/-- The characters of a class at the front of a text. -/
def leading (p : Char → Bool) : Codes → List Char
  | .char c :: cs => if p c then c :: leading p cs else []
  | _ => []

/-- The text before the first half. -/
def start (cs : Codes) : String := String.ofList (leading (fun _ => true) cs)

/-- A text between quotes, as it is shown in messages. -/
def quoted (cs : Codes) : String :=
  let q := Text.quoteFor (cs.filterMap Code.char?)
  String.ofList (q :: (cs.flatMap (Code.escaped q) ++ [q]))

/-- A text as it enters a message. -/
def shown (cs : Codes) : String := String.ofList (cs.flatMap Code.shown)

/-- The text with a character in the place of every high half that has a low half behind it. -/
def joined : Codes → Codes
  | [] => []
  | .high m :: .low n :: cs => .char (Code.pair m n) :: joined cs
  | c :: cs => c :: joined cs

/-- No high half has a low half behind it. -/
def Unpaired (cs : Codes) : Prop := ∀ m n, ¬ [.high m, .low n] <:+: cs

/-! ### Characters and strings -/

@[simp] theorem ofChars_nil : ofChars [] = [] := rfl

@[simp] theorem ofChars_cons (c : Char) (cs : List Char) :
    ofChars (c :: cs) = .char c :: ofChars cs := rfl

@[simp] theorem ofChars_append (cs ds : List Char) :
    ofChars (cs ++ ds) = ofChars cs ++ ofChars ds := List.map_append

theorem mapM_char?_eq_some_iff {cs : Codes} {ds : List Char} :
    cs.mapM Code.char? = some ds ↔ cs = ofChars ds := by
  induction cs generalizing ds with
  | nil => cases ds <;> simp
  | cons c cs ih =>
    cases c with
    | char c =>
      have hcons : (Code.char c :: cs).mapM Code.char? = (cs.mapM Code.char?).map (c :: ·) := by
        rw [List.mapM_cons]
        cases cs.mapM Code.char? <;> rfl
      rw [hcons, Option.map_eq_some_iff]
      constructor
      · rintro ⟨es, hes, rfl⟩
        rw [ih.1 hes, ofChars_cons]
      · intro h
        cases ds with
        | nil => cases h
        | cons d ds =>
          cases h
          exact ⟨ds, ih.2 rfl, rfl⟩
    | high n => cases ds <;> simp [List.mapM_cons, Code.char?]
    | low n => cases ds <;> simp [List.mapM_cons, Code.char?]

theorem toString?_eq_some_iff {cs : Codes} {s : String} :
    cs.toString? = some s ↔ cs = ofString s := by
  simp only [toString?, Option.map_eq_some_iff, mapM_char?_eq_some_iff, ofString]
  constructor
  · rintro ⟨ds, rfl, rfl⟩
    rw [String.toList_ofList]
  · rintro rfl
    exact ⟨s.toList, rfl, String.ofList_toList⟩

@[simp] theorem toString?_ofString (s : String) : (ofString s).toString? = some s :=
  toString?_eq_some_iff.2 rfl

@[simp] theorem ofString_inj {s t : String} : ofString s = ofString t ↔ s = t := by
  refine ⟨fun h => ?_, congrArg ofString⟩
  have hs := toString?_ofString s
  rw [h, toString?_ofString] at hs
  exact (Option.some.inj hs).symm

theorem leading_ofChars (p : Char → Bool) (cs : List Char) :
    (ofChars cs).leading p = cs.takeWhile p := by
  induction cs with
  | nil => rfl
  | cons c cs ih => rw [ofChars_cons, leading, List.takeWhile_cons, ih]

@[simp] theorem start_ofString (s : String) : (ofString s).start = s := by
  have htake : s.toList.takeWhile (fun _ => true) = s.toList := by
    induction s.toList with
    | nil => rfl
    | cons c cs ih => rw [List.takeWhile_cons, if_pos rfl, ih]
  rw [start, ofString, leading_ofChars, htake, String.ofList_toList]

/-! ### Pairs of halves -/

theorem joined_char_cons (c : Char) (cs : Codes) :
    joined (.char c :: cs) = .char c :: joined cs := by
  rw [joined]
  nofun

theorem joined_ofChars (cs : List Char) : joined (ofChars cs) = ofChars cs := by
  induction cs with
  | nil => rfl
  | cons c cs ih => rw [ofChars_cons, joined_char_cons, ih]

theorem unpaired_nil : Unpaired [] := by
  intro m n h
  simp at h

theorem unpaired_cons_iff {c : Code} {cs : Codes} :
    Unpaired (c :: cs) ↔ (∀ m n ds, c = .high m → ¬ cs = .low n :: ds) ∧ Unpaired cs := by
  constructor
  · refine fun h => ⟨?_, fun m n hin => h m n (hin.trans ⟨[c], [], by simp⟩)⟩
    rintro m n ds rfl rfl
    exact h m n ⟨[], ds, rfl⟩
  · rintro ⟨hpair, hcs⟩ m n hin
    rcases List.infix_cons_iff.1 hin with ⟨rest, hstart⟩ | hin
    · rw [List.cons_append, List.cons_append, List.cons.injEq] at hstart
      exact hpair m n _ hstart.1.symm hstart.2.symm
    · exact hcs m n hin

/-- The texts that joining leaves alone are those without pairs. -/
theorem joined_eq_self_iff {cs : Codes} : joined cs = cs ↔ cs.Unpaired := by
  fun_induction joined cs with
  | case1 => exact ⟨fun _ => unpaired_nil, fun _ => rfl⟩
  | case2 m n cs ih =>
    have hne : ¬ Code.char (Code.pair m n) :: joined cs = .high m :: .low n :: cs := by simp
    exact ⟨fun h => absurd h hne, fun h => absurd rfl ((unpaired_cons_iff.1 h).1 m n cs rfl)⟩
  | case3 c cs hpair ih =>
    rw [List.cons.injEq, eq_self, true_and, ih, unpaired_cons_iff]
    exact ⟨fun h => ⟨hpair, h⟩, fun h => h.2⟩

theorem unpaired_ofChars (cs : List Char) : Unpaired (ofChars cs) :=
  joined_eq_self_iff.1 (joined_ofChars cs)

theorem unpaired_ofString (s : String) : Unpaired (ofString s) := unpaired_ofChars _

theorem unpaired_singleton (c : Code) : Unpaired [c] := by
  intro m n h
  have hle := h.length_le
  simp at hle

end Codes

end PropProver
