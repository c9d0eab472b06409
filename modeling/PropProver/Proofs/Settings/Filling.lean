import Mathlib.Data.List.Infix
import Mathlib.Data.List.TakeWhile
import PropProver.Settings.Placeholder

/-!
# What filling in comes to

A placeholder is written `$` and, in braces, the name of a variable, which a colon and a default may
follow (`Written`). Filling in is one pass over a text from left to right (`Pass`): the leftmost
placeholder is replaced, the pass goes on behind it, and what has been put in is not looked at again.
No more is assumed of the scanner than that it finds a placeholder exactly where one is written
(`placeholder?_eq_some_iff`).

In a document the texts are filled in, at any depth, and all else stays as it is (`Filled`).
-/

namespace PropProver.Settings

/-! ### Placeholders in writing -/

/-- A letter of the English alphabet, or an underscore. -/
def IsLetter (c : Char) : Prop := 'A' ≤ c ∧ c ≤ 'Z' ∨ 'a' ≤ c ∧ c ≤ 'z' ∨ c = '_'

/-- A decimal digit. -/
def IsDigit (c : Char) : Prop := '0' ≤ c ∧ c ≤ '9'

/-- The names of variables. -/
inductive IsName : List Char → Prop where
  /-- A letter comes first, and then letters and digits. -/
  | intro {c : Char} {cs : List Char} :
      IsLetter c → (∀ d ∈ cs, IsLetter d ∨ IsDigit d) → IsName (c :: cs)

/-- The text of a placeholder. -/
inductive Written : List Char → Placeholder → Prop where
  /-- A name without a default, for which nothing stands. -/
  | bare {name : List Char} : IsName name → Written ('$' :: '{' :: (name ++ ['}'])) ⟨name, []⟩
  /-- A name with a default, which goes on to the first closing brace. -/
  | withDefault {name default : List Char} : IsName name → '}' ∉ default →
      Written ('$' :: '{' :: (name ++ ':' :: (default ++ ['}']))) ⟨name, default⟩

/-- A placeholder is written at the head of a text. -/
def Starts (cs : List Char) : Prop := ∃ text p rest, Written text p ∧ cs = text ++ rest

/-- No placeholder starts in the first part of a text, which may reach into the rest. -/
def Clear (before rest : List Char) : Prop := ∀ cs, cs <:+ before → cs ≠ [] → ¬ Starts (cs ++ rest)

/-- A text, and what one pass from left to right makes of it. -/
inductive Pass (env : Environment) : List Char → List Char → Prop where
  /-- Where no placeholder is left, the text stays. -/
  | stay {cs : List Char} : Clear cs [] → Pass env cs cs
  /-- The leftmost placeholder is replaced by the value of its variable, if this is set. -/
  | set {before text after out : List Char} {p : Placeholder} {s : String} : Written text p →
      Clear before (text ++ after) → env (String.ofList p.name) = some s → Pass env after out →
      Pass env (before ++ (text ++ after)) (before ++ (s.toList ++ out))
  /-- The leftmost placeholder is replaced by its default, if the variable is not set. -/
  | unset {before text after out : List Char} {p : Placeholder} : Written text p →
      Clear before (text ++ after) → env (String.ofList p.name) = none → Pass env after out →
      Pass env (before ++ (text ++ after)) (before ++ (p.default ++ out))

/-! ### The scanner finds what is written -/

variable {env : Environment} {c : Char} {cs before text rest out : List Char} {p : Placeholder}

theorem isNameStart_iff : isNameStart c = true ↔ IsLetter c := by
  unfold isNameStart
  delta Char.isAlpha Char.isUpper Char.isLower
  simp [IsLetter, Char.le_def, or_assoc]

theorem isNameRest_iff : isNameRest c = true ↔ IsLetter c ∨ IsDigit c := by
  unfold isNameRest
  delta Char.isAlphanum Char.isAlpha Char.isUpper Char.isLower Char.isDigit
  simp [IsLetter, IsDigit, Char.le_def, or_comm, or_left_comm]

theorem placeholder?_of_written (h : Written text p) (rest : List Char) :
    placeholder? (text ++ rest) = some (p, rest) := by
  cases h with
  | bare hname =>
    obtain ⟨hc, hcs⟩ := hname
    have hrest : ∀ d ∈ _, isNameRest d = true := fun d hd => isNameRest_iff.2 (hcs d hd)
    simp [placeholder?, isNameStart_iff.2 hc, List.takeWhile_append_of_pos hrest,
      List.dropWhile_append_of_pos hrest, isNameRest]
  | withDefault hname hdefault =>
    obtain ⟨hc, hcs⟩ := hname
    have hrest : ∀ d ∈ _, isNameRest d = true := fun d hd => isNameRest_iff.2 (hcs d hd)
    have hopen : ∀ d ∈ _, (d != '}') = true := fun d hd => bne_iff_ne.2 fun h => hdefault (h ▸ hd)
    simp [placeholder?, isNameStart_iff.2 hc, List.takeWhile_append_of_pos hrest,
      List.dropWhile_append_of_pos hrest, isNameRest, List.takeWhile_append_of_pos hopen,
      List.dropWhile_append_of_pos hopen]

/-- A text is the part with a property at its head, and then what comes after it. -/
private theorem eq_append_of_dropWhile {q : Char → Bool} (h : cs.dropWhile q = rest) :
    cs = cs.takeWhile q ++ rest := by
  rw [← h, List.takeWhile_append_dropWhile]

theorem written_of_placeholder? (h : placeholder? cs = some (p, rest)) :
    ∃ text, Written text p ∧ cs = text ++ rest := by
  unfold placeholder? at h
  split at h
  · next c cs =>
    split at h
    · next hc =>
      have hname : IsName (c :: cs.takeWhile isNameRest) :=
        ⟨isNameStart_iff.1 hc, fun d hd => isNameRest_iff.1 (List.mem_takeWhile_imp hd)⟩
      split at h
      · next hcs =>
        cases h
        exact ⟨_, .bare hname, by simpa using eq_append_of_dropWhile hcs⟩
      · next more hcs =>
        split at h
        · next hmore =>
          cases h
          have hdefault : '}' ∉ more.takeWhile (· != '}') := by
            intro hmem
            simpa using List.mem_takeWhile_imp hmem
          refine ⟨_, .withDefault hname hdefault, ?_⟩
          simpa [← eq_append_of_dropWhile hmore] using eq_append_of_dropWhile hcs
        · cases h
      · cases h
    · cases h
  · cases h

/-- The scanner finds a placeholder exactly where one is written. -/
theorem placeholder?_eq_some_iff :
    placeholder? cs = some (p, rest) ↔ ∃ text, Written text p ∧ cs = text ++ rest := by
  constructor
  · exact written_of_placeholder?
  · rintro ⟨text, htext, rfl⟩
    exact placeholder?_of_written htext rest

theorem placeholder?_eq_none_iff : placeholder? cs = none ↔ ¬ Starts cs := by
  constructor
  · rintro h ⟨text, p, rest, htext, rfl⟩
    rw [placeholder?_of_written htext] at h
    cases h
  · intro h
    cases hcs : placeholder? cs with
    | none => rfl
    | some r =>
      obtain ⟨text, htext, heq⟩ := written_of_placeholder? hcs
      exact absurd ⟨text, _, _, htext, heq⟩ h

/-! ### One pass -/

theorem fillChars_of_written (h : Written text p) (rest : List Char) :
    fillChars env (text ++ rest) = p.value env ++ fillChars env rest := by
  have hfound := placeholder?_of_written h rest
  cases htext : text ++ rest with
  | nil => cases h <;> cases htext
  | cons c cs =>
    rw [htext] at hfound
    rw [fillChars]
    split
    · next heq =>
      cases heq.symm.trans hfound
      rfl
    · next heq => cases heq.symm.trans hfound

theorem fillChars_cons_of_not_starts (h : ¬ Starts (c :: cs)) :
    fillChars env (c :: cs) = c :: fillChars env cs := by
  have hnone := placeholder?_eq_none_iff.2 h
  rw [fillChars]
  split
  · next heq => cases heq.symm.trans hnone
  · rfl

theorem Clear.tail (h : Clear (c :: before) rest) : Clear before rest :=
  fun cs hcs => h cs (hcs.trans (List.suffix_cons c before))

theorem Clear.cons (h : Clear before rest) (hstarts : ¬ Starts (c :: (before ++ rest))) :
    Clear (c :: before) rest := by
  intro cs hcs hne
  rcases List.suffix_cons_iff.1 hcs with rfl | hcs
  · exact hstarts
  · exact h cs hcs hne

/-- What stands before the leftmost placeholder stays. -/
theorem fillChars_append_of_clear (h : Clear before rest) :
    fillChars env (before ++ rest) = before ++ fillChars env rest := by
  induction before with
  | nil => rfl
  | cons c before ih =>
    have hstarts : ¬ Starts (c :: before ++ rest) := h _ List.suffix_rfl (List.cons_ne_nil c before)
    rw [List.cons_append] at hstarts ⊢
    rw [fillChars_cons_of_not_starts hstarts, ih h.tail, List.cons_append]

/-- A pass goes on over a character at which no placeholder starts. -/
theorem Pass.cons (h : Pass env cs out) (hstarts : ¬ Starts (c :: cs)) :
    Pass env (c :: cs) (c :: out) := by
  cases h with
  | stay hclear => exact .stay (hclear.cons (by rwa [List.append_nil]))
  | set htext hclear hset hafter => exact .set htext (hclear.cons hstarts) hset hafter
  | unset htext hclear hunset hafter => exact .unset htext (hclear.cons hstarts) hunset hafter

/-- A pass goes on over a placeholder at the head of a text. -/
theorem Pass.head (h : Pass env rest out) (htext : Written text p) :
    Pass env (text ++ rest) (p.value env ++ out) := by
  have hclear : Clear [] (text ++ rest) := fun cs hcs hne => absurd (List.suffix_nil.1 hcs) hne
  cases hset : env (String.ofList p.name) with
  | some s =>
    simpa [Placeholder.value, hset] using Pass.set htext hclear hset h
  | none =>
    simpa [Placeholder.value, hset] using Pass.unset htext hclear hset h

theorem pass_fillChars (env : Environment) (cs : List Char) : Pass env cs (fillChars env cs) := by
  fun_induction fillChars env cs with
  | case1 => exact .stay fun cs hcs hne => absurd (List.suffix_nil.1 hcs) hne
  | case2 c rest p rest' h ih =>
    obtain ⟨text, htext, heq⟩ := written_of_placeholder? h
    rw [heq]
    exact ih.head htext
  | case3 c rest h ih => exact ih.cons (placeholder?_eq_none_iff.1 h)

/-- One pass makes one thing of a text, and this is how it is filled in. -/
theorem pass_iff : Pass env cs out ↔ fillChars env cs = out := by
  constructor
  · intro h
    induction h with
    | @stay cs hclear =>
      have : fillChars env (cs ++ []) = cs ++ fillChars env [] := fillChars_append_of_clear hclear
      rwa [List.append_nil, fillChars, List.append_nil] at this
    | set htext hclear hset _ ih =>
      rw [fillChars_append_of_clear hclear, fillChars_of_written htext, ih, Placeholder.value, hset]
    | unset htext hclear hunset _ ih =>
      rw [fillChars_append_of_clear hclear, fillChars_of_written htext, ih, Placeholder.value,
        hunset]
  · rintro rfl
    exact pass_fillChars env cs

theorem pass_toList_iff {s t : String} : Pass env s.toList t.toList ↔ fill env s = t := by
  rw [pass_iff, fill, ← String.toList_inj, String.toList_ofList]

/-! ### Documents -/

mutual

/-- A document, and what it comes to: one pass is made over each of its texts, and nothing else
changes. -/
inductive Filled (env : Environment) : Json → Json → Prop where
  /-- A text is replaced by what one pass makes of it. -/
  | str {s t : String} : Pass env s.toList t.toList → Filled env (.str s) (.str t)
  /-- A list keeps its length and order. -/
  | arr {xs ys : List Json} : FilledItems env xs ys → Filled env (.arr xs) (.arr ys)
  /-- An object keeps its names and their order. -/
  | obj {fs gs : List (String × Json)} : FilledFields env fs gs → Filled env (.obj fs) (.obj gs)
  /-- Null stays. -/
  | null : Filled env .null .null
  /-- A truth value stays. -/
  | bool {b : Bool} : Filled env (.bool b) (.bool b)
  /-- A number stays. -/
  | int {n : Int} : Filled env (.int n) (.int n)

/-- The same for every item of a list. -/
inductive FilledItems (env : Environment) : List Json → List Json → Prop where
  /-- There is no item. -/
  | nil : FilledItems env [] []
  /-- The first item and the others. -/
  | cons {x y : Json} {xs ys : List Json} : Filled env x y → FilledItems env xs ys →
      FilledItems env (x :: xs) (y :: ys)

/-- The same for the value of every field of an object. -/
inductive FilledFields (env : Environment) :
    List (String × Json) → List (String × Json) → Prop where
  /-- There is no field. -/
  | nil : FilledFields env [] []
  /-- The first field and the others. -/
  | cons {k : String} {x y : Json} {fs gs : List (String × Json)} : Filled env x y →
      FilledFields env fs gs → FilledFields env ((k, x) :: fs) ((k, y) :: gs)

end

mutual

theorem filled_fillAll (env : Environment) : ∀ x, Filled env x (fillAll env x)
  | .str _ => .str (pass_toList_iff.2 rfl)
  | .arr xs => .arr (filledItems_fillItems env xs)
  | .obj fs => .obj (filledFields_fillFields env fs)
  | .null => .null
  | .bool _ => .bool
  | .int _ => .int

theorem filledItems_fillItems (env : Environment) : ∀ xs, FilledItems env xs (fillItems env xs)
  | [] => .nil
  | x :: xs => .cons (filled_fillAll env x) (filledItems_fillItems env xs)

theorem filledFields_fillFields :
    ∀ (env : Environment) fs, FilledFields env fs (fillFields env fs)
  | _, [] => .nil
  | env, (_, x) :: fs => .cons (filled_fillAll env x) (filledFields_fillFields env fs)

end

mutual

theorem Filled.fillAll_eq : ∀ {x y}, Filled env x y → fillAll env x = y
  | _, _, .str h => congrArg Json.str (pass_toList_iff.1 h)
  | _, _, .arr h => congrArg Json.arr h.fillItems_eq
  | _, _, .obj h => congrArg Json.obj h.fillFields_eq
  | _, _, .null => rfl
  | _, _, .bool => rfl
  | _, _, .int => rfl

theorem FilledItems.fillItems_eq : ∀ {xs ys}, FilledItems env xs ys → fillItems env xs = ys
  | _, _, .nil => rfl
  | _, _, .cons h hs => by rw [fillItems, h.fillAll_eq, hs.fillItems_eq]

theorem FilledFields.fillFields_eq : ∀ {fs gs}, FilledFields env fs gs → fillFields env fs = gs
  | _, _, .nil => rfl
  | _, _, .cons h hs => by rw [fillFields, h.fillAll_eq, hs.fillFields_eq]

end

/-- **Filling in.** A text is filled in by one pass over it from left to right, which there is only
one way to make: at the leftmost placeholder the value of its variable is put in, if this is set, and
otherwise its default; the pass goes on behind the placeholder, and all other characters stay. A
document is filled in by filling in its texts, at any depth; its names, its shape, the order of its
items and fields and its other values stay. -/
theorem fill_pass (env : Environment) :
    (∀ s t : String, Pass env s.toList t.toList ↔ fill env s = t) ∧
    ∀ x y : Json, Filled env x y ↔ fillAll env x = y := by
  refine ⟨fun s t => pass_toList_iff, fun x y => ⟨Filled.fillAll_eq, ?_⟩⟩
  rintro rfl
  exact filled_fillAll env x

end PropProver.Settings
