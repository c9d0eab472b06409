import PropProver.Json.Basic

/-!
# Placeholders

A setting may refer to variables of the environment. `${NAME}` stands for the value of a variable,
and `${NAME:default}` names what is put there if the variable is not set. A text is scanned once
from left to right; what has been put in is not scanned again.
-/

namespace PropProver.Settings

/-- The values of variables. -/
abbrev Environment := String → Option String

/-- A letter or underscore. -/
def isNameStart (c : Char) : Bool := c.isAlpha || c == '_'

/-- A letter, digit or underscore. -/
def isNameRest (c : Char) : Bool := c.isAlphanum || c == '_'

/-- A placeholder. -/
structure Placeholder where
  /-- The name of the variable. -/
  name : List Char
  /-- What is put in for a variable that is not set. -/
  default : List Char
  deriving DecidableEq, Repr

/-- The placeholder at the head of a text, and what comes after it. -/
def placeholder? : List Char → Option (Placeholder × List Char)
  | '$' :: '{' :: c :: cs =>
    if isNameStart c then
      let name := c :: cs.takeWhile isNameRest
      match cs.dropWhile isNameRest with
      | '}' :: rest => some (⟨name, []⟩, rest)
      | ':' :: more =>
        match more.dropWhile (· != '}') with
        | '}' :: rest => some (⟨name, more.takeWhile (· != '}')⟩, rest)
        | _ => none
      | _ => none
    else none
  | _ => none

/-- What is put in for a placeholder. -/
def Placeholder.value (env : Environment) (p : Placeholder) : List Char :=
  match env (String.ofList p.name) with
  | some s => s.toList
  | none => p.default

private theorem length_tail_lt {p : Char → Bool} {cs rest : List Char} {c : Char}
    (h : cs.dropWhile p = c :: rest) : rest.length < cs.length := by
  have := (List.dropWhile_suffix p (l := cs)).length_le
  rw [h, List.length_cons] at this
  omega

/-- What comes after a placeholder is shorter than the text. -/
theorem length_lt_of_placeholder? {cs rest : List Char} {p : Placeholder}
    (h : placeholder? cs = some (p, rest)) : rest.length < cs.length := by
  unfold placeholder? at h
  split at h
  · split at h
    · split at h
      · next h1 =>
        cases h
        have := length_tail_lt h1
        simp only [List.length_cons]
        omega
      · next h1 =>
        split at h
        · next h2 =>
          cases h
          have := length_tail_lt h1
          have := length_tail_lt h2
          simp only [List.length_cons]
          omega
        · cases h
      · cases h
    · cases h
  · cases h

/-- A text with its placeholders filled in. -/
def fillChars (env : Environment) (cs : List Char) : List Char :=
  match cs with
  | [] => []
  | c :: rest =>
    match _h : placeholder? (c :: rest) with
    | some (p, rest') => p.value env ++ fillChars env rest'
    | none => c :: fillChars env rest
  termination_by cs.length
  decreasing_by
    · exact length_lt_of_placeholder? _h
    · simp

/-- A text with its placeholders filled in. -/
def fill (env : Environment) (s : String) : String := String.ofList (fillChars env s.toList)

mutual

/-- A document with the placeholders of its texts filled in. Names of fields are left alone. -/
def fillAll (env : Environment) : Json → Json
  | .str s => .str (fill env s)
  | .arr xs => .arr (fillItems env xs)
  | .obj fs => .obj (fillFields env fs)
  | x => x

/-- The same for every item of a list. -/
def fillItems (env : Environment) : List Json → List Json
  | [] => []
  | x :: xs => fillAll env x :: fillItems env xs

/-- The same for every field of an object. -/
def fillFields (env : Environment) : List (String × Json) → List (String × Json)
  | [] => []
  | (k, x) :: fs => (k, fillAll env x) :: fillFields env fs

end

/-! ### Variables that are mentioned -/

/-- The names of the variables that the placeholders of a text refer to. -/
def variablesIn (cs : List Char) : List String :=
  match cs with
  | [] => []
  | c :: rest =>
    match _h : placeholder? (c :: rest) with
    | some (p, rest') => String.ofList p.name :: variablesIn rest'
    | none => variablesIn rest
  termination_by cs.length
  decreasing_by
    · exact length_lt_of_placeholder? _h
    · simp

mutual

/-- The names of the variables that the texts of a document refer to. -/
def allVariables : Json → List String
  | .str s => variablesIn s.toList
  | .arr xs => itemVariables xs
  | .obj fs => fieldVariables fs
  | _ => []

/-- The same for the items of a list. -/
def itemVariables : List Json → List String
  | [] => []
  | x :: xs => allVariables x ++ itemVariables xs

/-- The same for the fields of an object. -/
def fieldVariables : List (String × Json) → List String
  | [] => []
  | (_, x) :: fs => allVariables x ++ fieldVariables fs

end

end PropProver.Settings
