import PropProver.Json.Basic
import PropProver.Text.Codes
import PropProver.Text.Integer

/-!
# Reading JSON

A text is split into lexemes, and these are put together on a stack of open containers. The reader
does not fix what is built: a `Builder` says what each kind of value becomes, and may refuse an
object. It is asked as soon as the object is complete, so inner objects come before outer ones,
and a refusal comes before a flaw that the text has further on. The same holds of a number with
too many digits, which is refused in its place.

Halves of characters are read where they stand, but two of them that are given by their numbers,
one behind the other, are read as the character that they stand for.
-/

namespace PropProver.Json

universe u

/-! ### Lexemes -/

/-- A word or number. -/
inductive Scalar where
  /-- The null value. -/
  | null
  /-- A truth value. -/
  | bool (b : Bool)
  /-- A whole number. -/
  | int (n : Int)
  deriving DecidableEq, Repr

/-- A lexeme of a JSON text. -/
inductive Lexeme where
  /-- A word or number. -/
  | scalar (x : Scalar)
  /-- A text. -/
  | text (s : Codes)
  /-- A number with too many digits. -/
  | longNumber (digits : Nat)
  | openList | closeList | openObject | closeObject | comma | colon
  /-- Something that starts no lexeme. -/
  | flaw
  deriving Repr

/-- The value of a hexadecimal digit. -/
def hexDigit? (c : Char) : Option Nat :=
  if c.isDigit then some (c.toNat - '0'.toNat)
  else if 'a' ≤ c ∧ c ≤ 'f' then some (c.toNat - 'a'.toNat + 10)
  else if 'A' ≤ c ∧ c ≤ 'F' then some (c.toNat - 'A'.toNat + 10)
  else none

/-- The value of four hexadecimal digits. -/
def unit? : Code → Code → Code → Code → Option Nat
  | .char a, .char b, .char c, .char d => do
    return (((← hexDigit? a) * 16 + (← hexDigit? b)) * 16 + (← hexDigit? c)) * 16 + (← hexDigit? d)
  | _, _, _, _ => none

/-- The character that a letter after a backslash stands for. -/
def escape? : Code → Option Char
  | .char '"' => some '"'
  | .char '\\' => some '\\'
  | .char '/' => some '/'
  | .char 'b' => some '\x08'
  | .char 'f' => some '\x0c'
  | .char 'n' => some '\n'
  | .char 'r' => some '\r'
  | .char 't' => some '\t'
  | _ => none

/-- A code between quotes. -/
inductive Piece where
  /-- It stands for itself, or is given by a letter. -/
  | plain (c : Code)
  /-- It is given by its number. -/
  | numbered (c : Code)
  deriving DecidableEq, Repr

/-- The text of pieces, in which the halves of a pair are put together if they are numbered. -/
def Piece.text : List Piece → Codes
  | [] => []
  | .numbered (.high m) :: .numbered (.low n) :: ps => .char (Code.pair m n) :: text ps
  | .numbered c :: ps => c :: text ps
  | .plain c :: ps => c :: text ps

/-- The pieces of a text up to its closing quote, and what comes after it. -/
def pieces? : Codes → Option (List Piece × Codes)
  | [] => none
  | .char '"' :: cs => some ([], cs)
  | .char '\\' :: .char 'u' :: a :: b :: c :: d :: cs => do
    let n ← unit? a b c d
    let (ps, rest) ← pieces? cs
    return (.numbered (.ofNumber n) :: ps, rest)
  | .char '\\' :: c :: cs => do
    let e ← escape? c
    let (ps, rest) ← pieces? cs
    return (.plain (.char e) :: ps, rest)
  | c :: cs =>
    if c.number < 0x20 then none
    else do
      let (ps, rest) ← pieces? cs
      return (.plain c :: ps, rest)

theorem length_lt_of_pieces? {cs rest : Codes} {ps : List Piece}
    (h : pieces? cs = some (ps, rest)) : rest.length < cs.length := by
  fun_induction pieces? cs generalizing ps with
  | case1 => cases h
  | case2 cs =>
    cases h
    simp
  | case3 a b c d cs ih =>
    simp only [Option.bind_eq_bind, Option.bind_eq_some_iff] at h
    obtain ⟨n, _, ⟨ps', rest'⟩, hp, he⟩ := h
    cases he
    exact Nat.lt_trans (ih hp) (by simp only [List.length_cons]; omega)
  | case4 c cs _ ih =>
    simp only [Option.bind_eq_bind, Option.bind_eq_some_iff] at h
    obtain ⟨n, _, ⟨ps', rest'⟩, hp, he⟩ := h
    cases he
    exact Nat.lt_trans (ih hp) (by simp only [List.length_cons]; omega)
  | case5 => cases h
  | case6 c cs _ _ _ _ ih =>
    simp only [Option.bind_eq_bind, Option.bind_eq_some_iff] at h
    obtain ⟨⟨ps', rest'⟩, hp, he⟩ := h
    cases he
    exact Nat.lt_trans (ih hp) (Nat.lt_succ_self _)

/-- The value of decimal digits. -/
def ofDigits (ds : List Char) : Nat := ds.foldl (fun n d => 10 * n + (d.toNat - '0'.toNat)) 0

/-- The number of characters of a natural number at the head of a text: a zero stands alone. -/
def naturalLength : List Char → Nat
  | '0' :: _ => 1
  | cs => (cs.takeWhile Char.isDigit).length

/-- White space between lexemes. -/
def isSpace (c : Char) : Bool := c == ' ' || c == '\t' || c == '\n' || c == '\r'

/-- The lexeme of a number with a sign in front of its digits. -/
def Lexeme.ofNumber (sign : Int) (digits : List Char) : Lexeme :=
  if Text.digitLimit < digits.length then .longNumber digits.length
  else .scalar (.int (sign * ofDigits digits))

/-- The words and the numbers, each with the number of characters after the first. -/
def scalar? : List Char → Option (Lexeme × Nat)
  | 'n' :: 'u' :: 'l' :: 'l' :: _ => some (.scalar .null, 3)
  | 't' :: 'r' :: 'u' :: 'e' :: _ => some (.scalar (.bool true), 3)
  | 'f' :: 'a' :: 'l' :: 's' :: 'e' :: _ => some (.scalar (.bool false), 4)
  | '-' :: cs =>
    let n := naturalLength cs
    if n = 0 then none else some (.ofNumber (-1) (cs.take n), n)
  | cs =>
    let n := naturalLength cs
    if n = 0 then none else some (.ofNumber 1 (cs.take n), n - 1)

/-- The lexemes of a text, up to its first flaw. -/
def lexemes : Codes → List Lexeme
  | [] => []
  | .char c :: cs =>
    if isSpace c then lexemes cs
    else if c = '[' then .openList :: lexemes cs
    else if c = ']' then .closeList :: lexemes cs
    else if c = '{' then .openObject :: lexemes cs
    else if c = '}' then .closeObject :: lexemes cs
    else if c = ',' then .comma :: lexemes cs
    else if c = ':' then .colon :: lexemes cs
    else if c = '"' then
      match _h : pieces? cs with
      | none => [.flaw]
      | some (ps, rest) => .text (Piece.text ps) :: lexemes rest
    else
      match scalar? (c :: Codes.leading Char.isAlphanum cs) with
      | none => [.flaw]
      | some (l, more) => l :: lexemes (cs.drop more)
  | _ :: _ => [.flaw]
  termination_by cs => cs.length
  decreasing_by
    all_goals first
      | exact Nat.lt_succ_of_lt (length_lt_of_pieces? _h)
      | simp only [List.length_drop, List.length_cons]; omega

/-! ### Values -/

/-- What the values of a text become. -/
structure Builder (ε : Type) (α : Type u) where
  /-- What a word or number becomes. -/
  scalar : Scalar → α
  /-- What a text becomes. -/
  text : Codes → α
  /-- What a list becomes. -/
  list : List α → α
  /-- What an object becomes, if it is accepted. -/
  object : Fields α Codes → Except ε α

/-- Why a text cannot be read. -/
inductive ReadError (ε : Type) where
  /-- It is no JSON text. -/
  | malformed
  /-- A number has too many digits. -/
  | longNumber (digits : Nat)
  /-- An object was refused. -/
  | refused (e : ε)
  deriving DecidableEq, Repr

/-- An open container with what was read of it, the last first. -/
inductive Frame (α : Type u) where
  /-- A list. -/
  | list (before : List α)
  /-- An object and the name of the field that is read. -/
  | object (before : Fields α Codes) (name : Codes)

/-- What is due next, and the containers that are open. -/
inductive Reader (α : Type u) where
  /-- A value. -/
  | value (stack : List (Frame α))
  /-- The first item of a list, or its end. -/
  | firstItem (stack : List (Frame α))
  /-- The first name of an object, or its end. -/
  | firstName (stack : List (Frame α))
  /-- A further name. -/
  | name (before : Fields α Codes) (stack : List (Frame α))
  /-- The colon after a name. -/
  | colon (before : Fields α Codes) (name : Codes) (stack : List (Frame α))
  /-- A comma or an end, after a value. -/
  | afterValue (x : α) (stack : List (Frame α))

namespace Reader

variable {ε : Type} {α : Type u}

/-- The reader after a complete object. -/
def close (b : Builder ε α) (before : Fields α Codes) (stack : List (Frame α)) :
    Except (ReadError ε) (Reader α) :=
  match b.object (Fields.ofPairs before.reverse) with
  | .ok x => .ok (.afterValue x stack)
  | .error e => .error (.refused e)

/-- The reader after the first lexeme of a value. -/
def startValue (b : Builder ε α) (stack : List (Frame α)) :
    Lexeme → Except (ReadError ε) (Reader α)
  | .scalar x => .ok (.afterValue (b.scalar x) stack)
  | .text s => .ok (.afterValue (b.text s) stack)
  | .openList => .ok (.firstItem stack)
  | .openObject => .ok (.firstName stack)
  | .longNumber digits => .error (.longNumber digits)
  | _ => .error .malformed

/-- The reader after one more lexeme. -/
def step (b : Builder ε α) : Reader α → Lexeme → Except (ReadError ε) (Reader α)
  | .value stack, l => startValue b stack l
  | .firstItem stack, .closeList => .ok (.afterValue (b.list []) stack)
  | .firstItem stack, l => startValue b (.list [] :: stack) l
  | .firstName stack, .closeObject => close b [] stack
  | .firstName stack, .text k => .ok (.colon [] k stack)
  | .name before stack, .text k => .ok (.colon before k stack)
  | .colon before k stack, .colon => .ok (.value (.object before k :: stack))
  | .afterValue x (.list before :: stack), .comma => .ok (.value (.list (x :: before) :: stack))
  | .afterValue x (.list before :: stack), .closeList =>
    .ok (.afterValue (b.list (x :: before).reverse) stack)
  | .afterValue x (.object before k :: stack), .comma => .ok (.name ((k, x) :: before) stack)
  | .afterValue x (.object before k :: stack), .closeObject => close b ((k, x) :: before) stack
  | _, _ => .error .malformed

/-- The reader after some lexemes. -/
def run (b : Builder ε α) (r : Reader α) : List Lexeme → Except (ReadError ε) (Reader α)
  | [] => .ok r
  | l :: ls =>
    match step b r l with
    | .ok r => run b r ls
    | .error e => .error e

end Reader

/-- Reads a text that holds one value and nothing else. -/
def readWith {ε : Type} {α : Type u} (b : Builder ε α) (text : Codes) :
    Except (ReadError ε) α :=
  match Reader.run b (.value []) (lexemes text) with
  | .ok (.afterValue x []) => .ok x
  | .ok _ => .error .malformed
  | .error e => .error e

/-- A word or number as a JSON value. -/
def ofScalar : Scalar → Json
  | .null => .null
  | .bool b => .bool b
  | .int n => .int n

/-- A field whose name is a string and whose value is there. -/
def field? {α : Type u} : Codes × Option α → Option (String × α)
  | (k, some x) => k.toString?.map (·, x)
  | (_, none) => none

/-- Builds JSON values, and refuses texts with halves of characters. -/
def builder : Builder Empty (Option Json) where
  scalar x := some (ofScalar x)
  text s := s.toString?.map .str
  list xs := (xs.mapM id).map .arr
  object fs := .ok ((fs.mapM field?).map .obj)

/-- The JSON value of a text. -/
def ofText (text : String) : Except (ReadError Empty) Json :=
  match readWith builder text with
  | .ok (some x) => .ok x
  | .ok none => .error .malformed
  | .error e => .error e

end PropProver.Json
