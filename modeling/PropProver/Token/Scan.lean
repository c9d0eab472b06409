import PropProver.Token.Basic
import PropProver.Text.Quoted

/-!
# From text to tokens

A formula text consists of brackets, connectives and atoms, with white space anywhere between
them, up to the first full stop; what comes after that is not looked at. An atom is a capital
letter with at most two digits. The tokens are enclosed in one more pair of brackets: the opening
one stands at the start of the text and the closing one is the full stop.
-/

namespace PropProver

/-- Why a text does not split into tokens. -/
inductive LexicalError where
  /-- No token starts with this character. -/
  | unexpected (c : Char) (position : Nat)
  /-- The first character of an arrow stands alone. -/
  | brokenArrow (c : Char) (position : Nat)
  /-- The name of an atom has too many digits. -/
  | longName (name : String) (position : Nat)
  /-- The text ends without a full stop. -/
  | unterminated (length : Nat)
  deriving DecidableEq, Repr

/-- The message for a text that does not split into tokens. -/
def LexicalError.message : LexicalError → String
  | .unexpected c n => at' "unexpected character" (String.singleton c) n
  | .brokenArrow c n => at' "malformed connective" (String.singleton c) n
  | .longName a n => at' "atom suffix longer than 2 digits" a n
  | .unterminated n => "missing terminator '.' at position " ++ toString n
where
  /-- A reason with the characters that it is about and their place. -/
  at' (reason text : String) (n : Nat) : String :=
    reason ++ ": " ++ Text.quoted text ++ " at position " ++ toString n

namespace Token

/-- White space between tokens. -/
def isSpace (c : Char) : Bool :=
  c == ' ' || c == '\t' || c == '\x0c' || c == '\r' || c == '\n'

/-- The greatest number of digits in the name of an atom. -/
def maxDigits : Nat := 2

/-- Names of atoms: a capital letter with at most two digits. -/
def isName (a : String) : Bool :=
  match a.toList with
  | c :: ds => c.isUpper && ds.all Char.isDigit && decide (ds.length ≤ maxDigits)
  | [] => false

/-- The kind of the longest lexeme at the head of a text, and the number of its characters after
the first. The name of an atom is taken with all its digits, even if these are too many. -/
def lexemeAt? : List Char → Option (Kind × Nat)
  | '(' :: _ => some (.openBracket, 0)
  | ')' :: _ => some (.closeBracket, 0)
  | '!' :: _ => some (.not, 0)
  | '&' :: _ => some (.binary .and, 0)
  | '|' :: _ => some (.binary .or, 0)
  | '=' :: '>' :: _ => some (.binary .imply, 1)
  | '<' :: '=' :: '>' :: _ => some (.binary .iff, 2)
  | c :: cs => if c.isUpper then some (.atom, (cs.takeWhile Char.isDigit).length) else none
  | [] => none

/-- What is wrong at a character where no lexeme starts. -/
def noLexeme (c : Char) (position : Nat) : LexicalError :=
  if c = '<' ∨ c = '=' then .brokenArrow c position else .unexpected c position

/-- The tokens from a place of the text on, closed by the token of the full stop. -/
def scanFrom (position : Nat) : List Char → Except LexicalError (List Token)
  | [] => .error (.unterminated position)
  | c :: cs =>
    if c = '.' then .ok [⟨.closeBracket, ")", position⟩]
    else if isSpace c then scanFrom (position + 1) cs
    else
      match lexemeAt? (c :: cs) with
      | none => .error (noLexeme c position)
      | some (kind, more) =>
        let lexeme := String.ofList (c :: cs.take more)
        if kind = .atom ∧ maxDigits < more then .error (.longName lexeme position)
        else do return ⟨kind, lexeme, position⟩ :: (← scanFrom (position + 1 + more) (cs.drop more))
  termination_by cs => cs.length
  decreasing_by
    · simp
    · simp only [List.length_drop, List.length_cons]; omega

/-- The tokens of a formula text between the added brackets. -/
def scan (text : String) : Except LexicalError (List Token) := do
  return ⟨.openBracket, "(", 0⟩ :: (← scanFrom 0 text.toList)

end Token

end PropProver
