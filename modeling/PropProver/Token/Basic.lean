import PropProver.Formula.Basic

/-!
# Tokens

A token is a lexeme of the formula language with its kind and the place where it stands.
-/

namespace PropProver

/-- What a token is. -/
inductive Token.Kind where
  /-- The name of an atom. -/
  | atom
  /-- An opening bracket. -/
  | openBracket
  /-- A closing bracket. -/
  | closeBracket
  /-- The sign of negation. -/
  | not
  /-- A binary connective. -/
  | binary (op : Connective)
  deriving DecidableEq, Repr

/-- A lexeme, its kind and the number of characters before it. -/
structure Token where
  /-- What the token is. -/
  kind : Token.Kind
  /-- The characters of the token. -/
  lexeme : String
  /-- Where the token starts. -/
  position : Int := 0
  deriving DecidableEq, Repr

/-- The kind is a binary connective. -/
def Token.Kind.isBinary : Token.Kind → Bool
  | .binary _ => true
  | _ => false

end PropProver
