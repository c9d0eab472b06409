import PropProver.Token.Scan

/-!
# From tokens to formulas

The reader keeps two stacks: brackets and connectives that wait for their right operand, and
formulas that are finished. A binary connective first completes every waiting connective that
binds at least as tightly, so that connectives of one kind group to the left; a closing bracket
completes everything back to its opening bracket. The formulas of a bracket are not kept apart
from those before it: a connective may take an operand from outside its bracket, before the
reader finds that something is missing.
-/

namespace PropProver

/-- Why a list of tokens is no formula. -/
inductive ParseError where
  /-- A connective lacks an operand. -/
  | missingOperand (connective : Token)
  /-- A bracket has no partner. -/
  | unmatched (bracket : Token)
  /-- An operand starts where a connective is due. -/
  | unexpected (token : Token)
  /-- There is no formula at all. -/
  | noFormula
  /-- More than one formula remains. -/
  | leftOver (count : Nat)
  deriving DecidableEq, Repr

/-- The message for a list of tokens that is no formula. -/
def ParseError.message : ParseError → String
  | .missingOperand t => "insufficient-operands" ++ near t
  | .unmatched t => "unmatched-bracket" ++ near t
  | .unexpected t => "unexpected-token" ++ near t
  | .noFormula => "insufficient-operands: empty formula"
  | .leftOver n => "unexpected-token: " ++ toString n ++ " formulas left after reduction"
where
  /-- The place of a token. -/
  near (t : Token) : String :=
    " near " ++ Text.quoted t.lexeme ++ " at position " ++ toString t.position

namespace Reading

/-- What waits on the first stack: an open bracket, or a connective without its right operand. -/
inductive Pending where
  /-- An open bracket. -/
  | bracket (token : Token)
  /-- A negation. -/
  | negation (token : Token)
  /-- A binary connective. -/
  | binary (op : Connective) (token : Token)
  deriving DecidableEq, Repr

/-- The reader between two tokens, both stacks with their top first. -/
structure State where
  /-- Open brackets and waiting connectives. -/
  pending : List Pending := []
  /-- Finished formulas. -/
  formulas : List Formula := []
  /-- Whether an operand has to come next. -/
  expectsOperand : Bool := true
  deriving DecidableEq, Repr

/-- Completes a negation with the formula on top. -/
def completeNegation (t : Token) : List Formula → Except ParseError (List Formula)
  | x :: fs => .ok (.neg x :: fs)
  | [] => .error (.missingOperand t)

/-- Completes a binary connective with the two formulas on top. -/
def completeBinary (op : Connective) (t : Token) :
    List Formula → Except ParseError (List Formula)
  | r :: l :: fs => .ok (.bin op l r :: fs)
  | _ => .error (.missingOperand t)

/-- Completes the connectives that wait after the innermost open bracket as long as they bind at
least as tightly as `floor`; a negation binds tighter than every binary connective. -/
def complete (floor : Nat) :
    List Pending → List Formula → Except ParseError (List Pending × List Formula)
  | .negation t :: ps, fs => do complete floor ps (← completeNegation t fs)
  | .binary op t :: ps, fs =>
    if floor ≤ op.precedence then do complete floor ps (← completeBinary op t fs)
    else .ok (.binary op t :: ps, fs)
  | ps, fs => .ok (ps, fs)

/-- Completes every connective that waits after the innermost open bracket. Beside the formulas it
gives that bracket, with what waits before it, if there is one. -/
def completeGroup : List Pending → List Formula →
    Except ParseError (Option (Token × List Pending) × List Formula)
  | .negation t :: ps, fs => do completeGroup ps (← completeNegation t fs)
  | .binary op t :: ps, fs => do completeGroup ps (← completeBinary op t fs)
  | .bracket b :: ps, fs => .ok (some (b, ps), fs)
  | [], fs => .ok (none, fs)

/-- Reads one token. Only the last token of all may close the last open bracket. -/
def State.step (s : State) (t : Token) (isLast : Bool) : Except ParseError State :=
  match t.kind with
  | .openBracket =>
    if s.expectsOperand then .ok { s with pending := .bracket t :: s.pending }
    else .error (.unexpected t)
  | .atom =>
    if s.expectsOperand then
      .ok { s with formulas := .atom t.lexeme :: s.formulas, expectsOperand := false }
    else .error (.unexpected t)
  | .not =>
    if s.expectsOperand then .ok { s with pending := .negation t :: s.pending }
    else .error (.unexpected t)
  | .binary op => do
    let (pending, formulas) ← complete op.precedence s.pending s.formulas
    return ⟨.binary op t :: pending, formulas, true⟩
  | .closeBracket => do
    match ← completeGroup s.pending s.formulas with
    | (none, _) => .error (.unmatched t)
    | (some (_, pending), formulas) =>
      if pending.isEmpty && !isLast then .error (.unmatched t)
      else return ⟨pending, formulas, false⟩

/-- Reads tokens up to the end of the list. -/
def State.run (s : State) : List Token → Except ParseError State
  | [] => .ok s
  | t :: ts => do run (← s.step t ts.isEmpty) ts

/-- The formula that is read when no token is left. -/
def State.finish (s : State) : Except ParseError Formula := do
  match ← completeGroup s.pending s.formulas with
  | (some (bracket, _), _) => .error (.unmatched bracket)
  | (none, []) => .error .noFormula
  | (none, [f]) => .ok f
  | (none, fs) => .error (.leftOver fs.length)

end Reading

/-- Why a text is no formula. -/
inductive ReadError where
  /-- It does not split into tokens. -/
  | lexical (e : LexicalError)
  /-- Its tokens make no formula. -/
  | parse (e : ParseError)
  deriving DecidableEq, Repr

/-- The message for a text that is no formula. -/
def ReadError.message : ReadError → String
  | .lexical e => e.message
  | .parse e => e.message

namespace Formula

/-- The formula that a list of tokens writes. -/
def ofTokens (ts : List Token) : Except ParseError Formula := do
  (← Reading.State.run {} ts).finish

/-- The formula that a text writes. -/
def ofText (text : String) : Except ReadError Formula := do
  let ts ← (Token.scan text).mapError .lexical
  (ofTokens ts).mapError .parse

end Formula

end PropProver
