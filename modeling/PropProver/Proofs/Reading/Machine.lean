import PropProver.Proofs.Reading.Stacks

/-!
# The reader as a machine

The reader in small moves: its first stack holds tokens of any kind, it completes one connective at a
time, and it says so when it comes upon a token that has no precedence or that it cannot complete
(`Stop.noEntry`). A move reads a token, completes a connective, or ends the reading
(`Moment.move`). What a move can lead to is said by `Moved`, and why it can stop the machine by
`Stopped`.
-/

namespace PropProver.Reading

/-! ### Moves -/

/-- What the machine has to do. -/
inductive Task where
  /-- The next token is read, or there is none and what waits is completed. -/
  | next (ts : List Token)
  /-- Before a binary connective waits, what binds at least as tightly is completed. -/
  | binary (t : Token) (ts : List Token)
  /-- What waits after the bracket that a closing bracket closes is completed. -/
  | close (t : Token) (ts : List Token)

/-- The machine between two moves, with the tops of its stacks first. -/
structure Moment where
  /-- What is to be done. -/
  task : Task
  /-- Open brackets and waiting connectives. -/
  connectives : List Token
  /-- Finished formulas. -/
  formulas : List Formula
  /-- Whether an operand has to come next. -/
  expectsOperand : Bool

/-- Why the machine stops without a formula. -/
inductive Stop where
  /-- The tokens are no formula. -/
  | refused (e : ParseError)
  /-- There is a token of a kind with which nothing can be done. -/
  | noEntry (t : Token)

/-- What a move comes to. -/
inductive Move where
  /-- The machine goes on. -/
  | goOn (m : Moment)
  /-- There is a formula. -/
  | give (f : Formula)
  /-- There is none. -/
  | stop (e : Stop)

/-- How tightly a token binds, if it is a connective. -/
def strength? (t : Token) : Option Nat :=
  match t.kind with
  | .not => some Nonterminal.operand.precedence
  | .binary op => some op.precedence
  | _ => none

theorem strength?_not {t : Token} (h : t.kind = .not) :
    strength? t = some Nonterminal.operand.precedence := by
  rw [strength?, h]

theorem strength?_binary {t : Token} {op : Connective} (h : t.kind = .binary op) :
    strength? t = some op.precedence := by
  rw [strength?, h]

/-- Completes a token with the formulas on top; only a negation is content with one. -/
def reduce (t : Token) (fs : List Formula) : Except Stop (List Formula) :=
  match t.kind, fs with
  | .not, x :: fs => .ok (.neg x :: fs)
  | .binary op, r :: l :: fs => .ok (.bin op l r :: fs)
  | _, _ :: _ :: _ => .error (.noEntry t)
  | _, _ => .error (.refused (.missingOperand t))

namespace Moment

/-- Completes a token that was taken from the first stack. -/
def complete (m : Moment) (t : Token) (cs : List Token) : Move :=
  match reduce t m.formulas with
  | .ok fs => .goOn { m with connectives := cs, formulas := fs }
  | .error e => .stop e

/-- A binary connective waits, and its right operand is expected. -/
def push (m : Moment) (t : Token) (ts : List Token) : Move :=
  .goOn ⟨.next ts, t :: m.connectives, m.formulas, true⟩

/-- One move. -/
def move (m : Moment) : Move :=
  match m.task with
  | .next [] =>
    match m.connectives with
    | u :: cs => if u.kind = .openBracket then .stop (.refused (.unmatched u)) else m.complete u cs
    | [] =>
      match m.formulas with
      | [] => .stop (.refused .noFormula)
      | [f] => .give f
      | fs => .stop (.refused (.leftOver fs.length))
  | .next (t :: ts) =>
    match t.kind with
    | .openBracket | .not =>
      if m.expectsOperand then .goOn { m with task := .next ts, connectives := t :: m.connectives }
      else .stop (.refused (.unexpected t))
    | .atom =>
      if m.expectsOperand then
        .goOn ⟨.next ts, m.connectives, .atom t.lexeme :: m.formulas, false⟩
      else .stop (.refused (.unexpected t))
    | .binary _ => .goOn { m with task := .binary t ts }
    | .closeBracket => .goOn { m with task := .close t ts }
  | .binary t ts =>
    match m.connectives with
    | [] => m.push t ts
    | u :: cs =>
      if u.kind = .openBracket then m.push t ts
      else
        match strength? u, strength? t with
        | some k, some n => if n ≤ k then m.complete u cs else m.push t ts
        | none, _ => .stop (.noEntry u)
        | _, none => .stop (.noEntry t)
  | .close t ts =>
    match m.connectives with
    | [] => .stop (.refused (.unmatched t))
    | u :: cs =>
      if u.kind = .openBracket then
        if cs.isEmpty && !ts.isEmpty then .stop (.refused (.unmatched t))
        else .goOn ⟨.next ts, cs, m.formulas, false⟩
      else m.complete u cs

/-- The machine before it reads some tokens. -/
def start (ts : List Token) : Moment := ⟨.next ts, [], [], true⟩

end Moment

/-- The moments of the reading of some tokens. -/
inductive Reached (ts : List Token) : Moment → Prop where
  /-- The first moment. -/
  | start : Reached ts (.start ts)
  /-- The moment after a move. -/
  | move {m n : Moment} : Reached ts m → m.move = .goOn n → Reached ts n

/-- What the machine comes to from a moment on. -/
inductive Ends : Moment → Except Stop Formula → Prop where
  /-- The move gives a formula. -/
  | give {m : Moment} {f : Formula} : m.move = .give f → Ends m (.ok f)
  /-- The move stops the machine. -/
  | stop {m : Moment} {e : Stop} : m.move = .stop e → Ends m (.error e)
  /-- The machine goes on. -/
  | goOn {m n : Moment} {r : Except Stop Formula} : m.move = .goOn n → Ends n r → Ends m r

/-! ### What a move leads to -/

variable {t u : Token} {ts cs : List Token} {m n : Moment}

/-- The moments that a move leads to. -/
inductive Moved (m : Moment) : Moment → Prop where
  /-- The token on top is completed. -/
  | complete {u : Token} {cs : List Token} {gs : List Formula} : m.connectives = u :: cs →
      u.kind ≠ .openBracket → reduce u m.formulas = .ok gs →
      Moved m { m with connectives := cs, formulas := gs }
  /-- An opening bracket or a negation waits. -/
  | wait {t : Token} {ts : List Token} : m.task = .next (t :: ts) →
      t.kind = .openBracket ∨ t.kind = .not → m.expectsOperand = true →
      Moved m { m with task := .next ts, connectives := t :: m.connectives }
  /-- An atom is a formula. -/
  | atom {t : Token} {ts : List Token} : m.task = .next (t :: ts) → m.expectsOperand = true →
      Moved m ⟨.next ts, m.connectives, .atom t.lexeme :: m.formulas, false⟩
  /-- A binary connective is about to wait. -/
  | binary {t : Token} {ts : List Token} : m.task = .next (t :: ts) → t.kind.isBinary = true →
      Moved m { m with task := .binary t ts }
  /-- A closing bracket is about to close a bracket. -/
  | close {t : Token} {ts : List Token} : m.task = .next (t :: ts) → t.kind = .closeBracket →
      Moved m { m with task := .close t ts }
  /-- A binary connective waits. -/
  | push {t : Token} {ts : List Token} : m.task = .binary t ts →
      Moved m ⟨.next ts, t :: m.connectives, m.formulas, true⟩
  /-- A bracket is closed. -/
  | closed {t u : Token} {ts cs : List Token} : m.task = .close t ts → m.connectives = u :: cs →
      u.kind = .openBracket → Moved m ⟨.next ts, cs, m.formulas, false⟩

theorem moved_of_complete (hm : m.connectives = u :: cs) (hu : u.kind ≠ .openBracket)
    (hn : m.complete u cs = .goOn n) : Moved m n := by
  rw [Moment.complete] at hn
  split at hn
  · next gs hgs =>
    cases hn
    exact .complete hm hu hgs
  · cases hn

theorem moved_of_move (h : m.move = .goOn n) : Moved m n := by
  unfold Moment.move at h
  split at h
  · split at h
    · next u cs hcs =>
      split at h
      · cases h
      · next hu => exact moved_of_complete hcs hu h
    · split at h <;> cases h
  · next t ts htask =>
    split at h
    · next hk =>
      split at h
      · next he =>
        cases h
        exact .wait htask (.inl hk) he
      · cases h
    · next hk =>
      split at h
      · next he =>
        cases h
        exact .wait htask (.inr hk) he
      · cases h
    · next hk =>
      split at h
      · next he =>
        cases h
        exact .atom htask he
      · cases h
    · next hk =>
      cases h
      exact .binary htask (by rw [hk]; rfl)
    · next hk =>
      cases h
      exact .close htask hk
  · next t ts htask =>
    split at h
    · cases h
      exact .push htask
    · next u cs hcs =>
      split at h
      · cases h
        exact .push htask
      · next hu =>
        split at h
        · split at h
          · exact moved_of_complete hcs hu h
          · cases h
            exact .push htask
        · cases h
        · cases h
  · next t ts htask =>
    split at h
    · cases h
    · next u cs hcs =>
      split at h
      · next hu =>
        split at h
        · cases h
        · cases h
          exact .closed htask hcs hu
      · next hu => exact moved_of_complete hcs hu h

/-! ### Where the machine stops -/

/-- The refusal is about a token. -/
inductive NamesToken : ParseError → Prop where
  /-- A connective lacks an operand. -/
  | missingOperand {t : Token} : NamesToken (.missingOperand t)
  /-- A bracket has no partner. -/
  | unmatched {t : Token} : NamesToken (.unmatched t)
  /-- An operand starts where a connective is due. -/
  | unexpected {t : Token} : NamesToken (.unexpected t)

/-- Why a move stops the machine. -/
inductive Stopped (m : Moment) : Stop → Prop where
  /-- A token is to blame. -/
  | named {e : ParseError} : NamesToken e → Stopped m (.refused e)
  /-- The reading is over without a formula. -/
  | noFormula : m.task = .next [] → m.connectives = [] → m.formulas = [] →
      Stopped m (.refused .noFormula)
  /-- The reading is over with several formulas. -/
  | leftOver {x y : Formula} {fs : List Formula} : m.task = .next [] → m.connectives = [] →
      m.formulas = x :: y :: fs → Stopped m (.refused (.leftOver m.formulas.length))
  /-- The token on top has no entry. -/
  | top {u v : Token} {cs : List Token} : m.connectives = u :: cs → u.kind ≠ .openBracket →
      reduce u m.formulas = .error (.noEntry v) ∨ strength? u = none → Stopped m (.noEntry v)
  /-- The token of the task has no entry. -/
  | task {t : Token} {ts : List Token} : m.task = .binary t ts → strength? t = none →
      Stopped m (.noEntry t)

theorem stopped_of_complete {e : Stop} (hm : m.connectives = u :: cs) (hu : u.kind ≠ .openBracket)
    (hn : m.complete u cs = .stop e) : Stopped m e := by
  rw [Moment.complete] at hn
  split at hn
  · cases hn
  · next he =>
    cases hn
    have he' := he
    unfold reduce at he'
    split at he'
    · cases he'
    · cases he'
    · cases he'
      exact .top hm hu (.inl he)
    · cases he'
      exact .named .missingOperand

theorem stopped_of_move {e : Stop} (h : m.move = .stop e) : Stopped m e := by
  unfold Moment.move at h
  split at h
  · next htask =>
    split at h
    · next u cs hcs =>
      split at h
      · cases h
        exact .named .unmatched
      · next hu => exact stopped_of_complete hcs hu h
    · next hcs =>
      split at h
      · next hfs =>
        cases h
        exact .noFormula htask hcs hfs
      · cases h
      · next hne hne' =>
        cases h
        match hfs : m.formulas with
        | [] => exact absurd hfs hne
        | [f] => exact absurd hfs (hne' f)
        | x :: y :: fs =>
          have := Stopped.leftOver htask hcs hfs
          rwa [hfs] at this
  · next t ts htask =>
    split at h
    · split at h
      · cases h
      · cases h
        exact .named .unexpected
    · split at h
      · cases h
      · cases h
        exact .named .unexpected
    · split at h
      · cases h
      · cases h
        exact .named .unexpected
    · cases h
    · cases h
  · next t ts htask =>
    split at h
    · cases h
    · next u cs hcs =>
      split at h
      · cases h
      · next hu =>
        split at h
        · split at h
          · exact stopped_of_complete hcs hu h
          · cases h
        · next hnone =>
          cases h
          exact .top hcs hu (.inr hnone)
        · next hnone _ =>
          cases h
          exact .task htask hnone
  · next t ts htask =>
    split at h
    · cases h
      exact .named .unmatched
    · next u cs hcs =>
      split at h
      · split at h
        · cases h
          exact .named .unmatched
        · cases h
      · next hu => exact stopped_of_complete hcs hu h

end PropProver.Reading
