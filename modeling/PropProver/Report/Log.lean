import PropProver.Report.Basic

/-!
# The log of a proof

The log tells the steps of a proof in the order in which they are made: the tokens, the formula,
the expansions, the inferences between clauses, the verdict and the visits of the search.
-/

namespace PropProver

/-- A record of the log. -/
structure LogRecord where
  /-- The record is about the verdict, not only about a step. -/
  isVerdict : Bool := false
  /-- The part of the program that makes the record. -/
  source : String
  /-- What is recorded. -/
  message : String
  deriving DecidableEq, Repr

namespace LogRecord

/-- The level of a record as a number. -/
def level (r : LogRecord) : Int := if r.isVerdict then 20 else 10

/-- The name of the level of a record. -/
def levelName (r : LogRecord) : String := if r.isVerdict then "INFO" else "DEBUG"

/-- A record on a line. -/
def text (r : LogRecord) : String := r.levelName ++ ":" ++ r.source ++ ":" ++ r.message

end LogRecord

/-- What the log tells of an expansion. -/
def Rewriting.message (w : Rewriting Empty) : String :=
  w.rule.name ++ " rule on " ++ Formula.text w.target.toTree ++ " in clause " ++
    Clause.text w.clause

/-- What the log tells of a saturation. -/
def Saturation.Event.message : Event → String
  | .droppedTautology c => "Dropping tautology " ++ c.text
  | .subsumed c => "Given clause " ++ c.text ++ " is subsumed"
  | .given c => "Given clause " ++ c.text
  | .applied a => a.text

/-- What the log tells of a strategy. -/
def Outcome.records : Outcome → List LogRecord
  | .saturation o =>
    o.events.map fun e => { source := "propatlas.loops.saturation", message := e.message }
  | .cancellation o =>
    let pooled := "Pooled " ++ toString o.initial.positive.length ++ " positive and " ++
      toString o.initial.negative.length ++ " negative literals"
    (pooled :: o.cancelled.map ("Cancelled " ++ ·)).map fun m =>
      { source := "propatlas.loops.cancellation", message := m }

/-- What the log tells of a visit of the search. -/
def Search.Visit.message : Visit Empty → String
  | .leaf s => "Axiom " ++ s.text
  | .expanded s i =>
    i.rule.name ++ " on " ++ s.text ++ " gives " ++ " | ".intercalate (i.premises.map (·.text))

namespace Report

/-- The number of tokens of the text. -/
def tokenCount (r : Report) : Nat :=
  match Token.scan r.text.start with
  | .ok ts => ts.length
  | .error _ => 0

/-- The log of the proof. -/
def records (r : Report) : List LogRecord :=
  let clauses := r.refutation.normalForm.clauses.length
  let step (source message : String) : LogRecord := { source := source, message := message }
  [ step "propatlas.parsing.tokenizer"
      ("Scanned " ++ toString r.tokenCount ++ " tokens from " ++ r.text.quoted),
    step "propatlas.parsing.parser" ("Parsed " ++ r.formula.text) ] ++
  (r.refutation.normalForm.rewritings.map fun w =>
    step "propatlas.normalform.normalizer" w.message) ++
  [ step "propatlas.normalform.normalizer"
      ("Normal form with " ++ toString clauses ++ " clauses: " ++ r.refutation.normalForm.text),
    step "propatlas.provers.resolution"
      ("Refuting " ++ toString clauses ++ " clauses of " ++ Formula.text (.neg r.formula) ++
        " with " ++ r.refutation.strategy.name) ] ++
  r.refutation.outcome.records ++
  [ { isVerdict := true
      source := "propatlas.provers.resolution"
      message := r.formula.text ++ (if r.isTheorem then " is a theorem" else " is not a theorem") }
  ] ++
  (r.search.visits.toList.map fun v => step "propatlas.provers.sequent" v.message) ++
  [ step "propatlas.provers.sequent"
      ("Sequent search finished with " ++ toString r.search.trace.size ++ " sequents, " ++
        toString r.search.trace.leaves.length ++ " leaves") ]

end Report

end PropProver
