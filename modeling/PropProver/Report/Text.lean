import PropProver.Report.Basic

/-!
# Reports in writing

The full text of a report lists the formula, its negation and the clauses of this, the steps of
the refutation, the trace of the search and the verdict. The summary is three lines long.
-/

namespace PropProver

/-- A value that names no order of display. -/
structure UnknownOrder where
  /-- The value. -/
  value : Value
  deriving Repr

/-- The message for a value that names no order of display. -/
def UnknownOrder.message (e : UnknownOrder) : String :=
  match e.value.plain with
  | .ok s => "Unknown display order: " ++ s
  | .error complaint => complaint

/-- The order of display that a value names. -/
def Trace.Order.ofValue (v : Value) : Except UnknownOrder Trace.Order :=
  match v with
  | .str s =>
    match s.toString?.bind ofName? with
    | some o => .ok o
    | none => .error ⟨v⟩
  | v => .error ⟨v⟩

/-- The text of a trace of formulas in which every rule has a parent. -/
def Trace.plainText (t : Trace Empty) (order : Order) : String :=
  match t.text order with
  | .ok s => s
  | .error (.notFormula v) => v.elim
  | .error .noParent => ""

namespace Report

/-- The line that encloses a report. -/
def banner : String := String.ofList (List.replicate 40 '=')

/-- The line between two sections of a report. -/
def rule : String := String.ofList (List.replicate 40 '-')

/-- The lines of the refutation steps. -/
def stepLines (r : Report) : List String :=
  if r.refutation.steps.isEmpty then ["  no inferences"]
  else r.refutation.stepTexts.map ("  " ++ ·)

/-- The full text, with the trace in an order of display. -/
def textIn (r : Report) (order : Trace.Order) : String :=
  "\n".intercalate ([
      banner,
      "Formula:  " ++ r.formula.text,
      "Negated:  " ++ Formula.text (.neg r.formula),
      "Clauses:  " ++ r.refutation.normalForm.text,
      rule,
      "Refutation (" ++ r.refutation.strategy.name ++ ", " ++ r.refutation.table.name ++ " table):"
    ] ++ r.stepLines ++ [
      rule,
      "Sequent trace:",
      r.search.trace.plainText order,
      banner,
      r.status])

/-- The full text, if the order of display is known. -/
def render (r : Report) : Except UnknownOrder String := r.textIn <$> Trace.Order.ofValue r.order

/-- The summary. -/
def summary (r : Report) : String :=
  "\n".intercalate [
    "Formula: " ++ r.formula.text,
    "Status:  " ++ r.status,
    "Clauses: " ++ toString r.refutation.normalForm.clauses.length ++ ", steps: " ++
      toString r.refutation.steps.length ++ ", sequents: " ++ toString r.search.trace.size]

end Report

end PropProver
