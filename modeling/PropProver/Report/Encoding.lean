import PropProver.Report.Basic
import PropProver.Value.Encoding

/-!
# Reports as data

A report becomes a value in which formulas, clause sets and sequents keep their form, so that they
can be read back.
-/

namespace PropProver

/-- A text, or null if there is none. -/
def Value.ofText? : Option String → Value
  | some s => .str s
  | none => .null

/-- A natural number, or null if there is none. -/
def Value.ofNat? : Option Nat → Value
  | some n => .int n
  | none => .null

/-- An entry of a trace as a value, given what foreign leaves are. -/
def Trace.Entry.toValue {ι : Type} (leaf : ι → Value) (e : Entry ι) : Value :=
  .dict [
    ("index", .int e.index),
    ("sequent", .ofSequent leaf e.sequent),
    ("parent", .ofNat? e.parent),
    ("rule", .ofText? e.rule)]

/-- A trace as a value: its entries and the indices of its leaves. -/
def Trace.toValue {ι : Type} (leaf : ι → Value) (t : Trace ι) : Value :=
  .dict [
    ("entries", .list (t.entries.map (Entry.toValue leaf))),
    ("leaves", .list (t.leaves.map fun e => .int e.index))]

/-- The figures of a strategy as named values. -/
def Outcome.figures : Outcome → Value
  | .saturation o => .dict [("given_clauses", .int o.given)]
  | .cancellation o =>
    .dict [
      ("positive_pool", .list (o.final.positive.map .ofString)),
      ("negative_pool", .list (o.final.negative.map .ofString))]

/-- The refutation of a formula as a value. -/
def Refutation.toValue (r : Refutation Empty) (f : Formula) : Value :=
  .dict [
    ("formula", .ofFormula f),
    ("negated", .ofFormula (.neg f)),
    ("clauses", .clauseSet (r.normalForm.clauses.map .ofLiterals)),
    ("is_theorem", .bool r.isTheorem),
    ("strategy", .str r.strategy.name),
    ("table", .str r.table.name),
    ("steps", .list (r.steps.map fun a => .str a.text)),
    ("metadata", r.outcome.figures)]

/-- A report as a value. -/
def Report.toValue (r : Report) : Value :=
  .dict [
    ("text", .str r.text),
    ("formula", .ofFormula r.formula),
    ("is_theorem", .bool r.isTheorem),
    ("status", .str r.status),
    ("refutation", r.refutation.toValue r.formula),
    ("trace", r.search.trace.toValue Empty.elim),
    ("display_order", r.order)]

end PropProver
