import PropProver.NormalForm.Basic
import PropProver.Sequent.Search
import PropProver.Value.Text

/-!
# Complaints

An error about trees whose foreign leaves are values is shown as a complaint: the kind of the error
with its message. A message that shows a value depends on whether the value can be described. When
it cannot, the complaint is about that instead, and its kind is that of a wrong type
(`Complaint.about`).
-/

namespace PropProver

/-- The kinds of complaints. -/
inductive Complaint.Kind where
  /-- A formula was asked for. -/
  | illegalFormula
  /-- Something is of the wrong type. -/
  | type
  /-- Something is of the right type, but does not fit. -/
  | value
  /-- There is nothing at a position. -/
  | index
  deriving DecidableEq, Repr

/-- The name of a kind. -/
def Complaint.Kind.name : Complaint.Kind → String
  | .illegalFormula => "IllegalFormulaError"
  | .type => "TypeError"
  | .value => "ValueError"
  | .index => "IndexError"

/-- An error as it is shown. -/
structure Complaint where
  /-- What kind of error it is. -/
  kind : Complaint.Kind
  /-- The message. -/
  message : String
  deriving DecidableEq, Repr

namespace Complaint

/-- The complaint of a kind whose message ends in a value. -/
def about (kind : Kind) (before : String) (v : Value) : Complaint :=
  match v.describe with
  | .ok s => ⟨kind, before ++ s⟩
  | .error complaint => ⟨.type, complaint⟩

/-- The complaint about a value that a formula should be in the place of. -/
def noFormula (v : Value) : Complaint := ⟨.type, v.notFormulaMessage⟩

end Complaint

/-- The complaint about a position. -/
def Position.Fault.complaint (f : Fault) (container : String) : Complaint :=
  ⟨.index, f.message container⟩

/-- The complaint about what a table does not apply to. -/
def Fault.complaint : Fault Value → Complaint
  | .operand v => .noFormula v
  | .negation v => .noFormula (.neg v)

/-- The complaint about what has no normal form. -/
def NormalForm.Error.complaint : NormalForm.Error Value → Complaint
  | .notFormula v => .about .illegalFormula "Expected formula, got " v
  | .fault f => f.complaint

/-- The complaint about a member of a clause that is no literal. -/
def Clause.notLiteral (t : Tree Value) : Complaint :=
  match t.check with
  | .ok f => ⟨.value, f.text ++ " is not a literal"⟩
  | .error v => .noFormula v

/-- The complaint about a position of a sequent that no rule applies at. -/
def Sequent.ExpandError.complaint : Sequent.ExpandError Value → Complaint
  | .noFormula f => f.complaint "tuple"
  | .noRule side t =>
    .about .type ("No " ++ side.name ++ " rule for ") (Value.ofTreeWith id t)

/-- The complaint about a parent that is not in the trace. -/
def Trace.NoSuchEntry.complaint (e : NoSuchEntry) : Complaint :=
  ⟨.index, "No trace entry " ++ toString e.index⟩

/-- The complaint about an entry that cannot be written. A rule is written with the number of the
entry that it was applied to. -/
def Trace.WriteError.complaint : Trace.WriteError Value → Complaint
  | .notFormula v => .noFormula v
  | .noParent => ⟨.type, "unsupported operand type(s) for +: 'NoneType' and 'int'"⟩

/-- The complaint about what there is no search for. -/
def Search.Error.complaint : Search.Error Value → Complaint
  | .notFormula v => .about .illegalFormula "Expected formula, got " v
  | .foreign v => .noFormula v
  | .noRule e => e.complaint

end PropProver
