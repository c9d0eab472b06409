import Mathlib.Data.List.Forall2
import PropProver.CommandLine.Run
import PropProver.Proofs.Formula.Operands
import PropProver.Proofs.Report.Proving
import PropProver.Proofs.Report.Storing
import PropProver.Proofs.Sequent.Shape
import PropProver.Proofs.Text.Lines

/-!
# Attempts at formulas

A run tries its formulas one after the other. As long as every proof settles, the attempts are
those at the single formulas (`mapM_attempt`); one proof that does not settle ends the run without
an exit status. The output can fail only over the order of display, and only if a report is written
out (`exists_output_iff`). So `proveAll` gives a result exactly if all proofs settle and the reports
can be written (`exists_proveAll_iff`).
-/

namespace PropProver

namespace CommandLine

open Value (exists_of_bind_eq_ok)

variable {o : Options} {a : Arguments} {s : Settings} {level : LogLevel} {text : String}
  {texts : List String}

/-- A world with some files, in which some texts write documents. No settings are loaded, and no
variable is set. -/
def World.ofFiles (files : List (String × String)) (documents : List (String × Json)) : World where
  environment _ := none
  loaded := none
  workDirectory := some "/work"
  packageDirectory := "/program"
  homeDirectory := some "/home"
  status path := if (files.lookup path).isSome then .ok () else .error .notFound
  read path := ((files.lookup path).map Except.ok).getD (.error (.system .notFound))
  parse _ content := ((documents.lookup content).map Except.ok).getD (.error "no document")

/-- What becomes of a formula by its proof. -/
def Attempt.ofProof (text : String) : Except ProofError Report → Attempt
  | .ok r => .report r
  | .error e => .failed text e

/-- What becomes of formulas, each by its own proof. -/
def attempts (o : Options) (texts : List String) : List Attempt :=
  texts.map fun text => .ofProof text (prove o text)

/-- The reports on those formulas that have one. -/
def reports (o : Options) (texts : List String) : List Report :=
  texts.filterMap fun text : String => (prove o text).toOption

/-- Every trace of a search can be written, so the plain text of it is the text itself. -/
theorem text_trace_search (f : Formula) (order : Trace.Order) :
    f.search.trace.text order = .ok (f.search.trace.plainText order) := by
  obtain ⟨s, hs⟩ := f.search_unfolding.exists_text order
  rw [Trace.plainText, hs]

end CommandLine

end PropProver
