import PropProver.Clause
import PropProver.CommandLine.Arguments
import PropProver.CommandLine.Files
import PropProver.CommandLine.Run
import PropProver.CommandLine.Usage
import PropProver.Formula.Basic
import PropProver.Formula.Meaning
import PropProver.Formula.Reading
import PropProver.Json.Basic
import PropProver.Json.Reader
import PropProver.Json.Writer
import PropProver.Literal.Basic
import PropProver.Literal.Set
import PropProver.Main
import PropProver.NormalForm.Basic
import PropProver.NormalForm.Table
import PropProver.Position
import PropProver.Proofs.Cancellation
import PropProver.Proofs.CommandLine.Attempts
import PropProver.Proofs.CommandLine.Choices
import PropProver.Proofs.CommandLine.Conclusions
import PropProver.Proofs.CommandLine.FormulaFile
import PropProver.Proofs.Formula.Operands
import PropProver.Proofs.Json.Building
import PropProver.Proofs.Json.Keeping
import PropProver.Proofs.Json.Lexemes
import PropProver.Proofs.Malformed
import PropProver.Proofs.NormalForm.Atoms
import PropProver.Proofs.NormalForm.Clash
import PropProver.Proofs.NormalForm.Cnf
import PropProver.Proofs.NormalForm.LevelOrder
import PropProver.Proofs.NormalForm.Operands
import PropProver.Proofs.NormalForm.Tables
import PropProver.Proofs.NormalForm.Turns
import PropProver.Proofs.NormalForm.WorkList
import PropProver.Proofs.Reading.Balance
import PropProver.Proofs.Reading.Brackets
import PropProver.Proofs.Reading.Grammar
import PropProver.Proofs.Reading.Language
import PropProver.Proofs.Reading.Lexemes
import PropProver.Proofs.Reading.Machine
import PropProver.Proofs.Reading.Moves
import PropProver.Proofs.Reading.Phrases
import PropProver.Proofs.Reading.Printing
import PropProver.Proofs.Reading.Scanning
import PropProver.Proofs.Reading.Stacks
import PropProver.Proofs.Refutation
import PropProver.Proofs.Repeats
import PropProver.Proofs.Report.Proving
import PropProver.Proofs.Report.Storing
import PropProver.Proofs.Resolution.Completeness
import PropProver.Proofs.Resolution.Entailment
import PropProver.Proofs.Resolution.Renaming
import PropProver.Proofs.Saturation.Bound
import PropProver.Proofs.Saturation.Checkpoints
import PropProver.Proofs.Saturation.Derivation
import PropProver.Proofs.Saturation.History
import PropProver.Proofs.Saturation.Invariant
import PropProver.Proofs.Saturation.Limit
import PropProver.Proofs.Saturation.Log
import PropProver.Proofs.Saturation.Renaming
import PropProver.Proofs.Saturation.Rules
import PropProver.Proofs.Saturation.Run
import PropProver.Proofs.Saturation.Termination
import PropProver.Proofs.Saturation.Turn
import PropProver.Proofs.Saturation.Verdict
import PropProver.Proofs.Sequent.Bounds
import PropProver.Proofs.Sequent.Branches
import PropProver.Proofs.Sequent.Derivation
import PropProver.Proofs.Sequent.Leaves
import PropProver.Proofs.Sequent.Operands
import PropProver.Proofs.Sequent.Recording
import PropProver.Proofs.Sequent.Residue
import PropProver.Proofs.Sequent.Shape
import PropProver.Proofs.Sequent.Trace
import PropProver.Proofs.Settings.Filling
import PropProver.Proofs.Settings.Updating
import PropProver.Proofs.Text.Lines
import PropProver.Proofs.Value.Storable
import PropProver.Proofs.Weight
import PropProver.Queue
import PropProver.Refutation.Basic
import PropProver.Refutation.Cancellation
import PropProver.Refutation.Inference
import PropProver.Refutation.Saturation
import PropProver.Registry
import PropProver.Report.Basic
import PropProver.Report.Encoding
import PropProver.Report.Log
import PropProver.Report.Text
import PropProver.Sequent.Basic
import PropProver.Sequent.Rules
import PropProver.Sequent.Search
import PropProver.Sequent.Trace
import PropProver.Settings.Basic
import PropProver.Settings.LogLevel
import PropProver.Settings.Placeholder
import PropProver.Text.Blank
import PropProver.Text.CodeRanges
import PropProver.Text.Codes
import PropProver.Text.Integer
import PropProver.Text.LetterCase
import PropProver.Text.Printable
import PropProver.Text.Quoted
import PropProver.Token.Basic
import PropProver.Token.Scan
import PropProver.Value.Basic
import PropProver.Value.Complaint
import PropProver.Value.Decoding
import PropProver.Value.Encoding
import PropProver.Value.Text
import PropProver.Weight
