import PropProver.Formula.Reading
import PropProver.Refutation.Basic
import PropProver.Sequent.Search
import PropProver.Settings.Basic
import PropProver.Value.Text
import PropProver.Registry

/-!
# Reports

A report holds what both methods find about one formula text: the verdict of the refutation with
its steps, and the trace of the proof search. What the methods use is asked for in `Options`; the
values come from a caller or from the settings and are used as they are, so that one of the wrong
kind fails only when it is needed. The order of display is not looked at in a proof; it may be any
value.
-/

namespace PropProver

/-- What is asked of a proof, null standing for what is not asked. -/
structure Options where
  /-- The name of the strategy. -/
  strategy : Json := .null
  /-- The name of the expansion table. -/
  table : Json := .null
  /-- The greatest number of given clauses. -/
  maxSteps : Json := .null
  /-- The order in which the trace is displayed. -/
  order : Value := .null
  deriving Repr

/-- What is asked, or else what the settings say. A limit counts as asked unless it is null. -/
def Settings.complete (s : Settings) (o : Options) : Options where
  strategy :=
    if o.strategy.isGiven then o.strategy else s.get "resolution.strategy" (.str "saturation")
  table :=
    if o.table.isGiven then o.table else s.get "resolution.expansion_table" (.str "classical")
  maxSteps :=
    match o.maxSteps with
    | .null => s.get "resolution.max_steps" .null
    | n => n
  order :=
    if o.order.isTrue then o.order
    else .ofJson (s.get "sequent.display_order" (.str "chronological"))

/-- A proof in which both methods have come to an end. -/
structure Report where
  /-- The text of the formula. -/
  text : Codes
  /-- The formula. -/
  formula : Formula
  /-- What the refutation found. -/
  refutation : Refutation Empty
  /-- What the search found. -/
  search : Search.Result Empty
  /-- The order in which the trace is displayed. -/
  order : Value

/-- Why there is no report. -/
inductive ProofError where
  /-- The text is no formula. -/
  | read (e : ReadError)
  /-- The text holds half of a character before its full stop. -/
  | half (c : Code) (position : Nat)
  /-- The search was not finished within the limit that was asked for. -/
  | limit (asked : Json) (e : Saturation.LimitReached)
  /-- The strategy is not known. -/
  | unknownStrategy (e : UnknownName)
  /-- The expansion table is not known. -/
  | unknownTable (e : UnknownName)
  /-- What is given as the strategy is no name. -/
  | noStrategy (kind : String)
  /-- What is given as the table is no name, and an expansion is due. -/
  | noExpansion (kind : String)
  /-- What is given as the table is no name, and the name of the table is due. -/
  | noTable (kind : String)
  /-- What is given as the limit is no number. -/
  | noLimit (kind : String)
  deriving Repr

namespace ProofError

/-- The message for a proof that fails. -/
def message : ProofError → String
  | .read e => e.message
  | .half c n => "unexpected character: " ++ Codes.quoted [c] ++ " at position " ++ toString n
  | .limit asked e => e.message asked.display
  | .unknownStrategy e => "Unknown loop: " ++ e.name
  | .unknownTable e => "Unknown expansion table: " ++ e.name
  | .noStrategy kind | .noTable kind => "'" ++ kind ++ "' object has no attribute 'name'"
  | .noExpansion kind => "'" ++ kind ++ "' object has no attribute 'expand'"
  | .noLimit kind => "'>=' not supported between instances of 'int' and '" ++ kind ++ "'"

/-- The failure lies in the formula or in the limit, not in the kind of an option. -/
def isFailure : ProofError → Bool
  | .read _ | .half _ _ | .limit _ _ => true
  | _ => false

end ProofError

/-- Something that was chosen by name, or the kind of what was given instead of a name. -/
inductive Choice (α : Type) where
  /-- What the name stands for. -/
  | known (x : α)
  /-- The kind of what is no name. -/
  | other (kind : String)

/-- What is chosen from a registry. -/
def Registry.choose {α : Type} (r : Registry α) : Json → Except UnknownName (Choice α)
  | .str name => .known <$> r.find name
  | x => .ok (.other x.typeName)

/-- The limit that a value stands for: null for none, or a number or truth value. -/
def limitOf? : Json → Option (Option Int)
  | .null => some none
  | .int n => some (some n)
  | .bool b => some (some (if b then 1 else 0))
  | _ => none

namespace Formula

/-- Refutes a formula within a limit of any kind. A limit that is no number matters only if there
is a clause to begin with. -/
def refuteWithin (f : Formula) (s : Strategy) (t : Table) (maxSteps : Json) :
    Except ProofError (Refutation Empty) :=
  match limitOf? maxSteps with
  | some limit => (f.refute s t limit).mapError (.limit maxSteps)
  | none =>
    let start := Saturation.initial ((normalForm t (.neg f)).clauses.map .ofList)
    if s = .saturation ∧ start ≠ [] then .error (.noLimit maxSteps.typeName)
    else (f.refute s t none).mapError (.limit maxSteps)

/-- Refutes a formula with what was chosen. If no table was chosen, the formula can still come as
far as the verdict when its negation is a literal, which no table replaces. -/
def refuteBy (f : Formula) (maxSteps : Json) :
    Choice Strategy → Choice Table → Except ProofError (Refutation Empty)
  | .known s, .known t => f.refuteWithin s t maxSteps
  | .other kind, .known _ => .error (.noStrategy kind)
  | s, .other kind =>
    if (Tree.neg f).isLiteral then
      match s with
      | .other kind' => .error (.noStrategy kind')
      | .known s => do
        let _ ← f.refuteWithin s .classical maxSteps
        .error (.noTable kind)
    else .error (.noExpansion kind)

end Formula

/-- The formula that a text writes. A half of a character starts no token, and behind the full stop
nothing is looked at. -/
def Formula.ofCodes (text : Codes) : Except ProofError Formula :=
  match ofText text.start, text[text.start.length]? with
  | .error (.lexical (.unterminated _)), some c => .error (.half c text.start.length)
  | read, _ => read.mapError .read

/-- Without halves there is nothing in the way of reading a formula. -/
theorem Formula.ofCodes_ofString (text : String) :
    ofCodes text = (ofText text).mapError .read := by
  have hend : (text : Codes)[text.length]? = none := by
    simp [Codes.ofString, Codes.ofChars, String.length_toList]
  unfold ofCodes
  rw [Codes.start_ofString, hend]
  cases ofText text with
  | ok f => rfl
  | error e =>
    cases e with
    | lexical e => cases e <;> rfl
    | parse e => rfl

/-- A text that writes no formula fails as a formula. -/
theorem Formula.isFailure_of_ofCodes {text : Codes} {e : ProofError}
    (h : ofCodes text = .error e) : e.isFailure = true := by
  unfold ofCodes at h
  split at h
  · cases h
    rfl
  · cases hread : ofText text.start with
    | ok f =>
      rw [hread] at h
      cases h
    | error e =>
      rw [hread] at h
      cases h
      rfl

/-- Proves the formula of a text by both methods. -/
def prove (o : Options) (text : Codes) : Except ProofError Report := do
  let f ← Formula.ofCodes text
  let s ← (Strategy.registry.choose o.strategy).mapError .unknownStrategy
  let t ← (Table.registry.choose o.table).mapError .unknownTable
  let r ← f.refuteBy o.maxSteps s t
  return ⟨text, f, r, f.search, o.order⟩

namespace Report

/-- The formula is a theorem. -/
def isTheorem (r : Report) : Bool := r.refutation.isTheorem

/-- The verdict in words. -/
def status (r : Report) : String := if r.isTheorem then "THEOREM PROVEN" else "NOT A THEOREM"

end Report

end PropProver
