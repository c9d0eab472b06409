import PropProver.Proofs.CommandLine.Attempts
import PropProver.Proofs.CommandLine.Choices
import PropProver.Proofs.Settings.Filling

/-!
# Runs on a file of formulas

A run that is given a file treats the formulas of the file one by one. Each of them is reported, or
there is a complaint about it, as if it stood in the file alone. What a run leaves behind is put
together from these answers (`Answers`): the output from the reports in order, the error stream
from the entries of all lines in order, and the exit status from the worst of them.
-/

namespace PropProver

/-- The strategy, the table and the order are known, and the limit is null or a number. -/
structure Options.Known (o : Options) : Prop where
  strategy : ∃ s, Strategy.registry.Names o.strategy s
  table : ∃ t, Table.registry.Names o.table t
  order : ∃ order, Trace.Order.ofValue o.order = .ok order
  maxSteps : limitOf? o.maxSteps ≠ none

theorem Options.Known.suits {o : Options} (h : o.Known) (f : Formula) : o.Suits f := by
  obtain ⟨s, hs⟩ := h.strategy
  obtain ⟨t, ht⟩ := h.table
  exact .known hs ht (.inl h.maxSteps)

/-- With options that are known, all proofs settle. -/
theorem Options.Known.settles {o : Options} (h : o.Known) (text : Codes) :
    Settles (prove o text) :=
  settles_prove_iff.2 fun f _ => h.suits f

/-- What the settings ask of a proof is known. -/
def Settings.Known (s : Settings) : Prop := (s.complete {}).Known

theorem Strategy.exists_names {v : String} (h : v ∈ Strategy.registry.names) :
    ∃ s, Strategy.registry.Names (.str v) s := by
  obtain rfl | rfl : v = Strategy.saturation.name ∨ v = Strategy.cancellation.name := by
    simpa [Registry.names, Strategy.registry] using h
  · exact ⟨.saturation, _, rfl, rfl⟩
  · exact ⟨.cancellation, _, rfl, rfl⟩

theorem Table.exists_names {v : String} (h : v ∈ Table.registry.names) :
    ∃ t, Table.registry.Names (.str v) t := by
  obtain rfl | rfl : v = Table.classical.name ∨ v = Table.uniform.name := by
    simpa [Registry.names, Table.registry] using h
  · exact ⟨.classical, _, rfl, rfl⟩
  · exact ⟨.uniform, _, rfl, rfl⟩

theorem Trace.Order.exists_ofValue {v : String}
    (h : v ∈ [Trace.Order.chronological.name, Trace.Order.reverse.name]) :
    (Value.str v).isTrue = true ∧ ∃ order, Trace.Order.ofValue (.str v) = .ok order := by
  obtain rfl | rfl : v = Trace.Order.chronological.name ∨ v = Trace.Order.reverse.name := by
    simpa using h
  · exact ⟨rfl, .chronological, rfl⟩
  · exact ⟨rfl, .reverse, rfl⟩

namespace CommandLine

variable {a : Arguments} {s : Settings}

/-- A value on the command line replaces another one. -/
theorem Given.replaces {p : Json → Prop} {g : Given String} {x : Json} (hx : p x)
    (hg : ∀ v, g = .value v → p (.str v)) :
    p (if (g.toJson .str).isGiven then g.toJson .str else x) := by
  cases g with
  | value v =>
    split
    · exact hg v rfl
    · exact hx
  | nothing => exact hx
  | dashes => exact hx

theorem Arguments.Chosen.exists_order (h : a.Chosen)
    (hs : ∃ order, Trace.Order.ofValue (s.complete {}).order = .ok order) :
    ∃ order, Trace.Order.ofValue (s.complete a.options).order = .ok order := by
  cases ho : a.order with
  | value v =>
    obtain ⟨htrue, horder⟩ := Trace.Order.exists_ofValue (h .order v _ ho rfl)
    have hgiven : (s.complete a.options).order = .str v := by
      rw [Settings.complete, options, ho]
      exact if_pos htrue
    rw [hgiven]
    exact horder
  | nothing | dashes =>
    have hkept : (s.complete a.options).order = (s.complete {}).order := by
      rw [Settings.complete, options, ho]
      rfl
    rw [hkept]
    exact hs

/-- A limit on the command line other than two hyphens is a number. -/
theorem Arguments.limitOf?_complete_ne_none (hs : limitOf? (s.complete {}).maxSteps ≠ none)
    (hlimit : a.maxSteps ≠ .dashes) : limitOf? (s.complete a.options).maxSteps ≠ none := by
  cases hm : a.maxSteps with
  | nothing =>
    have hkept : (s.complete a.options).maxSteps = (s.complete {}).maxSteps := by
      rw [Settings.complete, options, hm]
      rfl
    rw [hkept]
    exact hs
  | value n =>
    have hgiven : (s.complete a.options).maxSteps = .int n := by
      rw [Settings.complete, options, hm]
      rfl
    rw [hgiven]
    exact Option.some_ne_none _
  | dashes => exact absurd hm hlimit

theorem Arguments.Chosen.known (h : a.Chosen) (hs : s.Known) (hlimit : a.maxSteps ≠ .dashes) :
    (s.complete a.options).Known where
  strategy :=
    Given.replaces (p := fun x => ∃ s, Strategy.registry.Names x s) hs.strategy fun v hv =>
      Strategy.exists_names (h .strategy v _ hv rfl)
  table :=
    Given.replaces (p := fun x => ∃ t, Table.registry.Names x t) hs.table fun v hv =>
      Table.exists_names (h .table v _ hv rfl)
  order := h.exists_order hs.order
  maxSteps := limitOf?_complete_ne_none hs.maxSteps hlimit

/-! ### What a run leaves behind -/

/-- The entry of a line on the error stream: the log of its proof from a level on, or a complaint
that tells the line and why its proof failed. -/
def entry (o : Options) (level : LogLevel) (l : String) : String :=
  match prove o l with
  | .ok r =>
    String.join ((r.records.filter fun m => decide (level.value ≤ m.level)).map (·.text ++ "\n"))
  | .error e => "propatlas: " ++ l ++ ": " ++ e.message ++ "\n"

/-- What a run on a file leaves behind is put together from what the lines of the file come to, each
on its own. -/
structure Answers (a : Arguments) (o : Options) (level : LogLevel) (ls : List String)
    (r : Result) : Prop where
  /-- As data, the output is the list of all reports. -/
  data : a.json = true →
    r.output = (Value.list ((reports o ls).map Report.toValue)).jsonText (some "  ") ++ "\n"
  /-- As summaries, it is one after the other. -/
  summaries : a.json = false → a.summary = true →
    r.output = String.join ((reports o ls).map (·.summary ++ "\n"))
  /-- In full, it is one text after the other. -/
  texts : a.json = false → a.summary = false → ∃ ts,
    List.Forall₂ (fun report t => report.render = .ok t) (reports o ls) ts ∧
      r.output = String.join (ts.map (· ++ "\n"))
  /-- On the error stream every line has its entry. -/
  errors : r.errors = String.join (ls.map (entry o level))
  /-- The status of a run with a line whose proof failed. -/
  failed : (∃ l ∈ ls, ∃ e, prove o l = .error e) → r.status = 2
  /-- The status of a run on theorems. -/
  proved : (∀ l ∈ ls, ∃ report, prove o l = .ok report ∧ report.isTheorem = true) → r.status = 0
  /-- The status of a run without failures in which not all are theorems. -/
  refuted : (∀ l ∈ ls, ∃ report, prove o l = .ok report) →
    (∃ l ∈ ls, ∃ report, prove o l = .ok report ∧ report.isTheorem = false) → r.status = 1

end CommandLine

end PropProver
