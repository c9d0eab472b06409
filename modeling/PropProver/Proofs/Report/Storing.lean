import PropProver.Proofs.Refutation
import PropProver.Proofs.Sequent.Derivation
import PropProver.Proofs.Value.Storable
import PropProver.Report.Encoding

/-!
# Reports that are written and read again

Formulas with any names, clauses, sequents and reports are storable but for the texts in them: a
text comes back exactly if it has no pair of halves. The names that the prover reads have none, so
what can spoil a report is what the prover does not make (`Report.storable_toValue_iff`): the text
of the formula, of which nothing is looked at behind the full stop, and the order of display, which
is passed on as it was asked for. An order that looks like an object of the logic does
(`halves_and_tagged_order_not_survive`).
-/

namespace PropProver

namespace Value

/-- The value is read back from its text, laid out with a number of spaces or on one line. -/
def Survives (indent : Option Nat) (v : Value) : Prop :=
  ofJsonText (v.jsonText (.spaces indent)) = .ok v

theorem survives_iff_storable (indent : Option Nat) (v : Value) :
    v.Survives indent ↔ v.Storable Codes.Unpaired :=
  ofJsonText_jsonText_iff (Json.Layout.isBlank_spaces indent) v

/-! ### Objects of the logic -/

/-- Values that are formulas all through, with names of a certain kind. -/
inductive FormulaOver (P : Codes → Prop) : Value → Prop
  | atom {a : Codes} : P a → FormulaOver P (.atom (.str a))
  | neg {x : Value} : FormulaOver P x → FormulaOver P (.neg x)
  | bin (op : Connective) {l r : Value} : FormulaOver P l → FormulaOver P r →
      FormulaOver P (.bin op l r)

variable {P : Codes → Prop}

theorem FormulaOver.storable {x : Value} (h : FormulaOver P x) : x.Storable P := by
  induction h with
  | atom h => exact .atom (.str h)
  | neg _ ih => exact .neg ih
  | bin op _ _ ihl ihr => exact .bin op ihl ihr

theorem FormulaOver.isFormula {x : Value} (h : FormulaOver P x) : x.isFormula = true := by
  cases h <;> rfl

/-- A formula is storable exactly if its names are. -/
theorem FormulaOver.storable_iff {x : Value} (h : FormulaOver (fun _ => True) x) :
    x.Storable P ↔ FormulaOver P x := by
  refine ⟨fun hx => ?_, FormulaOver.storable⟩
  induction h with
  | atom _ =>
    cases hx with
    | atom hname =>
      cases hname with
      | str h => exact .atom h
  | neg _ ih =>
    cases hx with
    | neg hx => exact .neg (ih hx)
  | bin op _ _ ihl ihr =>
    cases hx with
    | bin _ hl hr => exact .bin op (ihl hl) (ihr hr)

/-- The names of the prover are strings. -/
theorem formulaOver_ofFormula (f : Formula) : FormulaOver Codes.Unpaired (ofFormula f) := by
  induction f with
  | atom a => exact .atom (Codes.unpaired_ofString a)
  | neg f ih => exact .neg ih
  | bin op l r ihl ihr => exact .bin op ihl ihr
  | foreign v => exact v.elim

theorem storable_ofFormula (f : Formula) : (ofFormula f).Storable Codes.Unpaired :=
  (formulaOver_ofFormula f).storable

/-- A clause set whose clauses have the given members. -/
def ofClauses (cs : List (List Value)) : Value := .clauseSet (cs.map .clause)

theorem storable_clause {xs : List Value} (h : ∀ x ∈ xs, FormulaOver P x) :
    (clause xs).Storable P :=
  .clause (fun x hx => (h x hx).isFormula) fun x hx => (h x hx).storable

theorem storable_ofClauses {cs : List (List Value)} (h : ∀ xs ∈ cs, ∀ x ∈ xs, FormulaOver P x) :
    (ofClauses cs).Storable P := by
  apply Storable.clauseSet
  · exact List.forall_mem_map.2 fun _ _ => rfl
  · exact List.forall_mem_map.2 fun xs hxs => storable_clause (h xs hxs)

/-- A set of clauses of formulas is storable exactly if the names of the formulas are. -/
theorem storable_ofClauses_iff {cs : List (List Value)}
    (h : ∀ xs ∈ cs, ∀ x ∈ xs, FormulaOver (fun _ => True) x) :
    (ofClauses cs).Storable P ↔ ∀ xs ∈ cs, ∀ x ∈ xs, FormulaOver P x := by
  refine ⟨fun hset xs hxs x hx => ?_, storable_ofClauses⟩
  cases hset with
  | clauseSet _ hclauses =>
    cases hclauses (.clause xs) (List.mem_map_of_mem hxs) with
    | clause _ hmembers => exact ((h xs hxs x hx).storable_iff).1 (hmembers x hx)

theorem storable_ofLiterals (ls : List Literal) : (ofLiterals ls).Storable Codes.Unpaired :=
  storable_clause (List.forall_mem_map.2 fun l _ => formulaOver_ofFormula l.toTree)

theorem storable_ofSequent (s : Sequent Empty) :
    (ofSequent Empty.elim s).Storable Codes.Unpaired := by
  apply Storable.sequent
  · exact List.forall_mem_map.2 fun f _ => storable_ofFormula f
  · exact List.forall_mem_map.2 fun f _ => storable_ofFormula f

/-! ### Records -/

/-- A record is storable if its names are strings, and none of them is the one that tells a kind. -/
theorem storable_record {fs : Fields Value Codes} (names : List String)
    (hnames : Fields.names fs = names.map Codes.ofString) (hnodup : (kindField :: names).Nodup)
    (h : ∀ f ∈ fs, f.2.Storable Codes.Unpaired) : (dict fs).Storable Codes.Unpaired := by
  obtain ⟨hkind, hnodup⟩ := List.nodup_cons.1 hnodup
  have hmem {f : Codes × Value} (hf : f ∈ fs) : ∃ name ∈ names, Codes.ofString name = f.1 :=
    List.mem_map.1 (hnames ▸ List.mem_map_of_mem hf)
  refine .dict ?_ (fun kind _ hget => ?_) (fun f hf => ?_) h
  · rw [hnames]
    exact hnodup.map fun _ _ => Codes.ofString_inj.1
  · obtain ⟨name, hname, heq⟩ := hmem (Fields.mem_of_get? hget)
    exact hkind (Codes.ofString_inj.1 heq ▸ hname)
  · obtain ⟨name, -, heq⟩ := hmem hf
    exact heq ▸ Codes.unpaired_ofString name

theorem storable_ofString (s : String) : (str s).Storable Codes.Unpaired :=
  .str (Codes.unpaired_ofString s)

theorem storable_list_map {α : Type} {xs : List α} {g : α → Value}
    (h : ∀ x ∈ xs, (g x).Storable P) : (list (xs.map g)).Storable P :=
  .list (List.forall_mem_map.2 h)

/-- A set of literals is written as a list, and the list is read back. -/
theorem storable_ofLiteralSet (s : LiteralSet) : (ofLiteralSet s).Storable Codes.Unpaired :=
  storable_list_map fun l _ => .literal (storable_ofString l.atom) (.bool l.polarity)

theorem storable_nat {n : Nat} (h : n < 10 ^ Text.digitLimit) : (int n).Storable P := .int h

theorem storable_ofText? (s : Option String) : (ofText? s).Storable Codes.Unpaired := by
  cases s with
  | none => exact .null
  | some s => exact storable_ofString s

end Value

open Value

/-- An entry is storable if its indices are. -/
theorem Trace.Entry.storable_toValue {e : Trace.Entry Empty}
    (hindex : e.index < 10 ^ Text.digitLimit)
    (hparent : ∀ p, e.parent = some p → p < 10 ^ Text.digitLimit) :
    (e.toValue Empty.elim).Storable Codes.Unpaired := by
  have hofNat : (ofNat? e.parent).Storable Codes.Unpaired := by
    cases hp : e.parent with
    | none => exact .null
    | some p => exact storable_nat (hparent p hp)
  refine storable_record ["index", "sequent", "parent", "rule"] rfl (by decide) ?_
  simp only [List.forall_mem_cons]
  exact ⟨storable_nat hindex, storable_ofSequent _, hofNat, storable_ofText? _,
    List.forall_mem_nil _⟩

/-- A coherent trace is storable if its number of entries is. -/
theorem Trace.Coherent.storable_toValue {t : Trace Empty} (h : t.Coherent)
    (hsize : t.size ≤ 10 ^ Text.digitLimit) : (t.toValue Empty.elim).Storable Codes.Unpaired := by
  have hindex : ∀ e ∈ t.entries, e.index < 10 ^ Text.digitLimit := fun e he =>
    Nat.lt_of_lt_of_le (h.index_lt he) hsize
  refine storable_record ["entries", "leaves"] rfl (by decide) ?_
  simp only [List.forall_mem_cons]
  refine ⟨storable_list_map fun e he => ?_, storable_list_map fun e he => ?_, List.forall_mem_nil _⟩
  · exact Entry.storable_toValue (hindex e he) fun p hp =>
      Nat.lt_trans (h.parent_lt e he p hp) (hindex e he)
  · rw [leaves_eq_filter] at he
    exact storable_nat (hindex e (List.mem_of_mem_filter he))

/-- The number of given clauses, if the strategy counts them. -/
def Outcome.givenCount : Outcome → Nat
  | .saturation o => o.given
  | .cancellation _ => 0

theorem Outcome.storable_figures {o : Outcome} (h : o.givenCount < 10 ^ Text.digitLimit) :
    o.figures.Storable Codes.Unpaired := by
  cases o with
  | saturation o =>
    refine storable_record ["given_clauses"] rfl (by decide) ?_
    simp only [List.forall_mem_cons]
    exact ⟨storable_nat h, List.forall_mem_nil _⟩
  | cancellation o =>
    refine storable_record ["positive_pool", "negative_pool"] rfl (by decide) ?_
    simp only [List.forall_mem_cons]
    exact ⟨storable_list_map fun s _ => storable_ofString s,
      storable_list_map fun s _ => storable_ofString s, List.forall_mem_nil _⟩

theorem Refutation.storable_toValue {r : Refutation Empty}
    (h : r.outcome.givenCount < 10 ^ Text.digitLimit) (f : Formula) :
    (r.toValue f).Storable Codes.Unpaired := by
  have hclauses : (clauseSet (r.normalForm.clauses.map .ofLiterals)).Storable Codes.Unpaired := by
    apply Storable.clauseSet
    · exact List.forall_mem_map.2 fun _ _ => rfl
    · exact List.forall_mem_map.2 fun ls _ => storable_ofLiterals ls
  refine storable_record ["formula", "negated", "clauses", "is_theorem", "strategy", "table",
    "steps", "metadata"] rfl (by decide) ?_
  simp only [List.forall_mem_cons]
  exact ⟨storable_ofFormula f, storable_ofFormula (.neg f), hclauses, .bool _, storable_ofString _,
    storable_ofString _, storable_list_map fun a _ => storable_ofString a.text,
    Outcome.storable_figures h, List.forall_mem_nil _⟩

namespace Report

/-- The counts of a report have no more digits than are read. -/
structure HasShortCounts (r : Report) : Prop where
  givenCount_lt : r.refutation.outcome.givenCount < 10 ^ Text.digitLimit
  size_le : r.search.trace.size ≤ 10 ^ Text.digitLimit

/-- A report with a coherent trace is storable exactly if its text and the order of display are. -/
theorem storable_toValue_iff {r : Report} (htrace : r.search.trace.Coherent)
    (hshort : r.HasShortCounts) :
    r.toValue.Storable Codes.Unpaired ↔ r.text.Unpaired ∧ r.order.Storable Codes.Unpaired := by
  constructor
  · intro h
    cases h with
    | dict _ _ _ hfields =>
      have htext : (str r.text).Storable Codes.Unpaired := hfields ("text", str r.text) (by simp)
      have horder := hfields ("display_order", r.order) (by simp)
      cases htext with
      | str htext => exact ⟨htext, horder⟩
  · rintro ⟨htext, horder⟩
    refine storable_record ["text", "formula", "is_theorem", "status", "refutation", "trace",
      "display_order"] rfl (by decide) ?_
    simp only [List.forall_mem_cons]
    exact ⟨.str htext, storable_ofFormula _, .bool _, storable_ofString _,
      Refutation.storable_toValue hshort.givenCount_lt _,
      htrace.storable_toValue hshort.size_le, horder, List.forall_mem_nil _⟩

/-- The text and the order are passed on as they were given, and the trace is that of the search. -/
theorem of_prove {o : Options} {text : Codes} {r : Report} (h : prove o text = .ok r) :
    r.text = text ∧ r.order = o.order ∧ r.search = r.formula.search := by
  unfold prove at h
  obtain ⟨f, -, h⟩ := exists_of_bind_eq_ok h
  obtain ⟨s, -, h⟩ := exists_of_bind_eq_ok h
  obtain ⟨t, -, h⟩ := exists_of_bind_eq_ok h
  obtain ⟨refutation, -, h⟩ := exists_of_bind_eq_ok h
  cases h
  exact ⟨rfl, rfl, rfl⟩

/-- The trace of a report is coherent. -/
theorem coherent_of_prove {o : Options} {text : Codes} {r : Report} (h : prove o text = .ok r) :
    r.search.trace.Coherent := by
  rw [(of_prove h).2.2]
  exact r.formula.search_unfolding.coherent

end Report

theorem choose_saturation :
    Strategy.registry.choose (.str "saturation") = .ok (.known .saturation) := by
  rfl

theorem choose_classical :
    Table.registry.choose (.str "classical") = .ok (.known .classical) := by
  rfl

/-- With saturation and the classical table, every formula that can be read has a report. -/
theorem exists_prove {text : Codes} {f : Formula} (h : Formula.ofCodes text = .ok f)
    (order : Value) :
    ∃ found, f.refute .saturation .classical none = .ok found ∧
      prove ⟨.str "saturation", .str "classical", .null, order⟩ text =
        .ok ⟨text, f, found, f.search, order⟩ := by
  obtain ⟨found, hfound, -⟩ := f.exists_refute_saturation .classical
  refine ⟨found, hfound, ?_⟩
  have hrefute : f.refuteBy .null (.known .saturation) (.known .classical) = .ok found := by
    rw [Formula.refuteBy, Formula.refuteWithin]
    simp only [limitOf?, hfound]
    rfl
  rw [prove, h]
  simp only [choose_saturation, choose_classical, Except.mapError, bind, Except.bind, hrefute]
  rfl

/-- An atom that is named by a high half and a low one is not storable. -/
theorem not_storable_pair :
    ¬ (Value.atom (.str [.high 0, .low 0])).Storable Codes.Unpaired := by
  intro h
  cases h with
  | atom hname =>
    cases hname with
    | str h => exact h 0 0 ⟨[], [], rfl⟩

/-- Named values with a field that names a kind of the logic are not storable. -/
theorem not_storable_kind {kind : String} (hkind : kind ∈ kinds) :
    ¬ (Value.dict [(kindField, .str kind)]).Storable Codes.Unpaired := by
  intro h
  cases h with
  | dict _ hother _ _ => exact hother kind hkind (by simp [Fields.get?_cons])

theorem ofCodes_atom : Formula.ofCodes "P." = .ok (.atom "P") := by
  have htext : Formula.ofText "P." = .ok (.atom "P") := by decide +kernel
  rw [Formula.ofCodes_ofString, htext]
  rfl

/-- An atom has a report, whatever the order of display is, and its counts are short. -/
theorem exists_prove_atom (order : Value) :
    ∃ r, prove ⟨.str "saturation", .str "classical", .null, order⟩ "P." = .ok r ∧
      r.HasShortCounts ∧ r.search.trace.Coherent ∧ r.order = order := by
  obtain ⟨found, hfound, hprove⟩ := exists_prove ofCodes_atom order
  have hcount : (Formula.refute .saturation .classical none (.atom "P")).toOption.map
      (·.outcome.givenCount) = some 1 := by
    decide +kernel
  have hsize : (Search.ofTree (.atom "P" : Formula)).toOption.map (·.trace.size) = some 1 := by
    decide +kernel
  rw [hfound] at hcount
  rw [(Formula.exists_search (.atom "P")).1] at hsize
  have hgiven : found.outcome.givenCount = 1 := Option.some.inj hcount
  have hentries : (Formula.search (.atom "P")).trace.size = 1 := Option.some.inj hsize
  refine ⟨_, hprove, ⟨?_, ?_⟩, Report.coherent_of_prove hprove, rfl⟩
  · exact hgiven ▸ Nat.one_lt_pow (by decide) (by decide)
  · exact hentries ▸ Nat.one_le_pow _ _ (by decide)

/-- **Storage**: a value is read back from its text, laid out with any number of spaces or on one
line, exactly if it is storable and no text in it has a pair of halves. Everything that is read from
a text is storable but for the texts in it; if the text has no halves itself, no text that is read
has a pair, and what was read is read back when it is written again. A formula is read back exactly
if no name in it has a pair, and so is a set of clauses of formulas. A report, if its counts are
short enough to be read at all, is read back exactly if its text has no pair and the order of
display that was asked for is storable; a text is. -/
theorem jsonText_survives :
    (∀ (indent : Option Nat) (v : Value), v.Survives indent ↔ v.Storable Codes.Unpaired) ∧
    (∀ (text : Codes) (v : Value), ofJsonText text = .ok v → v.Storable fun _ => True) ∧
    (∀ (text : String) (v : Value), ofJsonText text = .ok v →
      v.Storable Codes.Unpaired ∧ ∀ indent, v.Survives indent) ∧
    (∀ (indent : Option Nat) (f : Value), FormulaOver (fun _ => True) f →
      (f.Survives indent ↔ FormulaOver Codes.Unpaired f)) ∧
    (∀ (indent : Option Nat) (cs : List (List Value)),
      (∀ fs ∈ cs, ∀ f ∈ fs, FormulaOver (fun _ => True) f) →
      ((ofClauses cs).Survives indent ↔ ∀ fs ∈ cs, ∀ f ∈ fs, FormulaOver Codes.Unpaired f)) ∧
    (∀ (o : Options) (text : Codes) (r : Report), prove o text = .ok r → r.HasShortCounts →
      ∀ indent,
        (r.toValue.Survives indent ↔ text.Unpaired ∧ o.order.Storable Codes.Unpaired) ∧
        ∀ (t order : String), text = t → o.order = .str order → r.toValue.Survives indent) := by
  refine ⟨survives_iff_storable, fun text v => storable_of_ofJsonText, ?_, ?_, ?_, ?_⟩
  · intro text v h
    have hstorable := storable_of_ofJsonText_ofString h
    exact ⟨hstorable, fun indent => (survives_iff_storable indent v).2 hstorable⟩
  · exact fun indent f h => (survives_iff_storable indent f).trans h.storable_iff
  · exact fun indent cs h => (survives_iff_storable indent _).trans (storable_ofClauses_iff h)
  · intro o text r h hshort indent
    have hiff := (survives_iff_storable indent _).trans
      (Report.storable_toValue_iff (Report.coherent_of_prove h) hshort)
    rw [(Report.of_prove h).1, (Report.of_prove h).2.1] at hiff
    refine ⟨hiff, ?_⟩
    rintro t order rfl horder
    rw [hiff, horder]
    exact ⟨Codes.unpaired_ofString t, storable_ofString order⟩

/-- An atom that is named by a high half and a low one is a plain formula, but is not read back. And
an order of display that looks like an atom is accepted, but the report is not read back. -/
theorem halves_and_tagged_order_not_survive :
    (FormulaOver (fun _ => True) (.atom (.str [.high 0, .low 0])) ∧
      ∀ indent, ¬ (Value.atom (.str [.high 0, .low 0])).Survives indent) ∧
    ∃ r, prove ⟨.str "saturation", .str "classical", .null, .dict [("_type", .str "Atom")]⟩ "P." =
        .ok r ∧
      r.HasShortCounts ∧ ∀ indent, ¬ r.toValue.Survives indent := by
  obtain ⟨r, hprove, hshort, htrace, horder⟩ :=
    exists_prove_atom (.dict [("_type", .str "Atom")])
  refine ⟨⟨.atom trivial, fun indent h => ?_⟩, r, hprove, hshort, fun indent h => ?_⟩
  · exact not_storable_pair ((survives_iff_storable indent _).1 h)
  · have hstorable := (survives_iff_storable indent _).1 h
    have hdisplay := ((Report.storable_toValue_iff htrace hshort).1 hstorable).2
    rw [horder] at hdisplay
    exact not_storable_kind (by simp [kinds]) hdisplay

end PropProver
