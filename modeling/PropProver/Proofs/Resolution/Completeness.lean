import Mathlib.Tactic.ByContra
import PropProver.Proofs.Resolution.Entailment

/-!
# Completeness of resolution

A list of clauses covers a clause if one of them is contained in it. A list is saturated if it
covers all resolvents of its members but tautologies; neither the resolvents themselves nor the
clauses that were left out for a smaller one have to be in it.

A saturated list covers every clause that it entails, unless the clause is a tautology
(`Saturated.covers_of_entailed`). If no member is contained in another, the list has exactly the
prime implicates (`Saturated.mem_iff_primeImplicate`).
-/

namespace PropProver.LiteralSet

/-! ### Covering -/

/-- Some clause of the list is contained in the clause. -/
def Covers (cs : List LiteralSet) (c : LiteralSet) : Prop := ∃ d ∈ cs, d ⊆ c

theorem Covers.of_mem {cs : List LiteralSet} {c : LiteralSet} (h : c ∈ cs) : Covers cs c :=
  ⟨c, h, subset_refl c⟩

theorem Covers.mono {cs : List LiteralSet} {c d : LiteralSet} (h : Covers cs c) (hcd : c ⊆ d) :
    Covers cs d := by
  obtain ⟨e, he, hec⟩ := h
  exact ⟨e, he, subset_trans hec hcd⟩

/-- A list that covers all members of another covers all that the other covers. -/
theorem Covers.trans {cs ds : List LiteralSet} {c : LiteralSet} (h : Covers cs c)
    (hds : ∀ d ∈ cs, Covers ds d) : Covers ds c := by
  obtain ⟨e, he, hec⟩ := h
  exact (hds e he).mono hec

theorem Covers.of_subset {cs ds : List LiteralSet} {c : LiteralSet} (h : Covers cs c)
    (hds : ∀ d ∈ cs, d ∈ ds) : Covers ds c :=
  h.trans fun d hd => .of_mem (hds d hd)

theorem covers_append {cs ds : List LiteralSet} {c : LiteralSet} :
    Covers (cs ++ ds) c ↔ Covers cs c ∨ Covers ds c := by
  simp only [Covers, List.mem_append, or_and_right, exists_or]

theorem isSubsumedBy_eq_false_iff {cs : List LiteralSet} {c : LiteralSet} :
    c.isSubsumedBy cs = false ↔ ¬ Covers cs c := by
  rw [← Bool.not_eq_true, isSubsumedBy_iff]
  rfl

/-- A covered clause holds where the clauses of the list do. -/
theorem Covers.holds {cs : List LiteralSet} {c : LiteralSet} (h : Covers cs c) {v : Assignment}
    (hv : ∀ d ∈ cs, d.Holds v) : c.Holds v := by
  obtain ⟨d, hd, hdc⟩ := h
  exact (hv d hd).mono hdc

/-! ### Saturated lists -/

/-- All resolvents of members are tautologies or covered. -/
def Saturated (cs : List LiteralSet) : Prop :=
  ∀ c ∈ cs, ∀ d ∈ cs, ∀ r ∈ resolvents c d, r.isTautology = false → Covers cs r

/-- A set of literals decides an atom if it has one of the atom's literals. -/
def Decides (f : LiteralSet) (a : String) : Prop := ⟨a, true⟩ ∈ f ∨ ⟨a, false⟩ ∈ f

theorem isTautology_insert {f : LiteralSet} {l : Literal} (hf : f.isTautology = false)
    (hl : l.complement ∉ f) : (f.insert l).isTautology = false := by
  rw [isTautology_eq_false_iff] at *
  intro m hm hm'
  rw [mem_insert] at hm hm'
  rcases hm with rfl | hm
  · rcases hm' with e | hm'
    · exact m.complement_ne e
    · exact hl hm'
  · rcases hm' with e | hm'
    · rw [← e, Literal.complement_complement] at hl
      exact hl hm
    · exact hf m hm hm'

/-- If a set of literals and its two extensions by an undecided atom are such that members of a
saturated list are in both extensions, then the resolvent of these members is in the set itself.
So one of the extensions stays free of members. -/
theorem Saturated.not_covers_insert {cs : List LiteralSet} (h : Saturated cs) {f : LiteralSet}
    (hf : f.isTautology = false) (hcov : ¬ Covers cs f) (l : Literal) :
    ¬ Covers cs (f.insert l) ∨ ¬ Covers cs (f.insert l.complement) := by
  by_contra hcon
  rw [not_or, not_not, not_not] at hcon
  obtain ⟨⟨c, hc, hcf⟩, ⟨d, hd, hdf⟩⟩ := hcon
  have hlc : l ∈ c := by
    by_contra hl
    exact hcov ⟨c, hc, fun m hm => (mem_insert.1 (hcf m hm)).resolve_left fun e => hl (e ▸ hm)⟩
  have hld : l.complement ∈ d := by
    by_contra hl
    exact hcov ⟨d, hd, fun m hm => (mem_insert.1 (hdf m hm)).resolve_left fun e => hl (e ▸ hm)⟩
  have hr : c.erase l ∪ d.erase l.complement ⊆ f := by
    intro m hm
    rcases mem_union.1 hm with hm | hm
    · obtain ⟨hm, hne⟩ := mem_erase.1 hm
      exact (mem_insert.1 (hcf m hm)).resolve_left hne
    · obtain ⟨hm, hne⟩ := mem_erase.1 hm
      exact (mem_insert.1 (hdf m hm)).resolve_left hne
  have hres : c.erase l ∪ d.erase l.complement ∈ resolvents c d :=
    mem_resolvents.2 ⟨l, hlc, hld, rfl⟩
  exact hcov ((h c hc d hd _ hres (isTautology_of_subset hr hf)).mono hr)

/-- A set of literals without members of a saturated list can be extended until it decides given
atoms. -/
theorem Saturated.exists_decides {cs : List LiteralSet} (h : Saturated cs) (as : List String) :
    ∀ {f : LiteralSet}, f.isTautology = false → ¬ Covers cs f →
      ∃ g, f ⊆ g ∧ g.isTautology = false ∧ ¬ Covers cs g ∧ ∀ a ∈ as, g.Decides a := by
  induction as with
  | nil =>
    intro f hf hcov
    exact ⟨f, subset_refl f, hf, hcov, nofun⟩
  | cons a as ih =>
    intro f hf hcov
    -- one atom more is decided, without covering the set
    have step : ∃ g, f ⊆ g ∧ g.isTautology = false ∧ ¬ Covers cs g ∧ g.Decides a := by
      by_cases hd : f.Decides a
      · exact ⟨f, subset_refl f, hf, hcov, hd⟩
      rw [Decides, not_or] at hd
      rcases h.not_covers_insert hf hcov ⟨a, true⟩ with hn | hn
      · exact ⟨_, fun m hm => mem_insert.2 (.inr hm), isTautology_insert (l := ⟨a, true⟩) hf hd.2,
          hn, .inl (mem_insert.2 (.inl rfl))⟩
      · exact ⟨_, fun m hm => mem_insert.2 (.inr hm), isTautology_insert (l := ⟨a, false⟩) hf hd.1,
          hn, .inr (mem_insert.2 (.inl rfl))⟩
    obtain ⟨g, hfg, hg, hgcov, hga⟩ := step
    obtain ⟨k, hgk, hk, hkcov, hka⟩ := ih hg hgcov
    refine ⟨k, subset_trans hfg hgk, hk, hkcov, fun b hb => ?_⟩
    rcases List.mem_cons.1 hb with rfl | hb
    · exact hga.imp (hgk _) (hgk _)
    · exact hka b hb

/-- The assignment that makes the literals of a set false, as far as they do not clash. -/
def falsifier (f : LiteralSet) : Assignment := fun a => decide (⟨a, false⟩ ∈ f)

theorem eval_falsifier {f : LiteralSet} (hf : f.isTautology = false) {l : Literal} (hl : l ∈ f) :
    l.eval f.falsifier = false := by
  obtain ⟨a, p⟩ := l
  cases p with
  | false => simp [Literal.eval, falsifier, hl]
  | true =>
    have : (⟨a, false⟩ : Literal) ∉ f := isTautology_eq_false_iff.1 hf _ hl
    simp [Literal.eval, falsifier, this]

theorem not_holds_falsifier {f : LiteralSet} (hf : f.isTautology = false) :
    ¬ f.Holds f.falsifier := by
  rintro ⟨l, hl, ht⟩
  rw [eval_falsifier hf hl] at ht
  exact Bool.noConfusion ht

/-- Where all atoms of a clause are decided, the clause holds unless it is part of the set. -/
theorem holds_falsifier {f c : LiteralSet} (hf : f.isTautology = false)
    (hdec : ∀ l ∈ c, f.Decides l.atom) (hc : ¬ c ⊆ f) : c.Holds f.falsifier := by
  obtain ⟨l, hl, hlf⟩ : ∃ l ∈ c, l ∉ f := by
    by_contra hcon
    exact hc fun l hl => by_contra fun hlf => hcon ⟨l, hl, hlf⟩
  have hcompl : l.complement ∈ f := by
    obtain ⟨a, p⟩ := l
    cases p with
    | true => exact (hdec _ hl).resolve_left hlf
    | false => exact (hdec _ hl).resolve_right hlf
  refine ⟨l, hl, ?_⟩
  have := eval_falsifier hf hcompl
  rw [Literal.eval_complement] at this
  simpa using this

/-- **Completeness**: a saturated list covers the clauses that it entails. Otherwise the literals
of the clause could be made false together with literals of all other atoms, without making a
member of the list false. -/
theorem Saturated.covers_of_entailed {cs : List LiteralSet} (h : Saturated cs) {c : LiteralSet}
    (hc : c.isTautology = false) (he : c.Entailed fun v => ∀ d ∈ cs, d.Holds v) :
    Covers cs c := by
  by_contra hcov
  obtain ⟨f, hcf, hf, hfcov, hdec⟩ :=
    h.exists_decides (cs.flatMap fun d => d.toList.map Literal.atom) hc hcov
  have hall : ∀ d ∈ cs, d.Holds f.falsifier := by
    intro d hd
    refine holds_falsifier hf (fun l hl => hdec _ ?_) fun hdf => hfcov ⟨d, hd, hdf⟩
    exact List.mem_flatMap.2 ⟨d, hd, List.mem_map.2 ⟨l, hl, rfl⟩⟩
  exact not_holds_falsifier hf ((he _ hall).mono hcf)

/-! ### Prime implicates -/

/-- No clause of the list is contained in another one, nor in a repetition of itself. -/
def Antichain (cs : List LiteralSet) : Prop := cs.Pairwise fun c d => ¬ c ⊆ d ∧ ¬ d ⊆ c

theorem Antichain.nodup {cs : List LiteralSet} (h : Antichain cs) : cs.Nodup := by
  refine List.Pairwise.imp ?_ h
  rintro c _ hcd rfl
  exact hcd.1 (subset_refl c)

theorem Antichain.eq_of_subset {cs : List LiteralSet} (h : Antichain cs) {c d : LiteralSet}
    (hc : c ∈ cs) (hd : d ∈ cs) (hcd : c ⊆ d) : c = d := by
  by_contra hne
  have hsymm : c ≠ d → ¬ c ⊆ d :=
    List.Pairwise.forall_of_forall_of_flip (R := fun x y => x ≠ y → ¬ x ⊆ y)
      (fun _ _ hne => absurd rfl hne) (h.imp fun hxy _ => hxy.1) (h.imp fun hxy _ => hxy.2) hc hd
  exact hsymm hne hcd

/-- A saturated list without redundant clauses consists of the prime implicates of any property of
assignments that it expresses. -/
theorem Saturated.mem_iff_primeImplicate {cs : List LiteralSet} (h : Saturated cs)
    (hanti : Antichain cs) (htaut : ∀ c ∈ cs, c.isTautology = false) {M : Assignment → Prop}
    (hM : ∀ v, M v ↔ ∀ c ∈ cs, c.Holds v) {c : LiteralSet} : c ∈ cs ↔ PrimeImplicate M c := by
  have complete : ∀ d : LiteralSet, d.isTautology = false → d.Entailed M → Covers cs d :=
    fun d hd he => h.covers_of_entailed hd fun v hv => he v ((hM v).2 hv)
  constructor
  · intro hc
    refine ⟨htaut c hc, fun v hv => (hM v).1 hv c hc, fun d hdc hne he => hne ?_⟩
    obtain ⟨e, hecs, hed⟩ := complete d (isTautology_of_subset hdc (htaut c hc)) he
    have hec : e = c := hanti.eq_of_subset hecs hc (subset_trans hed hdc)
    exact subset_antisymm hdc (hec ▸ hed)
  · intro hc
    obtain ⟨e, hecs, hec⟩ := complete c hc.not_tautology hc.entailed
    by_contra hcs
    exact hc.minimal e hec (fun eq => hcs (eq ▸ hecs)) fun v hv => (hM v).1 hv e hecs

end PropProver.LiteralSet
