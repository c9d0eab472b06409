import PropProver.Proofs.Json.Building
import PropProver.Proofs.Json.Keeping
import PropProver.Value.Decoding

/-!
# Values that survive writing and reading

A value comes back from its JSON text exactly if it is storable and no text in it has a pair of
halves (`ofJsonText_jsonText_iff`). What can go wrong is little: a number with more digits than are
read, a name that occurs twice, named values that look like an object of the logic, a member of a
clause or of a clause set that is none, and a high half with a low half behind it, which is read as
one character. But for the last, nothing of this is ever read (`storable_of_ofJsonText`), and the
last only from a document that has halves itself. So what was read once is read again.
-/

namespace PropProver.Value

/-- The names of the kinds of the logic. -/
def kinds : List String :=
  ["Atom", "Not", "Binary", "Literal", "Clause", "ClauseSet", "Sequent"]

/-- Values that can be written and read again, as far as their texts can: these and the names are
of a certain kind. -/
inductive Storable (P : Codes → Prop) : Value → Prop where
  | null : Storable P .null
  | bool (b : Bool) : Storable P (.bool b)
  /-- A number with no more digits than are read. -/
  | int {n : Int} : n.natAbs < 10 ^ Text.digitLimit → Storable P (.int n)
  | str {s : Codes} : P s → Storable P (.str s)
  | list {xs : List Value} : (∀ x ∈ xs, Storable P x) → Storable P (.list xs)
  /-- Named values with different names, whose field `_type` names no kind of the logic. -/
  | dict {fs : Fields Value Codes} : (Fields.names fs).Nodup →
      (∀ kind ∈ kinds, fs.get? kindField ≠ some (.str kind)) →
      (∀ f ∈ fs, P f.1) → (∀ f ∈ fs, Storable P f.2) → Storable P (.dict fs)
  | atom {x : Value} : Storable P x → Storable P (.atom x)
  | neg {x : Value} : Storable P x → Storable P (.neg x)
  | bin (op : Connective) {l r : Value} : Storable P l → Storable P r →
      Storable P (.bin op l r)
  | literal {a p : Value} : Storable P a → Storable P p → Storable P (.literal a p)
  /-- A clause of formulas. -/
  | clause {xs : List Value} : (∀ x ∈ xs, x.isFormula = true) → (∀ x ∈ xs, Storable P x) →
      Storable P (.clause xs)
  /-- A set of clauses. -/
  | clauseSet {xs : List Value} : (∀ x ∈ xs, x.isClause = true) → (∀ x ∈ xs, Storable P x) →
      Storable P (.clauseSet xs)
  | sequent {l r : List Value} : (∀ x ∈ l, Storable P x) → (∀ x ∈ r, Storable P x) →
      Storable P (.sequent l r)

variable {P : Codes → Prop}

/-! ### What is read is storable -/

theorem storable_ofScalar {x : Json.Scalar} (h : x.IsShort) : (ofScalar x).Storable P := by
  cases h with
  | null => exact .null
  | bool b => exact .bool b
  | int h => exact .int h

/-- A sequence of two steps succeeds if both do. -/
theorem exists_of_bind_eq_ok {ε α β : Type} {x : Except ε α} {f : α → Except ε β} {b : β}
    (h : (x >>= f) = .ok b) : ∃ a, x = .ok a ∧ f a = .ok b := by
  cases x with
  | error e => cases h
  | ok a => exact ⟨a, rfl, h⟩

/-- The parts of an object are found among its fields. -/
theorem storable_of_part {fs : Fields Value Codes} {name : String} {v : Value}
    (h : ∀ f ∈ fs, f.2.Storable P) (hpart : part fs name = .ok v) : v.Storable P := by
  unfold part at hpart
  split at hpart
  · next w hget =>
    cases hpart
    exact h _ (Fields.mem_of_get? hget)
  · cases hpart

theorem storable_of_clauseSetOf {xs : List Value} {w : Value} (h : ∀ x ∈ xs, x.Storable P)
    (hset : clauseSetOf xs = .ok w) : w.Storable P := by
  unfold clauseSetOf at hset
  split at hset
  · cases hset
  · next hfind =>
    cases hset
    exact .clauseSet (by simpa using List.find?_eq_none.1 hfind) h

theorem kind?_eq_some_iff {fs : Fields Value Codes} {kind : String} :
    kind? fs = some kind ↔ fs.get? kindField = some (.str kind) := by
  unfold kind?
  split
  · next s hs => rw [hs, Option.some.injEq, str.injEq, Codes.toString?_eq_some_iff]
  · next hother => exact ⟨nofun, fun h => absurd h (hother _)⟩

section

-- a text is iterated over character by character, so each of these has to be admitted alone
variable (hsingle : ∀ c, P [c])

include hsingle

/-- The items of a storable value are storable. -/
theorem Storable.items {v : Value} {xs : List Value} (h : v.Storable P)
    (hitems : v.items? = some xs) : ∀ x ∈ xs, x.Storable P := by
  cases h
  all_goals cases hitems
  case list h => exact h
  case clause _ h => exact h
  case clauseSet _ h => exact h
  case str s _ =>
    intro x hx
    obtain ⟨c, -, rfl⟩ := List.mem_map.1 hx
    exact .str (hsingle c)
  case dict fs _ _ hnames _ =>
    intro x hx
    obtain ⟨f, hf, rfl⟩ := List.mem_map.1 hx
    exact .str (hnames f hf)

theorem storable_of_itemsOf {v : Value} {xs : List Value} (h : v.Storable P)
    (hitems : itemsOf v = .ok xs) : ∀ x ∈ xs, x.Storable P := by
  unfold itemsOf at hitems
  split at hitems
  · next ys hys =>
    cases hitems
    exact h.items hsingle hys
  · cases hitems

theorem storable_of_clauseOf {v w : Value} (h : v.Storable P) (hclause : clauseOf v = .ok w) :
    w.Storable P := by
  unfold clauseOf at hclause
  split at hclause
  · cases hclause
  · next xs hxs =>
    split at hclause
    · cases hclause
    · next hfind =>
      cases hclause
      exact .clause (by simpa using List.find?_eq_none.1 hfind) (h.items hsingle hxs)

/-- What an object is read as is storable if its fields are. -/
theorem storable_of_ofFields {fs : Fields Value Codes} {v : Value}
    (hnodup : (Fields.names fs).Nodup) (h : ∀ f ∈ fs, P f.1 ∧ f.2.Storable P)
    (hread : ofFields fs = .ok v) : v.Storable P := by
  have hpart {name : String} {w : Value} (hw : part fs name = .ok w) : w.Storable P :=
    storable_of_part (fun f hf => (h f hf).2) hw
  unfold ofFields at hread
  split at hread
  · obtain ⟨x, hx, hread⟩ := exists_of_bind_eq_ok hread
    cases hread
    exact .atom (hpart hx)
  · obtain ⟨x, hx, hread⟩ := exists_of_bind_eq_ok hread
    cases hread
    exact .neg (hpart hx)
  · obtain ⟨x, -, hread⟩ := exists_of_bind_eq_ok hread
    obtain ⟨op, -, hread⟩ := exists_of_bind_eq_ok hread
    obtain ⟨l, hl, hread⟩ := exists_of_bind_eq_ok hread
    obtain ⟨r, hr, hread⟩ := exists_of_bind_eq_ok hread
    cases hread
    exact .bin op (hpart hl) (hpart hr)
  · obtain ⟨a, ha, hread⟩ := exists_of_bind_eq_ok hread
    obtain ⟨p, hp, hread⟩ := exists_of_bind_eq_ok hread
    cases hread
    exact .literal (hpart ha) (hpart hp)
  · obtain ⟨x, hx, hread⟩ := exists_of_bind_eq_ok hread
    exact storable_of_clauseOf hsingle (hpart hx) hread
  · obtain ⟨x, hx, hread⟩ := exists_of_bind_eq_ok hread
    obtain ⟨xs, hxs, hread⟩ := exists_of_bind_eq_ok hread
    exact storable_of_clauseSetOf (storable_of_itemsOf hsingle (hpart hx) hxs) hread
  · obtain ⟨x, hx, hread⟩ := exists_of_bind_eq_ok hread
    obtain ⟨l, hl, hread⟩ := exists_of_bind_eq_ok hread
    obtain ⟨y, hy, hread⟩ := exists_of_bind_eq_ok hread
    obtain ⟨r, hr, hread⟩ := exists_of_bind_eq_ok hread
    cases hread
    exact .sequent (storable_of_itemsOf hsingle (hpart hx) hl)
      (storable_of_itemsOf hsingle (hpart hy) hr)
  · next hother =>
    cases hread
    refine .dict hnodup (fun kind hkind => ?_) (fun f hf => (h f hf).1) fun f hf => (h f hf).2
    rw [Ne, ← kind?_eq_some_iff]
    simp only [kinds, List.mem_cons, List.not_mem_nil, or_false] at hkind
    rcases hkind with rfl | rfl | rfl | rfl | rfl | rfl | rfl <;> assumption

theorem keeps_storable : builder.Keeps P (Storable P) where
  scalar _ := storable_ofScalar
  text _ := .str
  list _ := .list
  object _ _ := storable_of_ofFields hsingle

end

/-- Whatever document a value is read from, it is storable but for the texts in it. -/
theorem storable_of_ofJsonText {text : Codes} {v : Value} (h : ofJsonText text = .ok v) :
    v.Storable fun _ => True := by
  refine (keeps_storable fun _ => trivial).readWith ?_ h
  exact Json.holds_of_mem_lexemes fun _ _ _ _ _ => trivial

/-- No text that is read from a document without halves has a pair of halves. -/
theorem storable_of_ofJsonText_ofString {text : String} {v : Value}
    (h : ofJsonText text = .ok v) : v.Storable Codes.Unpaired :=
  (keeps_storable Codes.unpaired_singleton).readWith (Json.unpaired_of_mem_lexemes text) h

/-! ### What is storable is read back -/

/-- The form in which the value is written is read as the value. -/
def Returns (v : Value) : Prop := Json.build builder v.toWire = .ok v

/-- Items come back if each of them does. -/
theorem buildItems_toWireItems {xs : List Value} (h : ∀ x ∈ xs, x.Returns) :
    Json.buildItems builder (toWireItems xs) = .ok xs := by
  induction xs with
  | nil => rfl
  | cons x xs ih =>
    obtain ⟨hx, hxs⟩ := List.forall_mem_cons.1 h
    rw [toWireItems, Json.buildItems, hx, ih hxs]
    rfl

/-- Named values come back if each of them does and no name has a pair of halves. -/
theorem buildFields_toWireFields {fs : Fields Value Codes} (hnames : ∀ f ∈ fs, f.1.Unpaired)
    (h : ∀ f ∈ fs, f.2.Returns) : Json.buildFields builder (toWireFields fs) = .ok fs := by
  induction fs with
  | nil => rfl
  | cons f fs ih =>
    obtain ⟨hname, hnames⟩ := List.forall_mem_cons.1 hnames
    obtain ⟨hf, hfs⟩ := List.forall_mem_cons.1 h
    rw [toWireFields, Json.buildFields, hf, ih hnames hfs, Codes.joined_eq_self_iff.2 hname]
    rfl

theorem connective_name (op : Connective) : connective (.str op.name) = .ok op := by
  cases op <;> rfl

/-- An object with different names is read as what its fields are read as. -/
theorem build_obj {fs : List (Codes × Wire)} {gs : Fields Value Codes}
    (hfs : Json.buildFields builder fs = .ok gs) (hnodup : (Fields.names gs).Nodup) :
    Json.build builder (.obj fs) = (ofFields gs).mapError .refused := by
  rw [Json.build, hfs]
  show Json.Builder.accept builder gs = _
  rw [Json.Builder.accept, Fields.ofPairs_of_nodup hnodup]
  rfl

/-- Named values that do not look like an object of the logic are read as they are. -/
theorem ofFields_of_not_kind {fs : Fields Value Codes}
    (h : ∀ kind ∈ kinds, fs.get? kindField ≠ some (.str kind)) : ofFields fs = .ok (.dict fs) := by
  unfold ofFields
  split
  case h_8 => rfl
  all_goals
    next heq => exact absurd (kind?_eq_some_iff.1 heq) (h _ (by simp [kinds]))

theorem returns_str {s : Codes} (h : s.Unpaired) : (str s).Returns := by
  rw [Returns, toWire, Json.build, Codes.joined_eq_self_iff.2 h]
  rfl

theorem returns_list {xs : List Value} (h : ∀ x ∈ xs, x.Returns) : (list xs).Returns := by
  rw [Returns, toWire, Json.build, buildItems_toWireItems h]
  rfl

/-- An object of the logic whose parts come back is read as what its parts are read as. -/
theorem build_tagged (kind : String) (parts : Fields Value Codes)
    (h : ∀ f ∈ parts, f.1.Unpaired ∧ f.2.Returns)
    (hnodup : ((kindField : Codes) :: Fields.names parts).Nodup) :
    Json.build builder (tagged kind (toWireFields parts)) =
      (ofFields ((↑kindField, .str kind) :: parts)).mapError .refused := by
  have hall : ∀ f ∈ (((kindField : Codes), .str kind) :: parts : Fields Value Codes),
      f.1.Unpaired ∧ f.2.Returns :=
    List.forall_mem_cons.2
      ⟨⟨Codes.unpaired_ofString _, returns_str (Codes.unpaired_ofString _)⟩, h⟩
  exact build_obj
    (buildFields_toWireFields (fun f hf => (hall f hf).1) fun f hf => (hall f hf).2) hnodup

theorem clauseOf_list {xs : List Value} (h : ∀ x ∈ xs, x.isFormula = true) :
    clauseOf (.list xs) = .ok (.clause xs) := by
  have hfind : xs.find? (!·.isFormula) = none := List.find?_eq_none.2 (by simpa using h)
  simp only [clauseOf, items?, hfind]

theorem clauseSetOf_eq {xs : List Value} (h : ∀ x ∈ xs, x.isClause = true) :
    clauseSetOf xs = .ok (.clauseSet xs) := by
  have hfind : xs.find? (!·.isClause) = none := List.find?_eq_none.2 (by simpa using h)
  rw [clauseSetOf, hfind]

/-- A storable value becomes itself. -/
theorem Storable.returns {v : Value} (h : v.Storable Codes.Unpaired) : v.Returns := by
  -- an object of the logic is written as `tagged` of its parts, which come back by induction
  induction h with
  | null => rfl
  | bool b => rfl
  | @int n h =>
    have hlength : (Nat.toDigits 10 n.natAbs).length ≤ Text.digitLimit :=
      (Nat.length_toDigits_le_iff (by decide) (by decide)).2 h
    rw [Returns, toWire, Json.build, if_neg (Nat.not_lt.2 hlength)]
    rfl
  | str h => exact returns_str h
  | list _ ih => exact returns_list ih
  | dict hnodup hkind hnames _ ih =>
    rw [Returns, toWire, build_obj (buildFields_toWireFields hnames ih) hnodup,
      ofFields_of_not_kind hkind]
    rfl
  | @atom x _ ih =>
    exact build_tagged "Atom" [("name", x)] (by simp [Codes.unpaired_ofString, ih])
      (by simp [Fields.names, kindField])
  | @neg x _ ih =>
    exact build_tagged "Not" [("operand", x)] (by simp [Codes.unpaired_ofString, ih])
      (by simp [Fields.names, kindField])
  | @bin op l r _ _ ihl ihr =>
    have hname := returns_str (Codes.unpaired_ofString op.name)
    have hread := build_tagged "Binary" [("op", .str op.name), ("left", l), ("right", r)]
      (by simp [Codes.unpaired_ofString, hname, ihl, ihr]) (by simp [Fields.names, kindField])
    have hop : ofFields [(kindField, .str "Binary"), ("op", .str op.name), ("left", l),
        ("right", r)] = (connective (.str op.name)).map (.bin · l r) := rfl
    rw [hop, connective_name] at hread
    exact hread
  | @literal a p _ _ iha ihp =>
    exact build_tagged "Literal" [("atom", a), ("polarity", p)]
      (by simp [Codes.unpaired_ofString, iha, ihp]) (by simp [Fields.names, kindField])
  | @clause xs hformula _ ih =>
    have hread := build_tagged "Clause" [("formulas", .list xs)]
      (by simp [Codes.unpaired_ofString, returns_list ih]) (by simp [Fields.names, kindField])
    have hmembers : ofFields [(kindField, .str "Clause"), ("formulas", .list xs)] =
        clauseOf (.list xs) := rfl
    rw [hmembers, clauseOf_list hformula] at hread
    exact hread
  | @clauseSet xs hclause _ ih =>
    have hread := build_tagged "ClauseSet" [("clauses", .list xs)]
      (by simp [Codes.unpaired_ofString, returns_list ih]) (by simp [Fields.names, kindField])
    have hmembers : ofFields [(kindField, .str "ClauseSet"), ("clauses", .list xs)] =
        clauseSetOf xs := rfl
    rw [hmembers, clauseSetOf_eq hclause] at hread
    exact hread
  | @sequent l r _ _ ihl ihr =>
    exact build_tagged "Sequent" [("antecedent", .list l), ("succedent", .list r)]
      (by simp [Codes.unpaired_ofString, returns_list ihl, returns_list ihr])
      (by simp [Fields.names, kindField])

/-- A value is read back from its text, in any layout with a blank margin, exactly if it is
storable and holds no text with a pair of halves. -/
theorem ofJsonText_jsonText_iff {layout : Json.Layout} (hblank : layout.IsBlank) (v : Value) :
    ofJsonText (v.jsonText layout) = .ok v ↔ v.Storable Codes.Unpaired := by
  refine ⟨storable_of_ofJsonText_ofString, fun h => ?_⟩
  rw [ofJsonText, jsonText, Json.readWith_text builder hblank]
  exact h.returns

end PropProver.Value
