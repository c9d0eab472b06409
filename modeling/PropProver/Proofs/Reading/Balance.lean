import PropProver.Proofs.Reading.Machine

/-!
# What holds while tokens are read

Every moment of a reading keeps to some rules (`Moment.Sound`, `Reached.kept`): only opening brackets,
negations and binary connectives wait on the first stack, so that no token lacks an entry; and the
formulas exceed the binary connectives that wait by one at most, and not at all while an operand is
expected. So at the end there are never two formulas. There is none only if all tokens are brackets,
since a formula never goes away and no connective is completed without one
(`Reached.exists_brackets`).
-/

namespace PropProver.Reading

/-! ### The rules of a moment -/

/-- The token can wait on the first stack. -/
def Waits (t : Token) : Prop := t.kind = .openBracket ∨ t.kind = .not ∨ t.kind.isBinary = true

/-- The formulas that are there, less the binary connectives that wait. -/
def balance (cs : List Token) (fs : List Formula) : Int :=
  fs.length - cs.countP (·.kind.isBinary)

/-- The rules that every moment keeps to. -/
structure Moment.Sound (m : Moment) : Prop where
  /-- Only brackets, negations and binary connectives wait. -/
  waits : ∀ t ∈ m.connectives, Waits t
  /-- There is at most one formula that no waiting connective needs. -/
  balance_le_one : balance m.connectives m.formulas ≤ 1
  /-- There is none while an operand is expected. -/
  balance_le_zero : m.expectsOperand = true → balance m.connectives m.formulas ≤ 0

variable {t u : Token} {ts cs : List Token} {fs gs : List Formula} {m n : Moment}

@[simp] theorem balance_formula (cs : List Token) (x : Formula) (fs : List Formula) :
    balance cs (x :: fs) = balance cs fs + 1 := by
  simp only [balance, List.length_cons]
  omega

theorem balance_binary (h : u.kind.isBinary = true) (cs : List Token) (fs : List Formula) :
    balance (u :: cs) fs = balance cs fs - 1 := by
  simp only [balance, List.countP_cons, h, if_true]
  omega

theorem balance_of_not_binary (h : u.kind.isBinary = false) (cs : List Token)
    (fs : List Formula) : balance (u :: cs) fs = balance cs fs := by
  simp [balance, h]

/-- A completed token leaves one formula in the place of its operands. -/
theorem balance_reduce (h : reduce u fs = .ok gs) : balance cs gs = balance (u :: cs) fs := by
  unfold reduce at h
  split at h
  · next hk =>
    cases h
    rw [balance_of_not_binary (by rw [hk]; rfl), balance_formula, balance_formula]
  · next hk =>
    cases h
    rw [balance_binary (by rw [hk]; rfl), balance_formula, balance_formula, balance_formula]
    omega
  · cases h
  · cases h

/-- A moment keeps to the rules, and only a binary connective is about to wait as one. -/
structure Moment.Kept (m : Moment) : Prop extends m.Sound where
  /-- The token of the task is a binary connective. -/
  binary : ∀ t ts, m.task = .binary t ts → t.kind.isBinary = true

theorem kept_start (ts : List Token) : (Moment.start ts).Kept where
  waits := nofun
  balance_le_one := (by decide : (0 : Int) ≤ 1)
  balance_le_zero _ := Int.le_refl 0
  binary := nofun

/-- A move keeps to the rules. -/
theorem Moment.Kept.moved (h : m.Kept) (hn : Moved m n) : n.Kept := by
  cases hn with
  | @complete u cs gs hm hu hgs =>
    have hbalance : balance cs gs = balance m.connectives m.formulas := by
      rw [balance_reduce hgs, hm]
    exact
      { waits := fun v hv => h.waits v (hm ▸ List.mem_cons_of_mem u hv)
        balance_le_one := hbalance.trans_le h.balance_le_one
        balance_le_zero := fun he => hbalance.trans_le (h.balance_le_zero he)
        binary := h.binary }
  | @wait t ts htask ht he =>
    have hbalance : balance (t :: m.connectives) m.formulas = balance m.connectives m.formulas :=
      balance_of_not_binary (by rcases ht with hk | hk <;> rw [hk] <;> rfl) _ _
    exact
      { waits := List.forall_mem_cons.2 ⟨ht.imp_right .inl, h.waits⟩
        balance_le_one := hbalance.trans_le h.balance_le_one
        balance_le_zero := fun _ => hbalance.trans_le (h.balance_le_zero he)
        binary := nofun }
  | @atom t ts htask he =>
    have hbalance := balance_formula m.connectives (.atom t.lexeme) m.formulas
    exact
      { waits := h.waits
        balance_le_one := hbalance.trans_le (Int.add_le_add_right (h.balance_le_zero he) 1)
        balance_le_zero := nofun
        binary := nofun }
  | @binary t ts htask ht =>
    exact { h with binary := by rintro _ _ ⟨⟩; exact ht }
  | close => exact { h with binary := nofun }
  | @push t ts htask =>
    have hbalance := balance_binary (h.binary t ts htask) m.connectives m.formulas
    have hle : balance (t :: m.connectives) m.formulas ≤ 0 := by
      have := h.balance_le_one
      omega
    exact
      { waits := List.forall_mem_cons.2 ⟨.inr (.inr (h.binary t ts htask)), h.waits⟩
        balance_le_one := Int.le_trans hle (by decide)
        balance_le_zero := fun _ => hle
        binary := nofun }
  | @closed t u ts cs htask hm hu =>
    have hbalance : balance cs m.formulas = balance m.connectives m.formulas := by
      rw [hm, balance_of_not_binary (by rw [hu]; rfl)]
    exact
      { waits := fun v hv => h.waits v (hm ▸ List.mem_cons_of_mem u hv)
        balance_le_one := hbalance.trans_le h.balance_le_one
        balance_le_zero := nofun
        binary := nofun }

theorem Reached.kept (h : Reached ts m) : m.Kept := by
  induction h with
  | start => exact kept_start ts
  | move _ hmove ih => exact ih.moved (moved_of_move hmove)

/-! ### Where the machine does not stop -/

theorem exists_strength_of_isBinary (h : u.kind.isBinary = true) : ∃ k, strength? u = some k := by
  unfold strength?
  cases hk : u.kind with
  | binary op => exact ⟨_, rfl⟩
  | _ => rw [hk] at h; cases h

theorem exists_strength_of_waits (h : Waits u) (hu : u.kind ≠ .openBracket) :
    ∃ k, strength? u = some k := by
  rcases h with hk | hk | hk
  · exact absurd hk hu
  · exact ⟨_, strength?_not hk⟩
  · exact exists_strength_of_isBinary hk

theorem reduce_ne_noEntry (h : Waits u) (hu : u.kind ≠ .openBracket) (v : Token) :
    reduce u fs ≠ .error (.noEntry v) := by
  unfold reduce
  rcases h with hk | hk | hk
  · exact absurd hk hu
  · rw [hk]
    cases fs <;> exact nofun
  · cases hop : u.kind with
    | binary op =>
      match fs with
      | [] => exact nofun
      | [_] => exact nofun
      | _ :: _ :: _ => exact nofun
    | _ =>
      rw [hop] at hk
      cases hk

/-- No move comes upon a token without an entry. -/
theorem Moment.Kept.move_ne_noEntry (h : m.Kept) (v : Token) : m.move ≠ .stop (.noEntry v) := by
  intro hmove
  cases stopped_of_move hmove with
  | @top u _ cs hcs hu hno =>
    have hwaits : Waits u := h.waits u (hcs ▸ List.mem_cons_self)
    rcases hno with hno | hno
    · exact reduce_ne_noEntry hwaits hu v hno
    · obtain ⟨k, hk⟩ := exists_strength_of_waits hwaits hu
      rw [hk] at hno
      cases hno
  | @task t ts htask hno =>
    obtain ⟨k, hk⟩ := exists_strength_of_isBinary (h.binary _ _ htask)
    rw [hk] at hno
    cases hno

/-- Several formulas are never left. -/
theorem Moment.Kept.move_ne_leftOver (h : m.Kept) (k : Nat) :
    m.move ≠ .stop (.refused (.leftOver k)) := by
  intro hmove
  cases stopped_of_move hmove with
  | named hnames => cases hnames
  | leftOver _ hcs hfs =>
    have hle := h.balance_le_one
    rw [hcs, hfs, balance_formula, balance_formula] at hle
    simp only [balance, List.countP_nil] at hle
    omega

/-- The token is a bracket. -/
def IsBracket (t : Token) : Prop := t.kind = .openBracket ∨ t.kind = .closeBracket

/-- The tokens that have not been read. -/
def Task.left : Task → List Token
  | .next ts => ts
  | .binary t ts => t :: ts
  | .close _ ts => ts

/-- There is no formula, and only brackets wait. -/
structure Moment.Bare (m : Moment) : Prop where
  /-- There is no formula. -/
  formulas : m.formulas = []
  /-- Only brackets wait. -/
  connectives : ∀ t ∈ m.connectives, t.kind = .openBracket

theorem reduce_ne_nil : reduce u fs ≠ .ok [] := by
  unfold reduce
  split <;> exact nofun

/-- Where there is no formula yet and only brackets wait, only brackets have been read. -/
theorem Reached.exists_brackets (h : Reached ts m) (hm : m.Bare) :
    ∃ us, ts = us ++ m.task.left ∧ ∀ t ∈ us, IsBracket t := by
  induction h with
  | start => exact ⟨[], rfl, nofun⟩
  | @move m n _ hmove ih =>
    cases moved_of_move hmove with
    | @complete u cs gs _ _ hgs =>
      obtain rfl : gs = [] := hm.formulas
      exact absurd hgs reduce_ne_nil
    | @wait t ts' htask ht _ =>
      obtain ⟨hopen, hcs⟩ := List.forall_mem_cons.1 hm.connectives
      obtain ⟨us, hus, hbrackets⟩ := ih ⟨hm.formulas, hcs⟩
      rw [htask] at hus
      refine ⟨us ++ [t], by simpa [Task.left] using hus, ?_⟩
      exact List.forall_mem_append.2 ⟨hbrackets, List.forall_mem_singleton.2 (.inl hopen)⟩
    | atom => exact absurd hm.formulas (List.cons_ne_nil _ _)
    | binary htask _ =>
      rw [htask] at ih
      exact ih ⟨hm.formulas, hm.connectives⟩
    | @close t ts' htask hk =>
      obtain ⟨us, hus, hbrackets⟩ := ih ⟨hm.formulas, hm.connectives⟩
      rw [htask] at hus
      refine ⟨us ++ [t], by simpa [Task.left] using hus, ?_⟩
      exact List.forall_mem_append.2 ⟨hbrackets, List.forall_mem_singleton.2 (.inr hk)⟩
    | @push t ts' htask =>
      have hopen : t.kind = .openBracket := hm.connectives t List.mem_cons_self
      have hbinary := ‹Reached ts m›.kept.binary t ts' htask
      rw [hopen] at hbinary
      cases hbinary
    | closed htask hcs hu =>
      rw [htask] at ih
      exact ih ⟨hm.formulas, hcs ▸ List.forall_mem_cons.2 ⟨hu, hm.connectives⟩⟩

end PropProver.Reading
