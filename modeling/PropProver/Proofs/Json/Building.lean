import PropProver.Proofs.Json.Lexemes

/-!
# What is read of written JSON

A value that is written and read again becomes what its parts become (`build`): the builder is
asked for the parts before the whole, in the order in which they are written, and what it refuses
first is the reason for a failure (`readWith_text`). Texts and names are given to it with every pair
of halves put together. Conversely, what the builder keeps of its parts holds of everything that is
read, from whatever text; `PropProver.Proofs.Json.Keeping` is about that.
-/

namespace PropProver.Json

universe u

variable {ε : Type} {α : Type u}

/-! ### Building a value -/

/-- The object that is built of fields, if it is accepted. -/
def Builder.accept (b : Builder ε α) (fs : Fields α Codes) : Except (ReadError ε) α :=
  (b.object (Fields.ofPairs fs)).mapError .refused

mutual

/-- What a value becomes. -/
def build (b : Builder ε α) : Wire → Except (ReadError ε) α
  | .null => .ok (b.scalar .null)
  | .bool x => .ok (b.scalar (.bool x))
  | .int n =>
    if Text.digitLimit < (Nat.toDigits 10 n.natAbs).length then
      .error (.longNumber (Nat.toDigits 10 n.natAbs).length)
    else .ok (b.scalar (.int n))
  | .str s => .ok (b.text s.joined)
  | .arr xs => do return b.list (← buildItems b xs)
  | .obj fs => do b.accept (← buildFields b fs)

/-- What the items of a list become. -/
def buildItems (b : Builder ε α) : List Wire → Except (ReadError ε) (List α)
  | [] => .ok []
  | x :: xs => do
    let y ← build b x
    return y :: (← buildItems b xs)

/-- What the fields of an object become. -/
def buildFields (b : Builder ε α) : List (Codes × Wire) → Except (ReadError ε) (Fields α Codes)
  | [] => .ok []
  | (k, x) :: fs => do
    let y ← build b x
    return (k.joined, y) :: (← buildFields b fs)

end

/-! ### Reading a written value -/

namespace Reader

variable (b : Builder ε α)

/-- No value in writing begins like the end of a list, so that the first item of a list is read
like any other value. -/
theorem run_firstItem_written (stack : List (Frame α)) (x : Wire) (ls : List Lexeme) :
    run b (.firstItem stack) (written x ++ ls) =
      run b (.value (.list [] :: stack)) (written x ++ ls) := by
  match x with
  | .null | .bool _ | .str _ | .arr [] | .arr (_ :: _) | .obj [] | .obj ((_, _) :: _) => rfl
  | .int n =>
    rw [written, Lexeme.ofInt]
    split <;> rfl

/-- At the end of an object, the reader goes on with what is built of its fields. -/
theorem run_close (before : Fields α Codes) (stack : List (Frame α)) (ls : List Lexeme) :
    ((close b before stack).bind fun r => run b r ls) =
      (b.accept before.reverse).bind fun y => run b (.afterValue y stack) ls := by
  unfold close Builder.accept
  cases b.object (Fields.ofPairs before.reverse) <;> rfl

theorem run_cons (r : Reader α) (l : Lexeme) (ls : List Lexeme) :
    run b r (l :: ls) = (step b r l).bind fun r => run b r ls := by
  rw [run]
  cases step b r l <;> rfl

mutual

/-- Where a value is due, the lexemes of a value are read as what it becomes. -/
theorem run_written (x : Wire) (stack : List (Frame α)) (ls : List Lexeme) :
    run b (.value stack) (written x ++ ls) =
      (build b x).bind fun y => run b (.afterValue y stack) ls := by
  match x with
  | .null => rfl
  | .bool _ => rfl
  | .int n =>
    rw [written, Lexeme.ofInt, build]
    split <;> rfl
  | .str _ => rfl
  | .arr [] => rfl
  | .arr (x :: xs) =>
    have hopen : run b (.value stack) (written (.arr (x :: xs)) ++ ls) =
        run b (.firstItem stack) (written x ++ (writtenItems xs ++ .closeList :: ls)) := by
      simp [written, run, step, startValue]
    rw [hopen, run_firstItem_written, run_written, build, buildItems]
    cases build b x with
    | error e => rfl
    | ok y =>
      show run b (.afterValue y (.list [] :: stack)) _ = _
      rw [run_writtenItems]
      cases buildItems b xs <;> rfl
  | .obj [] =>
    show run b (.firstName stack) (.closeObject :: ls) = _
    rw [run_cons, step, run_close, build]
    rfl
  | .obj ((k, x) :: fs) =>
    have hopen : run b (.value stack) (written (.obj ((k, x) :: fs)) ++ ls) =
        run b (.value (.object [] k.joined :: stack))
          (written x ++ (writtenFields fs ++ .closeObject :: ls)) := by
      simp [written, run, step, startValue]
    rw [hopen, run_written, build, buildFields]
    cases build b x with
    | error e => rfl
    | ok y =>
      show run b (.afterValue y (.object [] k.joined :: stack)) _ = _
      rw [run_writtenFields]
      cases buildFields b fs <;> rfl

/-- Behind an item, the lexemes of further items are read up to the end of the list. -/
theorem run_writtenItems (xs : List Wire) (y : α) (before : List α) (stack : List (Frame α))
    (ls : List Lexeme) :
    run b (.afterValue y (.list before :: stack)) (writtenItems xs ++ .closeList :: ls) =
      (buildItems b xs).bind fun ys =>
        run b (.afterValue (b.list (before.reverse ++ y :: ys)) stack) ls := by
  match xs with
  | [] =>
    show run b (.afterValue (b.list (y :: before).reverse) stack) ls = _
    rw [List.reverse_cons]
    rfl
  | x :: xs =>
    have hnext : run b (.afterValue y (.list before :: stack))
          (writtenItems (x :: xs) ++ .closeList :: ls) =
        run b (.value (.list (y :: before) :: stack))
          (written x ++ (writtenItems xs ++ .closeList :: ls)) := by
      simp [writtenItems, run, step]
    rw [hnext, run_written, buildItems]
    cases build b x with
    | error e => rfl
    | ok z =>
      show run b (.afterValue z (.list (y :: before) :: stack)) _ = _
      rw [run_writtenItems]
      cases buildItems b xs with
      | error e => rfl
      | ok ys => simp [Except.bind, bind, pure, Except.pure]

/-- Behind a field, the lexemes of further fields are read up to the end of the object. -/
theorem run_writtenFields (fs : List (Codes × Wire)) (k : Codes) (y : α)
    (before : Fields α Codes) (stack : List (Frame α)) (ls : List Lexeme) :
    run b (.afterValue y (.object before k :: stack)) (writtenFields fs ++ .closeObject :: ls) =
      (buildFields b fs).bind fun gs =>
        (b.accept (before.reverse ++ (k, y) :: gs)).bind fun z =>
          run b (.afterValue z stack) ls := by
  match fs with
  | [] =>
    show run b (.afterValue y (.object before k :: stack)) (.closeObject :: ls) = _
    rw [run_cons, step, run_close, List.reverse_cons]
    rfl
  | (n, x) :: fs =>
    have hnext : run b (.afterValue y (.object before k :: stack))
          (writtenFields ((n, x) :: fs) ++ .closeObject :: ls) =
        run b (.value (.object ((k, y) :: before) n.joined :: stack))
          (written x ++ (writtenFields fs ++ .closeObject :: ls)) := by
      simp [writtenFields, run, step]
    rw [hnext, run_written, buildFields]
    cases build b x with
    | error e => rfl
    | ok z =>
      show run b (.afterValue z (.object ((k, y) :: before) n.joined :: stack)) _ = _
      rw [run_writtenFields]
      cases buildFields b fs with
      | error e => rfl
      | ok gs => simp [Except.bind, bind, pure, Except.pure]

end

end Reader

/-- What is read of a value in writing is what the value becomes. -/
theorem readWith_text (b : Builder ε α) {layout : Layout} (h : layout.IsBlank) (x : Wire) :
    readWith b (x.text layout) = build b x := by
  have hrun := Reader.run_written b x [] []
  rw [List.append_nil] at hrun
  rw [readWith, lexemes_text h, hrun]
  cases build b x <;> rfl

end PropProver.Json
