/-!
# JSON values

A JSON value without fractions. The fields of an object are kept in order, and no name occurs
twice: writing to a name that is there changes its value in place (`Fields.put`). The functions on
fields do not depend on what the names are.
-/

namespace PropProver

universe u

/-- Named values in order. The names are strings unless something else is said. -/
abbrev Fields (α : Type u) (κ : Type := String) := List (κ × α)

namespace Fields

variable {κ : Type} [DecidableEq κ] {α : Type u}

/-- The value of a name. -/
def get? (fs : Fields α κ) (name : κ) : Option α := fs.lookup name

/-- The fields with a value for a name: in the place of the old value, or else at the end. -/
def put : Fields α κ → κ → α → Fields α κ
  | [], k, v => [(k, v)]
  | (n, w) :: fs, k, v => if n = k then (n, v) :: fs else (n, w) :: put fs k v

/-- The fields that result when pairs are written one after the other. -/
def ofPairs (ps : List (κ × α)) : Fields α κ := ps.foldl (fun fs (k, v) => fs.put k v) []

@[simp] theorem get?_nil (n : κ) : get? ([] : Fields α κ) n = none := rfl

theorem get?_cons (m n : κ) (w : α) (fs : Fields α κ) :
    get? ((m, w) :: fs) n = if n = m then some w else get? fs n := by
  by_cases h : n = m
  · simp [get?, h]
  · have hb : (n == m) = false := by simp [h]
    simp [get?, List.lookup_cons, hb, h]

theorem get?_put (fs : Fields α κ) (k n : κ) (v : α) :
    (fs.put k v).get? n = if n = k then some v else fs.get? n := by
  induction fs with
  | nil => simp [put, get?_cons]
  | cons f fs ih =>
    obtain ⟨m, w⟩ := f
    unfold put
    by_cases h : m = k
    · subst h
      by_cases hn : n = m <;> simp [get?_cons, hn]
    · by_cases hn : n = m
      · simp [get?_cons, hn, h]
      · simp [get?_cons, hn, h, ih]

end Fields

/-- A JSON value. -/
inductive Json where
  /-- The null value. -/
  | null
  /-- A truth value. -/
  | bool (b : Bool)
  /-- A whole number. -/
  | int (n : Int)
  /-- A text. -/
  | str (s : String)
  /-- A list. -/
  | arr (items : List Json)
  /-- An object. -/
  | obj (fields : List (String × Json))
  deriving Repr

namespace Json

/-- The name of the kind of a value. -/
def typeName : Json → String
  | .null => "NoneType"
  | .bool _ => "bool"
  | .int _ => "int"
  | .str _ => "str"
  | .arr _ => "list"
  | .obj _ => "dict"

/-- Whether a value stands for something given: null, false, zero and what is empty do not. -/
def isGiven : Json → Bool
  | .null => false
  | .bool b => b
  | .int n => n != 0
  | .str s => s != ""
  | .arr items => !items.isEmpty
  | .obj fields => !fields.isEmpty

end Json

end PropProver
