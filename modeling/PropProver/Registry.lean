import PropProver.Refutation.Basic
import PropProver.Json.Basic
import PropProver.Text.LetterCase

/-!
# Registries

Things that are chosen by name, in the order in which they were registered. Names are kept in
small letters, and a name is looked up without regard to case. Registering a name again replaces
what it stands for, and keeps its place.
-/

namespace PropProver

universe u

/-- Named things in the order of registration. -/
structure Registry (α : Type u) where
  /-- The names, in small letters, with what they stand for. -/
  entries : Fields α
  deriving Repr

/-- A name that is not registered, in small letters. -/
structure UnknownName where
  /-- The name. -/
  name : String
  deriving DecidableEq, Repr

namespace Registry

variable {α : Type u}

/-- The names in order. -/
def names (r : Registry α) : List String := r.entries.map Prod.fst

/-- Registers a thing under a name. -/
def register (r : Registry α) (name : String) (x : α) : Registry α :=
  ⟨r.entries.put (Text.lower name) x⟩

/-- The thing with a name. -/
def find (r : Registry α) (name : String) : Except UnknownName α :=
  match r.entries.get? (Text.lower name) with
  | some x => .ok x
  | none => .error ⟨Text.lower name⟩

theorem find_register (r : Registry α) (name other : String) (x : α) :
    (r.register name x).find other =
      if Text.lower other = Text.lower name then .ok x else r.find other := by
  by_cases h : Text.lower other = Text.lower name <;>
    simp [find, register, Fields.get?_put, h]

end Registry

/-- The expansion tables by name. -/
def Table.registry : Registry Table :=
  ⟨[(Table.classical.name, .classical), (Table.uniform.name, .uniform)]⟩

/-- The strategies by name. -/
def Strategy.registry : Registry Strategy :=
  ⟨[(Strategy.saturation.name, .saturation), (Strategy.cancellation.name, .cancellation)]⟩

end PropProver
