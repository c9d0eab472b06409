import PropProver.CommandLine.Arguments

/-!
# The values of accepted options

Some options admit only certain values. When a command line is accepted, such an option has one of
them, or it is not given at all, or it is given two hyphens, which stand for no value
(`chosen_of_ofArguments`). Every step that takes an argument keeps this (`Arguments.Chosen.give`).
-/

namespace PropProver.CommandLine

namespace Arguments

/-- What an option is given. -/
def given (a : Arguments) : Switch → Given String
  | .file => a.file
  | .strategy => a.strategy
  | .table => a.table
  | .order => a.order
  | .config => a.config
  | _ => .nothing

/-- Every option that admits certain values has one of these, if it has a value. -/
def Chosen (a : Arguments) : Prop :=
  ∀ o v cs, a.given o = .value v → o.choices = some cs → v ∈ cs

variable {a a' : Arguments} {o : Switch} {s : String}

/-- An option is given what it is set to, and the others keep what they have. -/
theorem given_set (a : Arguments) (o o' : Switch) (g : Given String) :
    (a.set o g).given o' = a.given o' ∨ o' = o ∧ (a.set o g).given o' = g := by
  cases o <;> cases o' <;> simp [set, given]

theorem Chosen.set (h : a.Chosen) {g : Given String}
    (hg : ∀ v cs, g = .value v → o.choices = some cs → v ∈ cs) : (a.set o g).Chosen := by
  intro o' v cs hv hcs
  obtain hkept | ⟨rfl, hset⟩ := given_set a o o' g
  · exact h o' v cs (hkept ▸ hv) hcs
  · exact hg v cs (hset ▸ hv) hcs

theorem Chosen.mark (h : a.Chosen) : (a.mark o).Chosen := by
  cases o <;> exact h

theorem Chosen.give (h : a.Chosen) (hg : a.give o s = .ok a') : a'.Chosen := by
  unfold Arguments.give at hg
  split at hg
  · split at hg
    · cases hg
      exact h
    · split at hg
      · cases hg
        exact h
      · cases hg
  · split at hg
    · cases hg
      exact h.set nofun
    · split at hg
      · next cs hcs =>
        split at hg
        · next hmem =>
          cases hg
          refine h.set fun v cs' hv hcs' => ?_
          cases hv
          rw [hcs] at hcs'
          cases hcs'
          exact hmem
        · cases hg
      · next hcs =>
        cases hg
        refine h.set fun v cs' _ hcs' => ?_
        rw [hcs] at hcs'
        cases hcs'

end Arguments

end PropProver.CommandLine
