import PropProver.CommandLine.Arguments

/-!
# Usage and help texts

The texts are laid out for a terminal of eighty columns.
-/

namespace PropProver.CommandLine

/-- The usage text. -/
def usage : String :=
  "usage: propatlas [-h] [--file FILE] [--json]\n" ++
  "                 [--strategy \x7bsaturation,cancellation\x7d]\n" ++
  "                 [--table \x7bclassical,uniform\x7d]\n" ++
  "                 [--order \x7bchronological,reverse\x7d] [--max_steps MAX_STEPS]\n" ++
  "                 [--summary] [--config CONFIG]\n" ++
  "                 [formula]\n"

/-- The help text. -/
def help : String :=
  usage ++
  "\nPropositional theorem prover\n" ++
  "\npositional arguments:\n" ++
  "  formula               formula terminated by '.', e.g. 'P => P.'\n" ++
  "\noptions:\n" ++
  "  -h, --help            show this help message and exit\n" ++
  "  --file FILE           prove one formula per line of this file\n" ++
  "  --json                print reports as JSON\n" ++
  "  --strategy \x7bsaturation,cancellation\x7d\n" ++
  "  --table \x7bclassical,uniform\x7d\n" ++
  "  --order \x7bchronological,reverse\x7d\n" ++
  "  --max_steps MAX_STEPS\n" ++
  "  --summary             print a short summary per formula\n" ++
  "  --config CONFIG       YAML configuration file\n"

end PropProver.CommandLine
