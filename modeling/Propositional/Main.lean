import Propositional.CommandLine.Run

/-!
# The program

Reads the surroundings of the run, and prints what `CommandLine.run` gives for
the arguments. The filter of the log is read from `BOOLTABLE_LOG`, which is not the
variable that `env_logger` reads by default; what is in it means the same. The
lines of the log have no timestamp (`CommandLine.recordLine`).
-/

namespace Propositional

/-- Whether output is styled: always if `CLICOLOR_FORCE` is set and not `0`,
otherwise never if `NO_COLOR` is set, and otherwise on a terminal unless
`CLICOLOR` is `0`. -/
def wantsStyling (force noColor clicolor : Option String) (onTerminal : Bool) : Bool :=
  if force.any (· ≠ "0") then true
  else if noColor.isSome then false
  else clicolor ≠ some "0" && onTerminal

end Propositional

open Propositional CommandLine in
/-- Prints the truth tables of the formulas among the arguments. -/
def main (args : List String) : IO UInt32 := do
  let stdout ← IO.getStdout
  let styling := wantsStyling (← IO.getEnv "CLICOLOR_FORCE") (← IO.getEnv "NO_COLOR")
    (← IO.getEnv "CLICOLOR") (← stdout.isTty)
  let keep := Log.Filter.ofText ((← IO.getEnv "BOOLTABLE_LOG").getD "")
  let result := CommandLine.run ⟨styling, keep⟩ args
  stdout.putStr result.stdout
  (← IO.getStderr).putStr result.stderr
  return result.exitCode.toUInt32
