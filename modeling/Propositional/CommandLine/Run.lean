import Propositional.CommandLine.Options
import Propositional.Formula.Tree
import Propositional.Log.Directive
import Propositional.TruthTable.Build
import Propositional.TruthTable.Html
import Propositional.TruthTable.Markdown
import Propositional.TruthTable.Plain

/-!
# Runs of the program

A run takes one `turn` for each of the formulas that were asked for. It prints the
table of the formula, behind an empty line if there was a formula before. A formula
without a table prints an error and makes the run fail, but not end.
`CommandLine.run` gives all that a run prints and its exit code.
-/

namespace Propositional.CommandLine

open Log

/-- The surroundings of a run. -/
structure Surroundings where
  /-- Whether output is styled. -/
  styling : Bool
  /-- The log records that are printed. -/
  keep : Filter

/-- What a run has printed to the two outputs so far, and whether it has failed. -/
structure Report where
  stdout : String
  stderr : String
  failed : Bool
deriving DecidableEq

/-- The report of a run that has not done anything. -/
def Report.start : Report := ⟨"", "", false⟩

/-- The target of the records about runs. -/
def runTarget : String := "booltable"

/-- A computation that prints to the standard output, logs, and may fail; what
it printed before it failed remains. -/
abbrev Printing := ExceptT Error (StateT String Logged)

/-- Prints text to the standard output. -/
def print (text : String) : Printing Unit :=
  modify (· ++ text)

/-- Runs a logged computation that may fail. -/
def attempt {ε α : Type} (cause : ε → Error) (m : ExceptT ε Logged α) : Printing α := do
  match ← (m.run : Logged (Except ε α)) with
  | .ok a => return a
  | .error e => throw (cause e)

/-- A table in the format of the options. -/
def formatted (format : Format) (styling : Bool) (table : TruthTable) : String :=
  match format with
  | .plain => table.plain styling ++ Text.styled styling [.dimmed] table.attributes.text ++ "\n"
  | .markdown => table.markdown
  | .html => table.html ++ "\n"

/-- Prints the table of the formula that a text stands for. -/
def printTable (options : Options) (styling : Bool) (source : String) : Printing Unit := do
  let p ← attempt Error.parse (Formula.parseLogged source)
  attempt id (Logged.ofExcept (p.checkLimit options.maxVariables))
  if options.tree then print (p.tree.draw ++ "\n")
  let table ← attempt Error.evaluation (TruthTable.build p)
  record .debug runTarget fun _ =>
    "Rendering " ++ toString table.rows.length ++ " rows as " ++ options.format.name
  print (formatted options.format styling table)

/-- The line of a record in the log, with the level in at least five characters. This is how
`env_logger` writes it, but for the timestamp before the level, which is left out. -/
def recordLine (r : Record) : String :=
  let padding := String.ofList (List.replicate (5 - r.level.name.length) ' ')
  "[" ++ r.level.name ++ padding ++ " " ++ r.target ++ "] " ++ r.message ++ "\n"

/-- The line of an error. -/
def errorLine (styling : Bool) (source : String) (e : Error) : String :=
  Text.styled styling [.bold, .red] "error:" ++ " " ++ source ++ ": " ++ e.message ++ "\n"

/-- The turn for the formula at `index` of a run that has reported `before`. It begins with an
empty line unless it is the first turn, and prints behind what was printed; if the formula has no
table, the run has failed from now on. -/
def turn (options : Options) (surroundings : Surroundings) (index : Nat) (source : String)
    (before : Report) : Report :=
  let stdout := if 0 < index then before.stdout ++ "\n" else before.stdout
  let ((result, stdout), records) :=
    Logged.collect surroundings.keep
      ((printTable options surroundings.styling source).run.run stdout)
  let stderr := before.stderr ++ String.join (records.map recordLine)
  match result with
  | .ok () => { before with stdout, stderr }
  | .error e =>
    { stdout, stderr := stderr ++ errorLine surroundings.styling source e, failed := true }

/-- The turns for the formulas one after the other, the first of them at `index`. -/
def turns (options : Options) (surroundings : Surroundings) :
    List String → Nat → Report → Report
  | [], _, report => report
  | source :: formulas, index, report =>
    turns options surroundings formulas (index + 1)
      (turn options surroundings index source report)

/-- The report of a run for several formulas. -/
def reportAll (options : Options) (surroundings : Surroundings) (formulas : List String) : Report :=
  turns options surroundings formulas 0 .start

/-- All that a run prints, and its exit code. -/
structure Result where
  exitCode : Nat
  stdout : String
  stderr : String
deriving DecidableEq

/-- The name of the program and its version. -/
def versionText : String := "booltable_cli 0.1.0\n"

/-- How the program is called. -/
def usageText : String :=
  "Usage: booltable [OPTIONS] <FORMULAS>...\n"

/-- What the program is for, and how it is called. -/
def helpText : String :=
  "Prints the truth table of propositional formulas\n\n" ++ usageText ++ "\n" ++
    "Formulas use single-letter variables, the constants 0 and 1, the negation sign `-`\n" ++
    "and the connectives `*` (and), `+` (or) and `=>` (implies). Connectives have no\n" ++
    "precedence: `1+a*b` is read as `(1+a)*b`.\n\n" ++
    "Options:\n" ++
    "  -f, --format <FORMAT>    Output format: plain (the default), markdown or html\n" ++
    "      --max-variables <N>  Refuse formulas with more variables than this (16 by default)\n" ++
    "      --tree               Print the parsed formula as a tree before its table\n" ++
    "  -h, --help               Print help\n" ++
    "  -V, --version            Print version\n"

/-- Runs the program. The exit code is 0 if it did what was asked, 1 if a
formula has no table, and 2 if an argument is refused. -/
def run (surroundings : Surroundings) (args : List String) : Result :=
  match Request.ofArguments args with
  | none => ⟨2, "", usageText⟩
  | some .version => ⟨0, versionText, ""⟩
  | some .help => ⟨0, helpText, ""⟩
  | some (.tables options formulas) =>
    let report := reportAll options surroundings formulas
    ⟨if report.failed then 1 else 0, report.stdout, report.stderr⟩

end Propositional.CommandLine
