import Propositional.Formula.Parse
import Propositional.Log.Basic

/-!
# Reading formulas with a log

`Formula.parseLogged` is `Formula.parse` with two records: the text without its
blanks, and what came of it.
-/

namespace Propositional.Formula

open Log

/-- The target of the records about parsing. -/
def parserTarget : String := "parser"

/-- Reads a formula, and logs its text and the result. -/
def parseLogged (source : String) : ExceptT ParseError Logged Formula := do
  record .debug parserTarget fun _ =>
    "Parsing \"" ++ String.ofList (Text.strip source.toList) ++ "\""
  let result := parse source
  match result with
  | .ok p => record .debug parserTarget fun _ => "Parsed " ++ p.text
  | .error e => record .debug parserTarget fun _ => e.message
  Logged.ofExcept result

end Propositional.Formula
