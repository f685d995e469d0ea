import Propositional.Assignment
import Propositional.Evaluation
import Propositional.Formula.Logged
import Propositional.Formula.Nodes
import Propositional.TruthTable.Basic

/-!
# Building truth tables

`TruthTable.build` makes the table of a formula, one row per assignment of its
variables in counting order, and logs what it does. `TruthTable.ofFormula`,
`TruthTable.ofText` and `TruthTable.ofTextWithin` give the table alone: of a
formula, of a text, and of a text whose formula may only have so many
variables.
-/

namespace Propositional

open Log

/-- Refuses a formula with more than `limit` variables. -/
def Formula.checkLimit (p : Formula) (limit : Nat) : Except Error Unit :=
  let count := p.vars.length
  if limit < count then .error (.tooManyVariables count limit) else .ok ()

namespace TruthTable

/-- The target of the records about tables. -/
def tableTarget : String := "table"

/-- The row of a table for one assignment. -/
def buildRow (vars : List Variable) (columns : List Formula) (assignment : Assignment) :
    ExceptT EvaluationError Logged (List Bool) := do
  let env := Environment.ofAssignment vars assignment
  record .trace tableTarget fun _ => "Evaluating under " ++ env.text
  Logged.ofExcept (columns.mapM fun p => p.evaluate env)

/-- The table of a formula. -/
def build (p : Formula) : ExceptT EvaluationError Logged TruthTable := do
  let vars := p.vars
  let columns := p.columns
  let header := columns.map Formula.text
  record .debug tableTarget fun _ => "Variables: " ++ Variable.listText vars
  record .debug tableTarget fun _ => "Columns: " ++ " ".intercalate header
  let rows ← (Assignment.all vars.length).mapM (buildRow vars columns)
  return { vars, columns, header, rows }

/-- The table of a formula, without a log. -/
def ofFormula (p : Formula) : Except EvaluationError TruthTable :=
  (build p).run.value

/-- The table of the formula that a text stands for. -/
def buildText (source : String) : ExceptT Error Logged TruthTable := do
  let p ← (Formula.parseLogged source).adapt Error.parse
  (build p).adapt Error.evaluation

/-- The table of the formula that a text stands for, without a log. -/
def ofText (source : String) : Except Error TruthTable :=
  (buildText source).run.value

/-- The table of the formula that a text stands for, if the formula has no more
than `limit` variables. -/
def buildTextWithin (source : String) (limit : Nat) : ExceptT Error Logged TruthTable := do
  let p ← (Formula.parseLogged source).adapt Error.parse
  Logged.ofExcept (p.checkLimit limit)
  (build p).adapt Error.evaluation

/-- The table of the formula that a text stands for, if the formula has no more
than `limit` variables, without a log. -/
def ofTextWithin (source : String) (limit : Nat) : Except Error TruthTable :=
  (buildTextWithin source limit).run.value

end TruthTable

end Propositional
