import Propositional.Formula.Basic

/-!
# Truth tables

A `TruthTable` has a column for each formula it shows and a row for each
assignment of its variables. Its last column is the formula that the table is
about, from which `TruthTable.attributes` reads whether that formula is valid
and satisfiable.
-/

namespace Propositional

/-- A table of truth values. -/
structure TruthTable where
  /-- The variables, to which the assignments of the rows refer by position. -/
  vars : List Variable
  /-- The formulas of the columns. -/
  columns : List Formula
  /-- The labels of the columns. -/
  header : List String
  /-- The cells, row by row. -/
  rows : List (List Bool)
deriving DecidableEq

/-- Whether a formula holds under every assignment, and whether it holds under some. -/
structure Attributes where
  valid : Bool
  satisfiable : Bool
deriving DecidableEq

/-- The wording of attributes. -/
def Attributes.text (attributes : Attributes) : String :=
  "valid: " ++ answer attributes.valid ++ ", satisfiable: " ++ answer attributes.satisfiable
where
  /-- The word for a truth value. -/
  answer (value : Bool) : String := if value then "yes" else "no"

namespace TruthTable

/-- The last cells of the rows that have one. -/
def results (table : TruthTable) : List Bool :=
  table.rows.filterMap List.getLast?

/-- The attributes of the formula in the last column. -/
def attributes (table : TruthTable) : Attributes where
  valid := table.results.all id
  satisfiable := table.results.any id

end TruthTable

end Propositional
