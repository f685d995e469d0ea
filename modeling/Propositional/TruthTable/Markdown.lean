import Propositional.Text.Listing
import Propositional.TruthTable.Basic

/-!
# Truth tables in Markdown

A line for the labels, one that centres the columns and one for each row. Every
cell stands behind a bar, and a bar ends the line.
-/

namespace Propositional.TruthTable

/-- A line of cells. -/
def markdownLine (cells : List String) : String :=
  String.join (cells.map ("|" ++ ·)) ++ "|\n"

/-- The table in Markdown. -/
def markdown (table : TruthTable) : String :=
  markdownLine table.header ++ markdownLine (table.header.map fun _ => ":-:") ++
    String.join (table.rows.map fun row => markdownLine (row.map Text.digit))

end Propositional.TruthTable
