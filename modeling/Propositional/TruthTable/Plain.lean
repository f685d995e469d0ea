import Propositional.Text.Listing
import Propositional.Text.Style
import Propositional.TruthTable.Basic

/-!
# Truth tables for a terminal

A line for the labels and one for each row, whose cells stand under the middle
of their labels. Two blanks separate the columns. Labels are bold, and cells
green or red; the cells are padded before they are styled.
-/

namespace Propositional.TruthTable

open Text

/-- A line of cells. -/
def plainLine (cells : List String) : String :=
  "  ".intercalate cells ++ "\n"

/-- A cell under a label of `width` characters. -/
def plainCell (styling : Bool) (value : Bool) (width : Nat) : String :=
  styled styling [if value then .green else .red] (centered width (digit value))

/-- The table for a terminal. -/
def plain (styling : Bool) (table : TruthTable) : String :=
  let widths := table.header.map String.length
  plainLine (table.header.map (styled styling [.bold])) ++
    String.join (table.rows.map fun row => plainLine (List.zipWith (plainCell styling) row widths))

end Propositional.TruthTable
