import Propositional.Text.Listing
import Propositional.TruthTable.Basic

/-!
# Truth tables in HTML

A table element with a row of `th` elements for the labels, and a row of `td`
elements for each row of the table, which have the class `true` or `false`. In
the labels `&`, `<` and `>` are escaped.
-/

namespace Propositional.TruthTable

/-- The text with another in the place of every `c`. -/
def replaced (c : Char) (replacement text : String) : String :=
  String.ofList (text.toList.flatMap fun d => if d = c then replacement.toList else [d])

/-- A label as it is written. The first replacement is that of `&`, which the others bring in. -/
def escape (label : String) : String :=
  replaced '>' "&gt;" (replaced '<' "&lt;" (replaced '&' "&amp;" label))

/-- The cell of a label. -/
def htmlLabel (label : String) : String :=
  "<th>" ++ escape label ++ "</th>"

/-- The cell of a truth value. -/
def htmlCell (value : Bool) : String :=
  "<td class='" ++ (if value then "true" else "false") ++ "'>" ++ Text.digit value ++ "</td>"

/-- A row of cells. -/
def htmlRow (cells : List String) : String :=
  "<tr>" ++ String.join cells ++ "</tr>"

/-- The table in HTML. -/
def html (table : TruthTable) : String :=
  "<table>" ++ htmlRow (table.header.map htmlLabel) ++
    String.join (table.rows.map fun row => htmlRow (row.map htmlCell)) ++ "</table>"

end Propositional.TruthTable
