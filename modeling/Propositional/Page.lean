import Propositional.TruthTable.Build
import Propositional.TruthTable.Html

/-!
# Truth tables for a page

What a page shows for the text of a formula: its table, as values or in HTML,
or the message of the error.
-/

namespace Propositional.Page

/-- The largest number of variables that a page accepts. -/
def maxVariables : Nat := 16

/-- A table as a page shows it. -/
structure Table where
  header : List String
  rows : List (List Bool)
  valid : Bool
  satisfiable : Bool
deriving DecidableEq

/-- The table of a text, or the message of the error. -/
def table (source : String) : Except String Table :=
  match TruthTable.ofTextWithin source maxVariables with
  | .ok table =>
    .ok ⟨table.header, table.rows, table.attributes.valid, table.attributes.satisfiable⟩
  | .error e => .error e.message

/-- The table of a text in HTML, or the message of the error. -/
def html (source : String) : Except String String :=
  match TruthTable.ofTextWithin source maxVariables with
  | .ok table => .ok table.html
  | .error e => .error e.message

end Propositional.Page
