import Propositional.Formula.Basic
import Propositional.Text.Listing

/-!
# The parts of a formula

`vars` lists the variables of a formula in ascending order, each once, and
`nodes` all of its sub-formulas in pre-order, each as often as it occurs.
`arrange` puts variables and nodes into the order of the columns of a truth
table.
-/

namespace Propositional

namespace Variable

/-- The variables with `x` among them, at its place in ascending order. -/
def insert (x : Variable) : List Variable → List Variable
  | [] => [x]
  | y :: ys => if x < y then x :: y :: ys else if x = y then y :: ys else y :: insert x ys

/-- The text of a list of variables, such as `{a, b}`. -/
def listText (vars : List Variable) : String :=
  Text.listing (vars.map String.singleton)

end Variable

namespace Formula

/-- The variables of a formula in the order in which they are written, each as
often as it occurs. -/
def occurrences : Formula → List Variable
  | const _ => []
  | var x => [x]
  | neg p => p.occurrences
  | binary _ l r => l.occurrences ++ r.occurrences

/-- The variables of a formula, in ascending order and each once. -/
def vars (p : Formula) : List Variable :=
  p.occurrences.foldl (fun vars x => Variable.insert x vars) []

/-- The number of sub-formulas. -/
def size : Formula → Nat
  | const _ | var _ => 1
  | neg p => 1 + p.size
  | binary _ l r => 1 + (l.size + r.size)

/-- The number of sub-formulas of several formulas. -/
def sizes : List Formula → Nat
  | [] => 0
  | p :: ps => p.size + sizes ps

/-- Visits the formulas of a stack from its top. The operands of a visited
formula take its place on the stack, the left one uppermost. -/
def visit : List Formula → List Formula
  | [] => []
  | p :: stack => p :: visit (p.operands ++ stack)
termination_by stack => sizes stack
decreasing_by
  cases p <;> simp only [operands, List.cons_append, List.nil_append, sizes, size] <;> omega

/-- All sub-formulas in pre-order: the formula, then those of its operands from left to right. -/
def nodes (p : Formula) : List Formula :=
  visit [p]

/-- The columns of a truth table: the variables, then the nodes that are no
variables, last to first. In pre-order a formula stands before its operands, so
here it stands after them. -/
def arrange (nodes : List Formula) (vars : List Variable) : List Formula :=
  vars.map var ++ (nodes.filter fun p => !p.isVariable).reverse

/-- The columns of the truth table of a formula. -/
def columns (p : Formula) : List Formula :=
  arrange p.nodes p.vars

end Formula

end Propositional
