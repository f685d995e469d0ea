import Propositional.Formula.Basic
import Propositional.Text.Tree

/-!
# Formulas as trees
-/

namespace Propositional.Formula

open Text (Tree)

/-- The tree of a formula: its symbol over the trees of its operands. -/
def tree : Formula → Tree
  | const b => .node (const b).symbol []
  | var x => .node (var x).symbol []
  | neg p => .node (neg p).symbol [p.tree]
  | binary op l r => .node (binary op l r).symbol [l.tree, r.tree]

end Propositional.Formula
