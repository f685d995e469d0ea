/-!
# Trees drawn in text

A tree is drawn with one line per node, the node before its branches and the
branches in order. A branch is hung on the line of its parent by `├── `, the
last one by `└── `; below a branch that is not the last, the line `│   ` runs
on to the next one.
-/

namespace Propositional.Text

/-- A tree with a label at every node. -/
inductive Tree where
  | node (label : String) (branches : List Tree)

namespace Tree

mutual

/-- The lines of a tree whose first line starts with `first` and whose other
lines start with `indent`. Assumed of `termtree`: this is its layout, with the
signs that it has where none are chosen, and every line ends in a line feed. -/
def linesFrom (first indent : String) : Tree → List String
  | node label branches => (first ++ label) :: branchLines indent branches

/-- The lines of the branches of one node, each line starting with `indent`. -/
def branchLines (indent : String) : List Tree → List String
  | [] => []
  | [branch] => branch.linesFrom (indent ++ "└── ") (indent ++ "    ")
  | branch :: next :: branches =>
    branch.linesFrom (indent ++ "├── ") (indent ++ "│   ") ++ branchLines indent (next :: branches)

end

/-- The lines of the drawing. -/
def lines (tree : Tree) : List String :=
  tree.linesFrom "" ""

/-- The drawing, every line of which ends in a line feed. -/
def draw (tree : Tree) : String :=
  String.join (tree.lines.map (· ++ "\n"))

mutual

/-- The labels, each before those of its branches. -/
def labels : Tree → List String
  | node label branches => label :: branchLabels branches

/-- The labels of several trees in order. -/
def branchLabels : List Tree → List String
  | [] => []
  | branch :: branches => branch.labels ++ branchLabels branches

end

end Tree

end Propositional.Text
