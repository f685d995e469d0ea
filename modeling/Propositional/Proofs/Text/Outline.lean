import Propositional.Proofs.Text.Lines
import Propositional.Text.Tree

/-!
# The lines of a drawn tree

A path goes down a tree and says of each branch on it whether it is the last one of its
parent. `Tree.outline` lists the labels of a tree with the paths to their nodes, and the
drawing has a line for each of them, in that order: what is drawn before a node, which
the path tells (`before`), and its label (`lines_eq`). A line is indented by four
characters for each branch on the path (`length_before`). If the labels are short enough
and have no line feeds (`Fits`), the lines are found in the drawing again
(`linesOf_draw`), and the labels are read off them (`map_labelOf_linesOf_draw`).
-/

namespace Propositional.Text.Tree

/-! ## Paths -/

/-- What hangs a branch on its parent. -/
def mark : Bool → String
  | true => "└── "
  | false => "├── "

/-- What goes on below a branch. -/
def gap : Bool → String
  | true => "    "
  | false => "│   "

/-- What is drawn before the node at the end of a path. -/
def before : List Bool → String
  | [] => ""
  | [last] => mark last
  | last :: next :: path => gap last ++ before (next :: path)

/-- What is drawn before all that is below the node at the end of a path. -/
def trunk (path : List Bool) : String :=
  String.join (path.map gap)

theorem before_concat (path : List Bool) (last : Bool) :
    before (path ++ [last]) = trunk path ++ mark last := by
  induction path with
  | nil => exact String.empty_append.symm
  | cons b path ih =>
    rw [trunk, List.map_cons, String.join_cons, String.append_assoc, ← trunk, ← ih]
    cases path <;> rfl

theorem trunk_concat (path : List Bool) (last : Bool) :
    trunk (path ++ [last]) = trunk path ++ gap last := by
  simp [trunk]

theorem length_before (path : List Bool) : (before path).length = 4 * path.length := by
  induction path using before.induct with
  | case1 => rfl
  | case2 last => cases last <;> rfl
  | case3 last next path ih =>
    have hgap : (gap last).length = 4 := by cases last <;> rfl
    rw [before, String.length_append, hgap, ih]
    simp only [List.length_cons]
    omega

theorem not_mem_before (path : List Bool) : '\n' ∉ (before path).toList := by
  induction path using before.induct with
  | case1 => exact List.not_mem_nil
  | case2 last => cases last <;> decide
  | case3 last next path ih =>
    have hgap : '\n' ∉ (gap last).toList := by cases last <;> decide
    rw [before, String.toList_append, List.mem_append]
    exact not_or.2 ⟨hgap, ih⟩

/-! ## Lines -/

mutual

/-- The labels of a tree that hangs at the end of a path, each before those of its
branches and with the path to its node. -/
def outline (path : List Bool) : Tree → List (List Bool × String)
  | node label branches => (path, label) :: branchOutline path branches

/-- The labels of the branches of a node at the end of a path. -/
def branchOutline (path : List Bool) : List Tree → List (List Bool × String)
  | [] => []
  | [branch] => branch.outline (path ++ [true])
  | branch :: next :: branches =>
    branch.outline (path ++ [false]) ++ branchOutline path (next :: branches)

end

mutual

theorem map_snd_outline (path : List Bool) : ∀ tree : Tree,
    (tree.outline path).map Prod.snd = tree.labels
  | node label branches => by
    rw [outline, labels, List.map_cons, map_snd_branchOutline]

theorem map_snd_branchOutline (path : List Bool) : ∀ branches : List Tree,
    (branchOutline path branches).map Prod.snd = branchLabels branches
  | [] => rfl
  | [branch] => by
    rw [branchOutline, branchLabels, branchLabels, List.append_nil, map_snd_outline]
  | branch :: next :: branches => by
    rw [branchOutline, branchLabels, List.map_append, map_snd_outline, map_snd_branchOutline]

end

/-- The line of a node, from the path to it and its label. -/
def lineOf (entry : List Bool × String) : String :=
  before entry.1 ++ entry.2

mutual

theorem linesFrom_eq (path : List Bool) : ∀ tree : Tree,
    tree.linesFrom (before path) (trunk path) = (tree.outline path).map lineOf
  | node label branches => by
    rw [linesFrom, outline, List.map_cons, branchLines_eq, lineOf]

theorem branchLines_eq (path : List Bool) : ∀ branches : List Tree,
    branchLines (trunk path) branches = (branchOutline path branches).map lineOf
  | [] => rfl
  | [branch] => by
    have hbranch := linesFrom_eq (path ++ [true]) branch
    rwa [before_concat, trunk_concat] at hbranch
  | branch :: next :: branches => by
    have hbranch := linesFrom_eq (path ++ [false]) branch
    rw [before_concat, trunk_concat] at hbranch
    rw [branchOutline, List.map_append, ← branchLines_eq path (next :: branches), ← hbranch]
    rfl

end

theorem lines_eq (tree : Tree) : tree.lines = (tree.outline []).map lineOf :=
  linesFrom_eq [] tree

/-! ## Reading a drawing -/

/-- The label is on one line, and there is less of it than another branch would take. -/
def Fits (label : String) : Prop :=
  '\n' ∉ label.toList ∧ 0 < label.length ∧ label.length ≤ 4

instance (label : String) : Decidable (Fits label) :=
  inferInstanceAs (Decidable (_ ∧ _))

/-- The label in a line, which is what is left of it behind the path. -/
def labelOf (line : String) : String :=
  String.ofList (line.toList.drop (4 * ((line.length - 1) / 4)))

theorem not_mem_lineOf {entry : List Bool × String} (h : Fits entry.2) :
    '\n' ∉ (lineOf entry).toList := by
  rw [lineOf, String.toList_append, List.mem_append]
  exact not_or.2 ⟨not_mem_before entry.1, h.1⟩

theorem labelOf_lineOf {entry : List Bool × String} (h : Fits entry.2) :
    labelOf (lineOf entry) = entry.2 := by
  obtain ⟨-, hpos, hle⟩ := h
  have hlength := length_before entry.1
  -- One to four characters stand behind the path, so the length tells how long it is.
  have hpath : 4 * (((lineOf entry).length - 1) / 4) = (before entry.1).toList.length := by
    rw [lineOf, String.length_append, String.length_toList]
    omega
  rw [labelOf, hpath, lineOf, String.toList_append, List.drop_left, String.ofList_toList]

section

variable {tree : Tree} (h : ∀ label ∈ tree.labels, Fits label)

include h

theorem fits_of_mem_outline : ∀ entry ∈ tree.outline [], Fits entry.2 := by
  intro entry hentry
  rw [← map_snd_outline []] at h
  exact h _ (List.mem_map_of_mem hentry)

/-- The lines of a drawing are found in it. -/
theorem linesOf_draw : linesOf tree.draw = (tree.outline []).map lineOf := by
  have hlines : ∀ line ∈ tree.lines, '\n' ∉ line.toList := by
    rw [lines_eq]
    refine List.forall_mem_map.2 fun entry hentry => ?_
    exact not_mem_lineOf (fits_of_mem_outline h entry hentry)
  rw [← lines_eq]
  exact linesOf_unlines hlines

/-- The labels are read off a drawing. -/
theorem map_labelOf_linesOf_draw : (linesOf tree.draw).map labelOf = tree.labels := by
  rw [linesOf_draw h, ← map_snd_outline [], List.map_map]
  exact List.map_congr_left fun entry hentry => labelOf_lineOf (fits_of_mem_outline h entry hentry)

end

end Propositional.Text.Tree
