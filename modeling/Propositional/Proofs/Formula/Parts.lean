import Propositional.Formula.Nodes

/-!
# The parts of a formula

`vars` is strictly ascending and has the variables that occur (`pairwise_vars`,
`mem_vars_iff`). The traversal with a stack visits the sub-formulas in pre-order
(`nodes_eq_preorder`), none of which has a variable that the formula has not
(`occurrences_of_mem_preorder`). The columns of the truth table of a formula are
sub-formulas (`mem_preorder_of_mem_columns`), so they speak of its variables only
(`occurrences_of_mem_columns`), and the last of them is the formula
(`getLast?_columns`).
-/

namespace Propositional

/-! ## Variables -/

namespace Variable

theorem mem_insert_iff {x y : Variable} {vars : List Variable} :
    y ∈ insert x vars ↔ y = x ∨ y ∈ vars := by
  induction vars with
  | nil => simp [insert]
  | cons z vars ih =>
    rw [insert]
    split
    · exact List.mem_cons
    · split
      · rename_i hxz
        rw [hxz, List.mem_cons, or_self_left]
      · rw [List.mem_cons, ih, List.mem_cons]
        exact or_left_comm

theorem pairwise_insert (x : Variable) {vars : List Variable} (h : vars.Pairwise (· < ·)) :
    (insert x vars).Pairwise (· < ·) := by
  induction vars with
  | nil => exact List.pairwise_singleton _ _
  | cons y vars ih =>
    obtain ⟨hy, hvars⟩ := List.pairwise_cons.1 h
    rw [insert]
    split
    · rename_i hxy
      refine List.pairwise_cons.2 ⟨fun z hz => ?_, h⟩
      rcases List.mem_cons.1 hz with rfl | hz
      · exact hxy
      · exact Char.lt_trans hxy (hy z hz)
    · split
      · exact h
      · rename_i hlt hne
        refine List.pairwise_cons.2 ⟨fun z hz => ?_, ih hvars⟩
        rcases mem_insert_iff.1 hz with rfl | hz
        · exact Decidable.byContradiction fun h =>
            hne (Char.le_antisymm (Char.not_lt.1 h) (Char.not_lt.1 hlt))
        · exact hy z hz

end Variable

namespace Formula

theorem mem_foldl_insert {x : Variable} {occurrences vars : List Variable} :
    x ∈ occurrences.foldl (fun vars x => Variable.insert x vars) vars ↔
      x ∈ occurrences ∨ x ∈ vars := by
  induction occurrences generalizing vars with
  | nil => simp
  | cons y occurrences ih =>
    rw [List.foldl_cons, ih, Variable.mem_insert_iff, List.mem_cons, or_left_comm, or_assoc]

theorem mem_vars_iff {x : Variable} {p : Formula} : x ∈ p.vars ↔ x ∈ p.occurrences := by
  rw [vars, mem_foldl_insert]
  simp

theorem pairwise_vars (p : Formula) : p.vars.Pairwise (· < ·) := by
  have h (occurrences : List Variable) : ∀ vars : List Variable, vars.Pairwise (· < ·) →
      (occurrences.foldl (fun vars x => Variable.insert x vars) vars).Pairwise (· < ·) := by
    induction occurrences with
    | nil => exact fun _ h => h
    | cons x occurrences ih => exact fun vars h => ih _ (Variable.pairwise_insert x h)
  exact h _ [] List.Pairwise.nil

theorem nodup_vars (p : Formula) : p.vars.Nodup :=
  (pairwise_vars p).imp fun h => Char.ne_of_lt h

/-! ## Nodes -/

/-- The sub-formulas in pre-order: the formula, then those of its operands from left to right. -/
def preorder : Formula → List Formula
  | const b => [const b]
  | var x => [var x]
  | neg p => neg p :: p.preorder
  | binary op l r => binary op l r :: (l.preorder ++ r.preorder)

theorem preorder_eq (p : Formula) : p.preorder = p :: p.operands.flatMap preorder := by
  cases p <;> simp [preorder, operands]

/-- The formulas of a stack are visited one after another, each in pre-order. -/
theorem visit_eq_flatMap (stack : List Formula) : visit stack = stack.flatMap preorder := by
  induction stack using visit.induct with
  | case1 => rw [visit, List.flatMap_nil]
  | case2 p stack ih =>
    rw [visit, ih, List.flatMap_append, List.flatMap_cons, preorder_eq p, List.cons_append]

theorem nodes_eq_preorder (p : Formula) : p.nodes = p.preorder := by
  rw [nodes, visit_eq_flatMap, List.flatMap_singleton]

theorem self_mem_preorder (p : Formula) : p ∈ p.preorder := by
  rw [preorder_eq]
  exact List.mem_cons_self

/-- The variables that occur are the sub-formulas that are variables. -/
theorem var_mem_preorder_iff {x : Variable} {p : Formula} :
    var x ∈ p.preorder ↔ x ∈ p.occurrences := by
  induction p with
  | const b => simp [preorder, occurrences]
  | var y => simp [preorder, occurrences]
  | neg p ih => simp [preorder, occurrences, ih]
  | binary op l r ihl ihr => simp [preorder, occurrences, ihl, ihr]

theorem occurrences_of_mem_preorder {p q : Formula} (h : q ∈ p.preorder) :
    ∀ x ∈ q.occurrences, x ∈ p.occurrences := by
  induction p with
  | const b => rw [List.mem_singleton.1 h]; exact fun _ hx => hx
  | var y => rw [List.mem_singleton.1 h]; exact fun _ hx => hx
  | neg p ih =>
    rcases List.mem_cons.1 h with rfl | h
    · exact fun _ hx => hx
    · exact ih h
  | binary op l r ihl ihr =>
    rcases List.mem_cons.1 h with rfl | h
    · exact fun _ hx => hx
    · rcases List.mem_append.1 h with h | h
      · exact fun x hx => List.mem_append_left _ (ihl h x hx)
      · exact fun x hx => List.mem_append_right _ (ihr h x hx)

/-! ## Columns -/

theorem columns_eq (p : Formula) :
    p.columns = p.vars.map var ++ (p.preorder.filter fun q => !q.isVariable).reverse := by
  rw [columns, arrange, nodes_eq_preorder]

/-- The columns are sub-formulas. -/
theorem mem_preorder_of_mem_columns {p q : Formula} (h : q ∈ p.columns) : q ∈ p.preorder := by
  rw [columns_eq, List.mem_append, List.mem_map, List.mem_reverse, List.mem_filter] at h
  rcases h with ⟨x, hx, rfl⟩ | ⟨hq, -⟩
  · exact var_mem_preorder_iff.2 (mem_vars_iff.1 hx)
  · exact hq

theorem occurrences_of_mem_columns {p q : Formula} (h : q ∈ p.columns) :
    ∀ x ∈ q.occurrences, x ∈ p.vars :=
  fun x hx => mem_vars_iff.2 (occurrences_of_mem_preorder (mem_preorder_of_mem_columns h) x hx)

/-- The first columns are the variables. -/
theorem take_columns (p : Formula) : p.columns.take p.vars.length = p.vars.map var := by
  rw [columns_eq, List.take_left' (List.length_map _)]

/-- Behind the variables are the nodes that are no variables, from last to first. -/
theorem drop_columns (p : Formula) :
    p.columns.drop p.vars.length = (p.preorder.filter fun q => !q.isVariable).reverse := by
  rw [columns_eq, List.drop_left' (List.length_map _)]

theorem getElem?_columns {p : Formula} {k : Nat} (h : k < p.vars.length) :
    p.columns[k]? = some (var p.vars[k]) := by
  rw [← List.getElem?_take_of_lt h, take_columns, List.getElem?_map, List.getElem?_eq_getElem h,
    Option.map_some]

/-- The last column is the formula, also if it is a variable and nothing else. -/
theorem getLast?_columns (p : Formula) : p.columns.getLast? = some p := by
  cases hp : p.isVariable with
  | true =>
    cases p with
    | var x => rw [columns_eq]; rfl
    | _ => cases hp
  | false =>
    rw [columns_eq, preorder_eq, List.filter_cons_of_pos (by rw [hp]; rfl), List.reverse_cons,
      ← List.append_assoc, List.getLast?_concat]

end Formula

end Propositional
