import Propositional.Proofs.Formula.Context

/-!
# The order of columns

The columns of a truth table are the variables of its formula and then the places of
its other sub-formulas, each place once (`arrange_nodes_vars`). They stand in an order
in which they can be computed: all operands of a formula are in columns before its own
(`mem_take_columns`). This comes from the stack of the traversal. What is left to be
visited behind a formula starts with its operands (`visit_suffix`), and the columns are
the visited formulas from last to first (`exists_suffix_of_column`).
-/

namespace Propositional.Formula

variable {p q r : Formula}

/-! ## Operands -/

/-- Behind a visited formula, its operands are visited, and what was below it on the stack. -/
theorem visit_suffix {stack back : List Formula} (h : q :: back <:+ visit stack) :
    ∃ rest, back = visit (q.operands ++ rest) := by
  induction stack using visit.induct with
  | case1 =>
    rw [visit, List.suffix_nil] at h
    cases h
  | case2 p stack ih =>
    rw [visit, List.suffix_cons_iff] at h
    rcases h with h | h
    · cases h
      exact ⟨stack, rfl⟩
    · exact ih h

/-- In pre-order, the operands of a formula stand behind it. -/
theorem mem_of_suffix_preorder {back : List Formula} (h : q :: back <:+ p.preorder)
    (hr : r ∈ q.operands) : r ∈ back := by
  rw [← nodes_eq_preorder, nodes] at h
  obtain ⟨rest, rfl⟩ := visit_suffix h
  rw [visit_eq_flatMap, List.mem_flatMap]
  exact ⟨r, List.mem_append_left _ hr, self_mem_preorder r⟩

theorem isVariable_of_mem_operands (hr : r ∈ q.operands) : q.isVariable = false := by
  cases q with
  | var x => cases hr
  | _ => rfl

/-! ## Columns -/

/-- The columns of the variables come before all others. -/
theorem length_vars_le_of_column {j : Nat} (hq : p.columns[j]? = some q)
    (hv : q.isVariable = false) : p.vars.length ≤ j := by
  refine Nat.not_lt.1 fun hj => ?_
  rw [getElem?_columns hj] at hq
  cases hq
  cases hv

theorem isVariable_of_column {j : Nat} (hq : p.columns[j]? = some q) (hj : p.vars.length ≤ j) :
    q.isVariable = false := by
  rw [columns_eq, List.getElem?_append_right (by rwa [List.length_map])] at hq
  have hmem := List.mem_of_getElem? hq
  rw [List.mem_reverse, List.mem_filter] at hmem
  simpa using hmem.2

/-- The columns between the variables and a column are what stands behind it in pre-order. -/
theorem exists_suffix_of_column {j : Nat} (hq : p.columns[j]? = some q)
    (hj : p.vars.length ≤ j) :
    ∃ back, q :: back <:+ p.preorder ∧
      (p.columns.take j).drop p.vars.length = (back.filter fun q => !q.isVariable).reverse := by
  obtain ⟨hlt, hget⟩ := List.getElem?_eq_some_iff.1 hq
  have hle : p.vars.length ≤ (p.columns.take j).length := by
    rw [List.length_take]
    omega
  have hsplit : (p.preorder.filter fun q => !q.isVariable).reverse =
      (p.columns.take j).drop p.vars.length ++ q :: p.columns.drop (j + 1) := by
    rw [← drop_columns, ← hget, ← List.drop_eq_getElem_cons hlt,
      ← List.drop_append_of_le_length hle, List.take_append_drop]
  have hfilter := congrArg List.reverse hsplit
  rw [List.reverse_reverse, List.reverse_append, List.reverse_cons, List.append_assoc,
    List.singleton_append, List.filter_eq_append_iff] at hfilter
  obtain ⟨front, behind, hpre, -, hbehind⟩ := hfilter
  obtain ⟨skipped, back, rfl, -, -, hback⟩ := List.filter_eq_cons_iff.1 hbehind
  refine ⟨back, ⟨front ++ skipped, by rw [hpre, List.append_assoc]⟩, ?_⟩
  rw [hback, List.reverse_reverse]

/-- The operands of a column are in columns before it. -/
theorem mem_take_columns {j : Nat} (hq : p.columns[j]? = some q) (hr : r ∈ q.operands) :
    r ∈ p.columns.take j := by
  have hj := length_vars_le_of_column hq (isVariable_of_mem_operands hr)
  obtain ⟨back, hsuffix, hbefore⟩ := exists_suffix_of_column hq hj
  have hmem := mem_of_suffix_preorder hsuffix hr
  cases hv : r.isVariable with
  | false =>
    refine List.mem_of_mem_drop (i := p.vars.length) ?_
    rw [hbefore, List.mem_reverse, List.mem_filter, hv]
    exact ⟨hmem, rfl⟩
  | true =>
    cases r with
    | var x =>
      have hx := var_mem_preorder_iff.1 (hsuffix.subset (List.mem_cons_of_mem _ hmem))
      have hfound : var x ∈ p.columns.take p.vars.length :=
        p.take_columns ▸ List.mem_map_of_mem (mem_vars_iff.2 hx)
      exact (List.take_prefix_take_left hj).subset hfound
    | _ => cases hv

/-- The columns are the parts of the formula in an order in which they can be computed. -/
structure Arranged (columns : List Formula) (p : Formula) : Prop where
  /-- The variables come first. -/
  take_eq : columns.take p.vars.length = p.vars.map var
  /-- They are in ascending order, so that each is there once. -/
  ascending : p.vars.Pairwise (· < ·)
  /-- They are the variables that stand in some place of the formula. -/
  mem_vars_iff : ∀ x, x ∈ p.vars ↔ ∃ c : Context, c.plug (var x) = p
  /-- Behind them there is one column for each place at which something else stands. -/
  drop_eq : ∃ places : List (Context × Formula), places.Nodup ∧
    (∀ c q, (c, q) ∈ places ↔ c.plug q = p ∧ q.isVariable = false) ∧
    columns.drop p.vars.length = places.map Prod.snd
  length_eq : columns.length =
    p.vars.length + (p.nodes.filter fun q => !q.isVariable).length
  /-- The operands of a column are in columns before it. -/
  operand_before : ∀ (j : Nat) (q : Formula), columns[j]? = some q →
    ∀ r ∈ q.operands, ∃ i < j, columns[i]? = some r
  /-- Every column stands in some place of the formula. -/
  exists_place : ∀ q ∈ columns, ∃ c : Context, c.plug q = p
  /-- The last column is the formula. -/
  getLast?_eq : columns.getLast? = some p

/-- The nodes and the variables of a formula are arranged into columns, one for each
variable and one for each place of another node, of which the last is the formula and
every other one comes before the columns it is an operand of. -/
theorem arrange_nodes_vars (p : Formula) : Arranged (arrange p.nodes p.vars) p where
  take_eq := p.take_columns
  ascending := p.pairwise_vars
  mem_vars_iff x := by rw [mem_vars_iff, ← var_mem_preorder_iff, mem_preorder_iff]
  drop_eq := by
    refine ⟨(p.places.filter fun place => !place.2.isVariable).reverse, ?_, fun c q => ?_, ?_⟩
    · exact List.nodup_reverse.2 (p.nodup_places.filter _)
    · rw [List.mem_reverse, List.mem_filter, mem_places_iff, Bool.not_eq_true']
    · rw [← columns, drop_columns, List.map_reverse, ← map_snd_places, List.filter_map]
      rfl
  length_eq := by
    rw [arrange, List.length_append, List.length_map, List.length_reverse]
  operand_before j q hq r hr := by
    obtain ⟨i, hi, hget⟩ := List.mem_take_iff_getElem.1 (mem_take_columns hq hr)
    exact ⟨i, by omega, List.getElem?_eq_some_iff.2 ⟨_, hget⟩⟩
  exists_place q hq := mem_preorder_iff.1 (mem_preorder_of_mem_columns hq)
  getLast?_eq := p.getLast?_columns

end Propositional.Formula
