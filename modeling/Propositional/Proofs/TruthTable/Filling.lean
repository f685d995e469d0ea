import Mathlib.Logic.Relation
import Propositional.Proofs.Formula.Columns
import Propositional.Proofs.TruthTable.Rows

/-!
# Filling rows from left to right

A row of a truth table can be filled cell by cell: the first cells are the assignment,
and each further one comes from cells to its left, by the connective on top of its
column (`Fill`). Every cell that is filled is the truth value of its column
(`Fill.start_of_row`), whichever of equal columns the operands are taken from, and there
is always a next one, since the operands of a column are in columns before it
(`fill_take`). So all ways to fill a row lead to the row that comes from evaluating
every column on its own (`FillsTo`).
-/

namespace Propositional.TruthTable

/-- `b` is computed for a cell in the column of a formula, from cells that are filled: by
the connective on top of the formula, from any cells in columns of its operands. -/
inductive Computes (filled : List (Formula × Bool)) : Formula → Bool → Prop
  | const (b : Bool) : Computes filled (.const b) b
  | neg {p : Formula} {a : Bool} : (p, a) ∈ filled → Computes filled (.neg p) (!a)
  | binary {op : Connective} {l r : Formula} {a b : Bool} :
      (l, a) ∈ filled → (r, b) ∈ filled → Computes filled (.binary op l r) (op.apply a b)

/-- One more cell of a row is filled. -/
inductive Fill (columns : List Formula) : List Bool → List Bool → Prop
  | cell {cells : List Bool} {q : Formula} {b : Bool} :
      columns[cells.length]? = some q → Computes (columns.zip cells) q b →
      Fill columns cells (cells ++ [b])

/-- However a row is filled from its first cells on, it comes to be `row`. -/
structure FillsTo (columns : List Formula) (start row : List Bool) : Prop where
  /-- The row can be filled. -/
  reaches : Relation.ReflTransGen (Fill columns) start row
  /-- Whatever cells have been filled, they are the first cells of the row. -/
  start_of_row : ∀ cells, Relation.ReflTransGen (Fill columns) start cells → cells <+: row
  /-- There is always a next cell to fill, until the row is full. -/
  goes_on : ∀ cells, Relation.ReflTransGen (Fill columns) start cells → cells ≠ row →
    ∃ next, Fill columns cells next

variable {v : Valuation} {p q : Formula} {b : Bool} {columns : List Formula}
  {cells next : List Bool}

/-! ## One cell -/

/-- From truth values a truth value is computed. -/
theorem Computes.eq_truth {filled : List (Formula × Bool)} (h : Computes filled q b)
    (hf : ∀ cell ∈ filled, cell.2 = cell.1.truth v) : b = q.truth v := by
  cases h with
  | const b => rfl
  | neg hp => rw [Formula.truth, ← hf _ hp]
  | binary hl hr => rw [Formula.truth, ← hf _ hl, ← hf _ hr]

/-- The truth value is computed once there are cells for the operands. -/
theorem computes_truth {filled : List (Formula × Bool)} (hq : q.isVariable = false)
    (hf : ∀ r ∈ q.operands, (r, r.truth v) ∈ filled) : Computes filled q (q.truth v) := by
  cases q with
  | const b => exact .const b
  | var x => cases hq
  | neg p => exact .neg (hf p List.mem_cons_self)
  | binary op l r =>
    exact .binary (hf l List.mem_cons_self) (hf r (List.mem_cons_of_mem _ List.mem_cons_self))

/-- The filled cells of a row, with their columns. -/
theorem zip_take_map (v : Valuation) (columns : List Formula) (n : Nat) :
    columns.zip ((columns.map (Formula.truth v)).take n) =
      (columns.take n).map fun q => (q, q.truth v) := by
  induction columns generalizing n with
  | nil => simp
  | cons q columns ih =>
    cases n with
    | zero => simp
    | succ n => simp [ih]

theorem take_succ_row {n : Nat} (hq : columns[n]? = some q) :
    (columns.map (Formula.truth v)).take (n + 1) =
      (columns.map (Formula.truth v)).take n ++ [q.truth v] := by
  rw [List.take_add_one, List.getElem?_map, hq]
  rfl

/-- If the cells to the left are truth values, so is the cell that is filled. -/
theorem Fill.start_of_row (h : Fill columns cells next)
    (hc : cells <+: columns.map (Formula.truth v)) : next <+: columns.map (Formula.truth v) := by
  have htake := List.prefix_iff_eq_take.1 hc
  cases h with
  | @cell q b hq hb =>
    have hvalue : b = q.truth v := by
      refine hb.eq_truth fun cell hcell => ?_
      rw [htake, zip_take_map] at hcell
      obtain ⟨r, -, rfl⟩ := List.mem_map.1 hcell
      rfl
    rw [hvalue, htake, ← take_succ_row hq]
    exact List.take_prefix _ _

/-- Behind the assignment, the next cell of a row can be filled from those to its left. -/
theorem fill_take {n : Nat} (hn : p.vars.length ≤ n) (hlt : n < p.columns.length) :
    Fill p.columns ((p.columns.map (Formula.truth v)).take n)
      ((p.columns.map (Formula.truth v)).take (n + 1)) := by
  have hq := List.getElem?_eq_getElem hlt
  have hlength : ((p.columns.map (Formula.truth v)).take n).length = n := by
    rw [List.length_take, List.length_map]
    omega
  rw [take_succ_row hq]
  refine .cell (by rw [hlength, hq]) ?_
  refine computes_truth (Formula.isVariable_of_column hq hn) fun r hr => ?_
  rw [zip_take_map]
  exact List.mem_map_of_mem (Formula.mem_take_columns hq hr)

/-! ## Whole rows -/

/-- Whatever cells have been filled, they are truth values. -/
theorem start_of_row_of_fills {start : List Bool}
    (h : Relation.ReflTransGen (Fill columns) start cells)
    (hs : start <+: columns.map (Formula.truth v)) :
    start.length ≤ cells.length ∧ cells <+: columns.map (Formula.truth v) := by
  induction h with
  | refl => exact ⟨Nat.le_refl _, hs⟩
  | tail _ hfill ih =>
    refine ⟨?_, hfill.start_of_row ih.2⟩
    cases hfill with
    | cell _ _ =>
      rw [List.length_append]
      omega

theorem fills_take {n : Nat} (hn : p.vars.length ≤ n) (hle : n ≤ p.columns.length) :
    Relation.ReflTransGen (Fill p.columns) (p.vars.map v)
      ((p.columns.map (Formula.truth v)).take n) := by
  induction hn with
  | refl => rw [take_map_truth]
  | step hn ih => exact .tail (ih (Nat.le_of_succ_le hle)) (fill_take hn hle)

/-- From the values of the variables on, all ways to fill a row lead to the truth values of
the columns. -/
theorem fillsTo_row (p : Formula) (v : Valuation) :
    FillsTo p.columns (p.vars.map v) (p.columns.map (Formula.truth v)) := by
  have hstart : p.vars.map v <+: p.columns.map (Formula.truth v) := by
    rw [← take_map_truth]
    exact List.take_prefix _ _
  refine ⟨?_, fun cells h => (start_of_row_of_fills h hstart).2, fun cells h hne => ?_⟩
  · have hle := hstart.length_le
    rw [List.length_map, List.length_map] at hle
    have hfills := fills_take (v := v) hle (Nat.le_refl _)
    rwa [List.take_of_length_le (Nat.le_of_eq (List.length_map _))] at hfills
  · obtain ⟨hlength, hrow⟩ := start_of_row_of_fills h hstart
    rw [List.length_map] at hlength
    have hlt : cells.length < p.columns.length := by
      refine Nat.lt_of_not_le fun hle => hne (hrow.eq_of_length_le ?_)
      rwa [List.length_map]
    rw [List.prefix_iff_eq_take.1 hrow]
    exact ⟨_, fill_take hlength hlt⟩

/-- The rows of a truth table can be filled from left to right. From its assignment on,
every further cell of a row can be computed from cells to its left, and whatever columns
these are taken from, what comes out is the row. In each row, equal columns have equal
cells. -/
theorem ofFormula_fillsTo (p : Formula) (h : p.vars.length < 64) :
    ∃ table, ofFormula p = .ok table ∧
      table.rows.length = (Assignment.all p.vars.length).length ∧
      ∀ (i : Nat) (assignment : Assignment) (row : List Bool),
        (Assignment.all p.vars.length)[i]? = some assignment → table.rows[i]? = some row →
        FillsTo table.columns assignment row ∧
          ∀ j k : Nat, table.columns[j]? = table.columns[k]? → row[j]? = row[k]? := by
  refine ⟨semantic p, ofFormula_eq h, ?_, fun i assignment row hassignment hrow => ?_⟩
  · rw [length_rows, Assignment.all_eq_digits h, List.length_map, List.length_range]
  · have hi : i < 2 ^ p.vars.length := by
      rw [← length_rows]
      exact (List.getElem?_eq_some_iff.1 hrow).1
    rw [Assignment.all_eq_digits h, List.getElem?_map, List.getElem?_range hi, Option.map_some,
      Option.some_inj, ← map_rowValuation p.nodup_vars] at hassignment
    rw [getElem?_rows hi, Option.some_inj] at hrow
    rw [← hassignment, ← hrow]
    refine ⟨fillsTo_row p _, fun j k hjk => ?_⟩
    have hjk : p.columns[j]? = p.columns[k]? := hjk
    rw [List.getElem?_map, List.getElem?_map, hjk]

/-- In `((a*b)+(a*b))`, the last cell can be computed from two columns of `(a*b)`. -/
theorem ofFormula_fillsTo_repeated :
    let p := Formula.binary .disjunction (.binary .conjunction (.var 'a') (.var 'b'))
      (.binary .conjunction (.var 'a') (.var 'b'))
    p.vars.length < 64 ∧ ∃ table, ofFormula p = .ok table ∧
      (Assignment.all p.vars.length)[3]? = some [true, true] ∧
      table.rows[3]? = some [true, true, true, true, true] ∧
      FillsTo table.columns [true, true] [true, true, true, true, true] := by
  intro p
  have hlt : p.vars.length < 64 := by decide
  obtain ⟨table, htable, -, hrows⟩ := ofFormula_fillsTo p hlt
  have hassignment : (Assignment.all p.vars.length)[3]? = some [true, true] := by decide
  have hrow : table.rows[3]? = some [true, true, true, true, true] := by
    obtain rfl := Except.ok.inj ((ofFormula_eq hlt).symm.trans htable)
    rw [getElem?_rows (by decide), Formula.columns_eq]
    decide
  exact ⟨hlt, table, htable, hassignment, hrow, (hrows 3 _ _ hassignment hrow).1⟩

end Propositional.TruthTable
