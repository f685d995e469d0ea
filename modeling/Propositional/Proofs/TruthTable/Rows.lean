import Propositional.Proofs.Assignment
import Propositional.Proofs.Log.Yields
import Propositional.Proofs.Truth
import Propositional.TruthTable.Build

/-!
# The rows of a truth table

Row `i` of a truth table stands for the valuation that gives the variables the
digits of `i` (`rowValuation`). A formula with less than 64 variables has a
table, and the cells of each row are the truth values of the columns under the
valuation of the row (`ofFormula_eq`): the environment of a row binds what
occurs in a column, so that no evaluation fails (`mapM_evaluate`). `Tabulates`
states what this says of the rows and cells.
-/

namespace Propositional

/-- The valuation that gives the variables the last binary digits of `i`, the
first variable the most significant one. -/
def rowValuation (vars : List Variable) (i : Nat) : Valuation :=
  fun x => i.testBit (vars.length - 1 - vars.idxOf x)

theorem rowValuation_getElem {vars : List Variable} (hv : vars.Nodup) (i : Nat) {k : Nat}
    (h : k < vars.length) : rowValuation vars i vars[k] = i.testBit (vars.length - 1 - k) := by
  rw [rowValuation, hv.idxOf_getElem]

/-- The values of the variables in row `i` are the digits of `i`. -/
theorem map_rowValuation {vars : List Variable} (hv : vars.Nodup) (i : Nat) :
    vars.map (rowValuation vars i) = Assignment.digits vars.length i := by
  apply List.ext_getElem
  · rw [List.length_map, Assignment.length_digits]
  · intro k hk _
    rw [List.length_map] at hk
    rw [List.getElem_map, rowValuation_getElem hv i hk, Assignment.getElem_digits]

namespace TruthTable

open Log

/-! ## Building the rows -/

/-- No evaluation fails in an environment that binds what occurs in the formulas. -/
theorem mapM_evaluate (v : Valuation) {vars : List Variable} {columns : List Formula}
    (h : ∀ q ∈ columns, ∀ x ∈ q.occurrences, x ∈ vars) :
    (columns.mapM fun q => q.evaluate (Environment.ofAssignment vars (vars.map v))) =
      .ok (columns.map (Formula.truth v)) := by
  induction columns with
  | nil => rfl
  | cons q columns ih =>
    obtain ⟨hq, hcolumns⟩ := List.forall_mem_cons.1 h
    rw [List.mapM_cons, Environment.evaluate_ofAssignment_map v hq, ih hcolumns, List.map_cons]
    rfl

theorem yields_buildRow (v : Valuation) {vars : List Variable} {columns : List Formula}
    (h : ∀ q ∈ columns, ∀ x ∈ q.occurrences, x ∈ vars) :
    Yields (buildRow vars columns (vars.map v)) (.ok (columns.map (Formula.truth v))) := by
  rw [← mapM_evaluate v h]
  exact (yields_ofExcept _).after_record

/-- The truth table of a formula, by the truth values of its columns. -/
def semantic (p : Formula) : TruthTable where
  vars := p.vars
  columns := p.columns
  header := p.columns.map Formula.text
  rows := (List.range (2 ^ p.vars.length)).map fun i =>
    p.columns.map (Formula.truth (rowValuation p.vars i))

/-- Row `i` is built by evaluating the columns under the digits of `i`. -/
theorem yields_buildRow_digits (p : Formula) (i : Nat) :
    Yields (buildRow p.vars p.columns (Assignment.digits p.vars.length i))
      (.ok (p.columns.map (Formula.truth (rowValuation p.vars i)))) := by
  rw [← map_rowValuation p.nodup_vars i]
  exact yields_buildRow _ fun q hq => Formula.occurrences_of_mem_columns hq

theorem yields_rows {p : Formula} (h : p.vars.length < 64) :
    Yields ((Assignment.all p.vars.length).mapM (buildRow p.vars p.columns))
      (.ok (semantic p).rows) := by
  rw [Assignment.all_eq_digits h, List.mapM_map]
  exact yields_mapM fun i _ => yields_buildRow_digits p i

theorem yields_build {p : Formula} (h : p.vars.length < 64) :
    Yields (build p) (.ok (semantic p)) :=
  Yields.after_record (Yields.after_record ((yields_rows h).bind (yields_pure (semantic p))))

theorem ofFormula_eq {p : Formula} (h : p.vars.length < 64) : ofFormula p = .ok (semantic p) :=
  (yields_build h).value_eq

theorem getElem?_rows {p : Formula} {i : Nat} (hi : i < 2 ^ p.vars.length) :
    (semantic p).rows[i]? = some (p.columns.map (Formula.truth (rowValuation p.vars i))) := by
  rw [semantic, List.getElem?_map, List.getElem?_range hi, Option.map_some]

theorem length_rows (p : Formula) : (semantic p).rows.length = 2 ^ p.vars.length := by
  rw [semantic, List.length_map, List.length_range]

/-- The truth values of the columns start with the values of the variables. -/
theorem take_map_truth (p : Formula) (v : Valuation) :
    (p.columns.map (Formula.truth v)).take p.vars.length = p.vars.map v := by
  rw [← List.map_take, p.take_columns, List.map_map]
  rfl

/-- A row starts with the digits of its number. -/
theorem take_row (p : Formula) (i : Nat) :
    (p.columns.map (Formula.truth (rowValuation p.vars i))).take p.vars.length =
      Assignment.digits p.vars.length i := by
  rw [take_map_truth, map_rowValuation p.nodup_vars i]

/-! ## Cells -/

/-- The cell in row `i` and column `j`. -/
def cell? (table : TruthTable) (i j : Nat) : Option Bool :=
  table.rows[i]?.bind fun row => row[j]?

theorem cell?_semantic {p : Formula} {i : Nat} (hi : i < 2 ^ p.vars.length) (j : Nat) :
    (semantic p).cell? i j = p.columns[j]?.map (Formula.truth (rowValuation p.vars i)) := by
  rw [cell?, getElem?_rows hi, Option.bind_some, List.getElem?_map]

/-- The table is the truth table of the formula. -/
structure Tabulates (table : TruthTable) (p : Formula) : Prop where
  vars_eq : table.vars = p.vars
  columns_eq : table.columns = p.columns
  header_eq : table.header = p.columns.map Formula.text
  length_rows : table.rows.length = 2 ^ p.vars.length
  length_row : ∀ row ∈ table.rows,
    row.length = table.columns.length ∧ row.length = table.header.length
  /-- The first cells of row `i` are the digits of `i`, the most significant first. -/
  cell_digit : ∀ i < 2 ^ p.vars.length, ∀ k < p.vars.length,
    table.cell? i k = some (i.testBit (p.vars.length - 1 - k))
  /-- The cells of row `i` are the truth values of the columns when the variables have
  the digits of `i`. -/
  cell_truth : ∀ i < 2 ^ p.vars.length, ∀ v : Valuation,
    (∀ (k : Nat) (h : k < p.vars.length), v p.vars[k] = i.testBit (p.vars.length - 1 - k)) →
    ∀ (j : Nat) (q : Formula), table.columns[j]? = some q → table.cell? i j = some (q.truth v)
  /-- Every assignment starts one row, and the rows are in counting order. -/
  row_iff : ∀ bits : Assignment, bits.length = p.vars.length → ∀ i : Nat,
    table.rows[i]?.map (List.take p.vars.length) = some bits ↔ i = bits.value

/-- A column has the truth value of row `i` whenever the variables have the digits of `i`. -/
theorem truth_column {p q : Formula} {i : Nat} {v : Valuation}
    (hv : ∀ (k : Nat) (h : k < p.vars.length), v p.vars[k] = i.testBit (p.vars.length - 1 - k))
    (hq : q ∈ p.columns) : q.truth (rowValuation p.vars i) = q.truth v := by
  refine Formula.truth_congr fun x hx => ?_
  obtain ⟨k, hk, rfl⟩ := List.getElem_of_mem (Formula.occurrences_of_mem_columns hq x hx)
  rw [rowValuation_getElem p.nodup_vars i hk, hv k hk]

theorem tabulates_semantic (p : Formula) : (semantic p).Tabulates p where
  vars_eq := rfl
  columns_eq := rfl
  header_eq := rfl
  length_rows := length_rows p
  length_row := by
    intro row hrow
    obtain ⟨i, -, rfl⟩ := List.mem_map.1 hrow
    rw [List.length_map]
    exact ⟨rfl, (List.length_map _).symm⟩
  cell_digit := by
    intro i hi k hk
    rw [cell?_semantic hi, Formula.getElem?_columns hk, Option.map_some, Formula.truth,
      rowValuation_getElem p.nodup_vars i hk]
  cell_truth := by
    intro i hi v hv j q hq
    rw [cell?_semantic hi, show p.columns[j]? = some q from hq, Option.map_some,
      truth_column hv (List.mem_of_getElem? hq)]
  row_iff := by
    intro bits hbits i
    by_cases hi : i < 2 ^ p.vars.length
    · rw [getElem?_rows hi, Option.map_some, take_row, Option.some_inj,
        Assignment.digits_eq_iff hi hbits]
    · have hrow : (semantic p).rows[i]? = none :=
        List.getElem?_eq_none (by rw [length_rows]; omega)
      have hlt := Assignment.value_lt bits
      rw [hbits] at hlt
      rw [hrow, Option.map_none]
      constructor
      · intro h
        cases h
      · intro h
        omega

/-- A formula with less than 64 variables has a truth table, and no evaluation
fails on the way to it. -/
theorem ofFormula_tabulates (p : Formula) (h : p.vars.length < 64) :
    ∃ table, ofFormula p = .ok table ∧ table.Tabulates p :=
  ⟨semantic p, ofFormula_eq h, tabulates_semantic p⟩

/-- The table of `(a => b)` has four rows, and its formula fails in the third. -/
theorem ofFormula_tabulates_implication :
    (Formula.binary .implication (.var 'a') (.var 'b')).vars.length < 64 ∧
      ∃ table, ofFormula (.binary .implication (.var 'a') (.var 'b')) = .ok table ∧
        table.rows.length = 4 ∧ table.cell? 2 2 = some false := by
  have hlt : (Formula.binary .implication (.var 'a') (.var 'b')).vars.length < 64 := by decide
  obtain ⟨table, htable, h⟩ := ofFormula_tabulates _ hlt
  refine ⟨hlt, table, htable, h.length_rows, ?_⟩
  have hcolumn : table.columns[2]? = some (.binary .implication (.var 'a') (.var 'b')) := by
    rw [h.columns_eq, Formula.columns_eq]
    decide
  exact h.cell_truth 2 (by decide) (· == 'a') (by decide) 2 _ hcolumn

end TruthTable

end Propositional
