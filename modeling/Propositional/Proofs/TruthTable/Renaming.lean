import Propositional.Proofs.Formula.Renaming
import Propositional.Proofs.TruthTable.Attributes

/-!
# The truth table of a renamed formula

The rows of a truth table know the variables by their places only. So a renaming
that keeps the order of the variables renames the table and leaves its rows as they
are (`semantic_rename`). A renaming that keeps the variables apart may permute rows
and columns, but there are as many of them, and the formula is valid or satisfiable
if it was before (`attributes_semantic_rename`).
-/

namespace Propositional.TruthTable

/-- The table with the variables renamed in its columns, and with its rows as they are. -/
def rename (f : Variable → Variable) (table : TruthTable) : TruthTable where
  vars := table.vars.map f
  columns := table.columns.map (Formula.rename f)
  header := table.columns.map fun q => (q.rename f).text
  rows := table.rows

variable {f : Variable → Variable} {p : Formula}

/-- A new name has the value in a row that the variable has. -/
theorem rowValuation_rename (h : p.KeepsApart f) (i : Nat) {x : Variable} (hx : x ∈ p.vars) :
    rowValuation (p.vars.map f) i (f x) = rowValuation p.vars i x := by
  obtain ⟨k, hk, rfl⟩ := List.getElem_of_mem hx
  have hk' : k < (p.vars.map f).length := by rwa [List.length_map]
  have hname : (p.vars.map f)[k] = f p.vars[k] := List.getElem_map f
  rw [← hname, rowValuation_getElem h.nodup_map i hk', rowValuation_getElem p.nodup_vars i hk,
    List.length_map]

/-- A renamed column has the cells of the column. -/
theorem truth_rename_column (h : p.KeepsApart f) (i : Nat) {q : Formula} (hq : q ∈ p.columns) :
    (q.rename f).truth (rowValuation (p.vars.map f) i) = q.truth (rowValuation p.vars i) := by
  rw [Formula.truth_rename]
  exact Formula.truth_congr fun x hx =>
    rowValuation_rename h i (Formula.occurrences_of_mem_columns hq x hx)

theorem rows_semantic_rename (h : p.KeepsOrder f) :
    (semantic (p.rename f)).rows = (semantic p).rows := by
  rw [semantic, semantic, Formula.vars_rename h, Formula.columns_rename h, List.length_map]
  refine List.map_congr_left fun i _ => ?_
  rw [List.map_map]
  exact List.map_congr_left fun q hq => truth_rename_column h.keepsApart i hq

theorem semantic_rename (h : p.KeepsOrder f) : semantic (p.rename f) = (semantic p).rename f := by
  have hheader : (p.rename f).columns.map Formula.text =
      p.columns.map fun q => (q.rename f).text := by
    rw [Formula.columns_rename h, List.map_map]
    rfl
  exact (TruthTable.mk.injEq ..).mpr
    ⟨Formula.vars_rename h, Formula.columns_rename h, hheader, rows_semantic_rename h⟩

/-- The attributes of a table tell which truth values are among its results. -/
theorem attributes_congr {t u : TruthTable} (h : ∀ b, b ∈ t.results ↔ b ∈ u.results) :
    t.attributes = u.attributes := by
  have hvalid : t.results.all id = u.results.all id := by
    rw [Bool.eq_iff_iff, List.all_eq_true, List.all_eq_true]
    exact forall_congr' fun b => imp_congr_left (h b)
  have hsatisfiable : t.results.any id = u.results.any id := by
    rw [Bool.eq_iff_iff, List.any_eq_true, List.any_eq_true]
    exact exists_congr fun b => and_congr_left' (h b)
  rw [attributes, attributes, hvalid, hsatisfiable]

theorem attributes_semantic_rename (h : p.KeepsApart f) :
    (semantic (p.rename f)).attributes = (semantic p).attributes := by
  refine attributes_congr fun b => ?_
  rw [mem_results_iff, mem_results_iff, Formula.exists_truth_rename_iff h]

/-- The table of a formula depends on the names of the variables through their
order alone. If a renaming keeps the order, the table is renamed, and has the same
rows; if it only keeps the variables apart, the table has as many rows and columns
as before, and the same attributes. -/
theorem ofFormula_rename (p : Formula) (f : Variable → Variable) (h : p.vars.length < 64) :
    ∃ table, ofFormula p = .ok table ∧
      (p.KeepsOrder f → ofFormula (p.rename f) = .ok (table.rename f)) ∧
      (p.KeepsApart f → ∃ renamed, ofFormula (p.rename f) = .ok renamed ∧
        renamed.rows.length = table.rows.length ∧
        renamed.columns.length = table.columns.length ∧
        renamed.attributes = table.attributes) := by
  have hlength (hf : p.KeepsApart f) : (p.rename f).vars.length = p.vars.length := by
    rw [(Formula.perm_vars_rename hf).length_eq, List.length_map]
  refine ⟨semantic p, ofFormula_eq h, fun hf => ?_, fun hf => ?_⟩
  · rw [← semantic_rename hf]
    exact ofFormula_eq (hlength hf.keepsApart ▸ h)
  · refine ⟨semantic (p.rename f), ofFormula_eq (hlength hf ▸ h), ?_,
      Formula.length_columns_rename hf, attributes_semantic_rename hf⟩
    rw [length_rows, length_rows, hlength hf]

/-- `(a=>b)` with names in the same order, and with names in the other order. -/
theorem ofFormula_rename_implication :
    let p := Formula.binary .implication (.var 'a') (.var 'b')
    let ordered : Variable → Variable := fun x => if x = 'a' then 'p' else 'q'
    p.vars.length < 64 ∧ p.KeepsOrder ordered ∧
      ∃ table swapped, ofFormula p = .ok table ∧
        ofFormula (.binary .implication (.var 'p') (.var 'q')) = .ok (table.rename ordered) ∧
        ofFormula (.binary .implication (.var 'q') (.var 'p')) = .ok swapped ∧
        swapped.rows.length = table.rows.length ∧ swapped.attributes = table.attributes := by
  intro p ordered
  have hlt : p.vars.length < 64 := by decide
  have hmem {x : Variable} (hx : x ∈ p.vars) : x = 'a' ∨ x = 'b' := by
    have hx : x ∈ ['a', 'b'] := hx
    simpa using hx
  have horder : p.KeepsOrder ordered := by
    intro x hx y hy
    rcases hmem hx with rfl | rfl <;> rcases hmem hy with rfl | rfl <;> decide
  have hapart : p.KeepsApart fun x => if x = 'a' then 'q' else 'p' := by
    intro x hx y hy
    rcases hmem hx with rfl | rfl <;> rcases hmem hy with rfl | rfl <;> decide
  obtain ⟨table, htable, hsame, -⟩ := ofFormula_rename p ordered hlt
  obtain ⟨table', htable', -, hother⟩ :=
    ofFormula_rename p (fun x => if x = 'a' then 'q' else 'p') hlt
  obtain rfl : table = table' := Except.ok.inj (htable.symm.trans htable')
  obtain ⟨swapped, hswapped, hrows, -, hattributes⟩ := hother hapart
  exact ⟨hlt, horder, table, swapped, htable, hsame horder, hswapped, hrows, hattributes⟩

end Propositional.TruthTable
