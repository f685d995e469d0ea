import Propositional.Proofs.TruthTable.Rows

/-!
# Validity and satisfiability

Every valuation gives the formula of a table the truth value that some row gives
it (`exists_row`), so the last cells of the rows are the truth values that the
formula can have at all (`mem_results_iff`). What the attributes say of these
cells is then said of all valuations (`valid_iff`, `satisfiable_iff`), and so of
all environments that bind the variables of the formula
(`attributes_iff_evaluate`).
-/

namespace Propositional.TruthTable

/-- Some row gives the formula the truth value that a valuation gives it: the row
whose digits are the values of the variables. -/
theorem exists_row (p : Formula) (v : Valuation) :
    ∃ i < 2 ^ p.vars.length, p.truth (rowValuation p.vars i) = p.truth v := by
  have hlength : (p.vars.map v).length = p.vars.length := List.length_map _
  have hdigits : p.vars.map (rowValuation p.vars (Assignment.value (p.vars.map v))) =
      p.vars.map v := by
    rw [map_rowValuation p.nodup_vars, ← hlength, Assignment.digits_value]
  refine ⟨Assignment.value (p.vars.map v), hlength ▸ Assignment.value_lt _, ?_⟩
  exact Formula.truth_congr fun x hx => List.map_inj_left.1 hdigits x (Formula.mem_vars_iff.2 hx)

/-- The last cells are those of the formula. -/
theorem results_semantic (p : Formula) :
    (semantic p).results =
      (List.range (2 ^ p.vars.length)).map fun i => p.truth (rowValuation p.vars i) := by
  have hlast : (List.getLast? ∘ fun i => p.columns.map (Formula.truth (rowValuation p.vars i))) =
      some ∘ fun i => p.truth (rowValuation p.vars i) := by
    funext i
    rw [Function.comp_apply, List.getLast?_map, p.getLast?_columns]
    rfl
  rw [results, semantic, List.filterMap_map, hlast, List.filterMap_eq_map]

theorem mem_results_iff {p : Formula} {b : Bool} :
    b ∈ (semantic p).results ↔ ∃ v : Valuation, p.truth v = b := by
  rw [results_semantic, List.mem_map]
  constructor
  · rintro ⟨i, -, h⟩
    exact ⟨rowValuation p.vars i, h⟩
  · rintro ⟨v, rfl⟩
    obtain ⟨i, hi, h⟩ := exists_row p v
    exact ⟨i, List.mem_range.2 hi, h⟩

theorem valid_iff (p : Formula) :
    (semantic p).attributes.valid = true ↔ ∀ v : Valuation, p.truth v = true := by
  rw [attributes, List.all_eq_true]
  constructor
  · intro h v
    exact h _ (mem_results_iff.2 ⟨v, rfl⟩)
  · intro h b hb
    obtain ⟨v, rfl⟩ := mem_results_iff.1 hb
    exact h v

theorem satisfiable_iff (p : Formula) :
    (semantic p).attributes.satisfiable = true ↔ ∃ v : Valuation, p.truth v = true := by
  rw [attributes, List.any_eq_true, ← mem_results_iff]
  constructor
  · rintro ⟨b, hb, rfl⟩
    exact hb
  · intro h
    exact ⟨true, h, rfl⟩

/-- A formula is valid exactly if no valuation makes its negation true. -/
theorem valid_iff_neg (p : Formula) :
    (semantic p).attributes.valid = true ↔
      (semantic (.neg p)).attributes.satisfiable = false := by
  rw [valid_iff, ← Bool.not_eq_true, satisfiable_iff, not_exists]
  refine forall_congr' fun v => ?_
  rw [Formula.truth]
  cases p.truth v <;> decide

/-- The attributes of a table speak of all environments that bind the variables
of its formula, whatever else these bind. -/
theorem attributes_iff_evaluate (p : Formula) (h : p.vars.length < 64) :
    ∃ table negated, ofFormula p = .ok table ∧ ofFormula (.neg p) = .ok negated ∧
      (table.attributes.valid = true ↔
        ∀ env : Environment, env.Binds p → p.evaluate env = .ok true) ∧
      (table.attributes.satisfiable = true ↔
        ∃ env : Environment, env.Binds p ∧ p.evaluate env = .ok true) ∧
      (table.attributes.valid = true → table.attributes.satisfiable = true) ∧
      (table.attributes.valid = true ↔ negated.attributes.satisfiable = false) := by
  refine ⟨semantic p, semantic (.neg p), ofFormula_eq h, ofFormula_eq h, ?_, ?_, ?_, ?_⟩
  · rw [valid_iff, Environment.forall_evaluate_iff]
  · rw [satisfiable_iff, Environment.exists_evaluate_iff]
  · rw [valid_iff, satisfiable_iff]
    exact fun hvalid => ⟨fun _ => false, hvalid _⟩
  · exact valid_iff_neg p

/-- A variable is satisfiable and not valid: one environment makes it true and another false. -/
theorem attributes_iff_evaluate_variable :
    (Formula.var 'a').vars.length < 64 ∧
      ∃ table, ofFormula (.var 'a') = .ok table ∧ table.attributes.satisfiable = true ∧
        table.attributes.valid = false := by
  have hlt : (Formula.var 'a').vars.length < 64 := by decide
  obtain ⟨table, _, htable, -, hvalid, hsatisfiable, -⟩ := attributes_iff_evaluate _ hlt
  have hbinds (b : Bool) :
      (Environment.ofPairs [('b', false), ('a', b)]).Binds (.var 'a') := by
    intro x hx
    rw [List.mem_singleton.1 (show x ∈ ['a'] from hx)]
    exact ⟨b, rfl⟩
  refine ⟨hlt, table, htable, hsatisfiable.2 ⟨_, hbinds true, rfl⟩, ?_⟩
  refine Bool.not_eq_true _ |>.mp fun h => ?_
  have hfalse : (Formula.var 'a').evaluate (.ofPairs [('b', false), ('a', false)]) = .ok false :=
    rfl
  cases hfalse.symm.trans (hvalid.1 h _ (hbinds false))

end Propositional.TruthTable
