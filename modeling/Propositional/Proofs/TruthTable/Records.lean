import Mathlib.Data.List.Forall2
import Propositional.Proofs.Environment
import Propositional.Proofs.TruthTable.Limit

/-!
# The records of building a table

To build the table of a text comes to the same whatever is kept of its records, and what is
kept are those of all records that the filter keeps, in order (`LogOf`). All records are
those of reading the text (`parseRecords`) and, if it is read, those of building the table
(`buildRecords`). These are made from the environments of the rows before the cells are
known. They say what stands in the table for all that (`namesRow_rowRecord`): the
environment of a row gives the variables the values that are the cells of their columns, so
that the row determines its record (`namesRow_rightUnique`).
-/

namespace Propositional

open Log

/-- What a logged computation on `source` comes to under every filter, and all its records. -/
structure LogOf {ε α : Type} (m : ExceptT ε Logged α) (result : Except ε α)
    (records : List Record) : Prop where
  /-- The filter decides which records there are, and nothing else. -/
  collect_eq : ∀ keep : Filter,
    m.run.collect keep = (result, records.filter fun r => keep r.level r.target)
  /-- At the level of tracing all records are kept. -/
  collect_trace : m.run.collect (Filter.upTo .trace) = (result, records)
  /-- At any level, the records are those at the level of tracing that are important enough. -/
  collect_upTo : ∀ level : Level, m.run.collect (Filter.upTo level) =
    (result, (m.run.collect (Filter.upTo .trace)).2.filter fun r => r.level.rank ≤ level.rank)
  /-- Without a log there are no records. -/
  collect_none : m.run.collect Filter.none = (result, [])

theorem Log.Level.rank_le (level : Level) : level.rank ≤ Level.trace.rank := by
  cases level <;> decide

theorem Log.Leaves.logOf {ε α : Type} {m : ExceptT ε Logged α} {result : Except ε α}
    {records : List Record} (hl : Leaves m records) (hm : Yields m result) :
    LogOf m result records := by
  have hall : (records.filter fun r => Filter.upTo .trace r.level r.target) = records :=
    List.filter_eq_self.2 fun r _ => decide_eq_true r.level.rank_le
  have hnone : (records.filter fun r => Filter.none r.level r.target) = [] :=
    List.filter_eq_nil_iff.2 fun _ _ => Bool.false_ne_true
  have htrace : m.run.collect (Filter.upTo .trace) = (result, records) := by
    rw [hl.collect_eq hm, hall]
  refine ⟨hl.collect_eq hm, htrace, fun level => ?_, ?_⟩
  · rw [htrace, hl.collect_eq hm]
    rfl
  · rw [hl.collect_eq hm, hnone]

namespace TruthTable

variable {source : String} {p : Formula} {e : ParseError}

/-- The record says which row is evaluated: it names every variable of the table, in their
order, with the value that stands in the row in the column of the variable. -/
def NamesRow (table : TruthTable) (row : List Bool) (r : Record) : Prop :=
  ∃ value : Variable → Bool,
    r = ⟨.trace, "table", "Evaluating under " ++
      Environment.shown (table.vars.map fun x => (x, value x))⟩ ∧
    ∀ x ∈ table.vars, (∃ j : Nat, table.columns[j]? = some (.var x)) ∧
      ∀ j : Nat, table.columns[j]? = some (.var x) → row[j]? = some (value x)

/-- A row has one record, since the columns of the variables hold their values. -/
theorem namesRow_rightUnique (table : TruthTable) : Relator.RightUnique table.NamesRow := by
  rintro row r r' ⟨value, rfl, hvalue⟩ ⟨value', rfl, hvalue'⟩
  have hsame : ∀ x ∈ table.vars, value x = value' x := by
    intro x hx
    obtain ⟨⟨j, hj⟩, hcell⟩ := hvalue x hx
    exact Option.some.inj ((hcell j hj).symm.trans ((hvalue' x hx).2 j hj))
  rw [List.map_congr_left fun x hx => congrArg (Prod.mk x) (hsame x hx)]

/-! ## Rows -/

/-- The environment of a row gives the variables the values of their columns. -/
theorem namesRow_rowRecord (p : Formula) (i : Nat) :
    (semantic p).NamesRow (p.columns.map (Formula.truth (rowValuation p.vars i)))
      (rowRecord p.vars (Assignment.digits p.vars.length i)) := by
  refine ⟨rowValuation p.vars i, ?_, fun x hx => ⟨?_, fun j hj => ?_⟩⟩
  · rw [rowRecord, ← map_rowValuation p.nodup_vars i,
      Environment.text_ofAssignment_map _ p.nodup_vars]
    rfl
  · obtain ⟨k, hk, rfl⟩ := List.getElem_of_mem hx
    exact ⟨k, Formula.getElem?_columns hk⟩
  · have hcolumn : p.columns[j]? = some (.var x) := hj
    rw [List.getElem?_map, hcolumn, Option.map_some, Formula.truth]

/-- There is one record for each row, in the order of the rows. -/
theorem forall₂_rowRecords (p : Formula) :
    List.Forall₂ (semantic p).NamesRow (semantic p).rows (rowRecords p) := by
  rw [semantic, rowRecords, List.forall₂_map_left_iff, List.forall₂_map_right_iff,
    List.forall₂_same]
  exact fun i _ => namesRow_rowRecord p i

/-! ## Texts -/

theorem leaves_buildText_error (h : Formula.parse source = .error e) :
    Leaves (buildText source) (Formula.parseRecords source) := by
  have hparse := (Formula.yields_parseLogged source).adapt Error.parse
  rw [h] at hparse
  exact ((Formula.leaves_parseLogged source).adapt _).bind_error hparse

theorem leaves_buildText_ok (hp : Formula.parse source = .ok p) (h : p.vars.length < 64) :
    Leaves (buildText source) (Formula.parseRecords source ++ buildRecords p) := by
  have hparse := (Formula.yields_parseLogged source).adapt Error.parse
  rw [hp] at hparse
  exact ((Formula.leaves_parseLogged source).adapt _).bind hparse ((leaves_build h).adapt _)

/-- What is recorded of a text is what comes of it. The result does not depend on what is
recorded. All records are the text without its blanks, what came of reading it, and if that
is a formula, the variables and the labels of its table and then one for each row, with the
values that the variables have in the row. -/
theorem buildText_records (source : String) :
    ∃ records, LogOf (buildText source) (ofText source) records ∧
      ((∃ e, Formula.parse source = .error e ∧ ofText source = .error (.parse e) ∧
        records =
          [⟨.debug, "parser",
            "Parsing \"" ++ String.ofList (Text.strip source.toList) ++ "\""⟩,
          ⟨.debug, "parser",
            "failed to parse formula, unconsumed input: \"" ++ e.remainder ++ "\""⟩]) ∨
      ∃ p table rowRecords, Formula.parse source = .ok p ∧ ofText source = .ok table ∧
        records =
          ⟨.debug, "parser", "Parsing \"" ++ String.ofList (Text.strip source.toList) ++ "\""⟩ ::
          ⟨.debug, "parser", "Parsed " ++ p.text⟩ ::
          ⟨.debug, "table",
            "Variables: \x7b" ++ ", ".intercalate (table.vars.map String.singleton) ++ "\x7d"⟩ ::
          ⟨.debug, "table", "Columns: " ++ " ".intercalate table.header⟩ :: rowRecords ∧
        List.Forall₂ table.NamesRow table.rows rowRecords) := by
  cases hp : Formula.parse source with
  | error e =>
    have hyields := yields_buildText_error hp
    have htext : ofText source = .error (.parse e) := hyields.value_eq
    refine ⟨_, htext ▸ (leaves_buildText_error hp).logOf hyields, .inl ⟨e, rfl, htext, ?_⟩⟩
    rw [Formula.parseRecords, hp]
    rfl
  | ok p =>
    have hlt := (Formula.lettered_of_parse hp).length_vars_lt
    have hlog := (leaves_buildText_ok hp hlt).logOf (yields_buildText_ok hp hlt)
    have htext := ofText_of_parse hp
    refine ⟨_, htext ▸ hlog, .inr ⟨p, semantic p, rowRecords p, rfl, htext, ?_, ?_⟩⟩
    · rw [Formula.parseRecords, hp]
      rfl
    · exact forall₂_rowRecords p

open Grammar in
/-- The records of `b+ a`, whose variables are listed in the order of the letters, and not in that
of the text. -/
theorem buildText_records_disjunction :
    let table : TruthTable :=
      ⟨['a', 'b'], [.var 'a', .var 'b', .binary .disjunction (.var 'b') (.var 'a')],
        ["a", "b", "(b+a)"],
        [[false, false, false], [false, true, true], [true, false, true], [true, true, true]]⟩
    LogOf (buildText "b+ a") (.ok table)
      [⟨.debug, "parser", "Parsing \"b+a\""⟩,
        ⟨.debug, "parser", "Parsed (b+a)"⟩,
        ⟨.debug, "table", "Variables: \x7ba, b\x7d"⟩,
        ⟨.debug, "table", "Columns: a b (b+a)"⟩,
        ⟨.trace, "table", "Evaluating under \x7ba=0, b=0\x7d"⟩,
        ⟨.trace, "table", "Evaluating under \x7ba=0, b=1\x7d"⟩,
        ⟨.trace, "table", "Evaluating under \x7ba=1, b=0\x7d"⟩,
        ⟨.trace, "table", "Evaluating under \x7ba=1, b=1\x7d"⟩] := by
  intro table
  have hlinks : Links ['+', 'a'] [(.disjunction, .var 'a')] 0 :=
    @Links.cons .disjunction ['a'] [] _ _ _ _ (.letter rfl) .nil
  have hparse : Formula.parse "b+ a" = .ok (.binary .disjunction (.var 'b') (.var 'a')) :=
    Formula.parse_eq_ok_iff.2 ⟨0, by decide, .chain (.letter rfl) hlinks⟩
  have hsemantic : semantic (.binary .disjunction (.var 'b') (.var 'a')) = table := by
    decide +kernel
  have htext : ofText "b+ a" = .ok table := (ofText_of_parse hparse).trans (congrArg _ hsemantic)
  have hlines := forall₂_rowRecords (.binary .disjunction (.var 'b') (.var 'a'))
  rw [hsemantic] at hlines
  obtain ⟨records, hlog, ⟨e, he, -⟩ | ⟨p, table', lines, hp, htable, hrecords, hlines'⟩⟩ :=
    buildText_records "b+ a"
  · cases hparse.symm.trans he
  · cases hparse.symm.trans hp
    cases htext.symm.trans htable
    rw [htext, hrecords, (namesRow_rightUnique table).forall₂ hlines' hlines] at hlog
    exact (congrArg (LogOf _ _) (by decide +kernel)).mp hlog

end TruthTable

end Propositional
