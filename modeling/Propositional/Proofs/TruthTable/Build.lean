import Propositional.Proofs.Log.Leaves
import Propositional.Proofs.TruthTable.Rows

/-!
# Building the table of a text

`Formula.within` is the formula that a text stands for, if it has no more
variables than a limit. It decides what becomes of the text: the table of the
text is the truth table of that formula (`yields_buildTextWithin`), and where
there is none the error is the same. The records that are left on the way are
`parseRecords` and `buildRecords`; all of them are for debugging or tracing.
-/

namespace Propositional

open Log

/-- The formula that a text stands for, if it has no more than `limit` variables. -/
def Formula.within (source : String) (limit : Nat) : Except Error Formula :=
  match parse source with
  | .error e => .error (.parse e)
  | .ok p => (p.checkLimit limit).map fun _ => p

namespace Formula

/-- The records of reading a text. -/
def parseRecords (source : String) : List Record :=
  [⟨.debug, parserTarget, "Parsing \"" ++ String.ofList (Text.strip source.toList) ++ "\""⟩,
    ⟨.debug, parserTarget,
      match parse source with
      | .ok p => "Parsed " ++ p.text
      | .error e => e.message⟩]

theorem isDetail_parseRecords {source : String} {r : Record} (h : r ∈ parseRecords source) :
    r.IsDetail := by
  obtain rfl | rfl : _ ∨ _ := by simpa [parseRecords] using h
  all_goals exact .inl rfl

theorem yields_parseLogged (source : String) : Yields (parseLogged source) (parse source) := by
  rw [parseLogged]
  cases parse source with
  | ok p => exact Yields.after_record (Yields.after_record (yields_ofExcept _))
  | error e => exact Yields.after_record (Yields.after_record (yields_ofExcept _))

theorem leaves_parseLogged (source : String) :
    Leaves (parseLogged source) (parseRecords source) := by
  rw [parseLogged, parseRecords]
  cases parse source with
  | ok p => exact Leaves.after_record (Leaves.after_record (leaves_ofExcept _))
  | error e => exact Leaves.after_record (Leaves.after_record (leaves_ofExcept _))

theorem within_of_error {source : String} {e : ParseError} (h : parse source = .error e)
    (limit : Nat) : within source limit = .error (.parse e) := by
  rw [within, h]

theorem within_of_ok {source : String} {p : Formula} (h : parse source = .ok p) (limit : Nat) :
    within source limit = (p.checkLimit limit).map fun _ => p := by
  rw [within, h]

/-- Either the formula has too many variables, and that is the error, or it is within the limit. -/
theorem checkLimit_cases (p : Formula) (limit : Nat) :
    p.checkLimit limit = .error (.tooManyVariables p.vars.length limit) ∧ limit < p.vars.length ∨
      p.checkLimit limit = .ok () ∧ p.vars.length ≤ limit := by
  rw [checkLimit]
  by_cases h : limit < p.vars.length
  · exact .inl ⟨if_pos h, h⟩
  · exact .inr ⟨if_neg h, Nat.le_of_not_lt h⟩

theorem within_eq_ok {source : String} {limit : Nat} {p : Formula}
    (h : within source limit = .ok p) : parse source = .ok p ∧ p.checkLimit limit = .ok () := by
  cases hp : parse source with
  | error e =>
    rw [within_of_error hp] at h
    cases h
  | ok q =>
    rw [within_of_ok hp] at h
    obtain ⟨hlimit, -⟩ | ⟨hlimit, -⟩ := q.checkLimit_cases limit <;> rw [hlimit] at h <;> cases h
    exact ⟨rfl, hlimit⟩

theorem length_vars_le {source : String} {limit : Nat} {p : Formula}
    (h : within source limit = .ok p) : p.vars.length ≤ limit := by
  obtain ⟨-, hlimit⟩ := within_eq_ok h
  obtain ⟨herror, -⟩ | ⟨-, hle⟩ := p.checkLimit_cases limit
  · cases hlimit.symm.trans herror
  · exact hle

end Formula

namespace TruthTable

/-- The record of building a row. -/
def rowRecord (vars : List Variable) (assignment : Assignment) : Record :=
  ⟨.trace, tableTarget, "Evaluating under " ++ (Environment.ofAssignment vars assignment).text⟩

/-- The records of building the rows of a table. -/
def rowRecords (p : Formula) : List Record :=
  (List.range (2 ^ p.vars.length)).map fun i =>
    rowRecord p.vars (Assignment.digits p.vars.length i)

/-- The records of building a table: the variables, the labels, and one for each row. -/
def buildRecords (p : Formula) : List Record :=
  ⟨.debug, tableTarget, "Variables: " ++ Variable.listText p.vars⟩ ::
    ⟨.debug, tableTarget, "Columns: " ++ " ".intercalate (p.columns.map Formula.text)⟩ ::
      rowRecords p

theorem isDetail_buildRecords {p : Formula} {r : Record} (h : r ∈ buildRecords p) :
    r.IsDetail := by
  rw [buildRecords, List.mem_cons, List.mem_cons] at h
  obtain rfl | rfl | h := h
  · exact .inl rfl
  · exact .inl rfl
  · obtain ⟨i, -, rfl⟩ := List.mem_map.1 h
    exact .inr rfl

theorem leaves_buildRow (vars : List Variable) (columns : List Formula)
    (assignment : Assignment) :
    Leaves (buildRow vars columns assignment) [rowRecord vars assignment] :=
  Leaves.after_record (leaves_ofExcept _)

theorem leaves_rows {p : Formula} (h : p.vars.length < 64) :
    Leaves ((Assignment.all p.vars.length).mapM (buildRow p.vars p.columns)) (rowRecords p) := by
  rw [Assignment.all_eq_digits h, List.mapM_map, rowRecords, List.map_eq_flatMap]
  exact leaves_mapM fun i _ => ⟨yields_buildRow_digits p i, leaves_buildRow _ _ _⟩

theorem leaves_build {p : Formula} (h : p.vars.length < 64) :
    Leaves (build p) (buildRecords p) := by
  rw [buildRecords, ← List.append_nil (rowRecords p)]
  exact Leaves.after_record (Leaves.after_record
    ((leaves_rows h).bind (yields_rows h) (leaves_pure _)))

/-- The table of a text is that of its formula, if the formula is within the limit
and has less than 64 variables. -/
theorem yields_buildTextWithin {source : String} {limit : Nat}
    (h : ∀ p, Formula.within source limit = .ok p → p.vars.length < 64) :
    Yields (buildTextWithin source limit) ((Formula.within source limit).map semantic) := by
  have hparse := (Formula.yields_parseLogged source).adapt Error.parse
  cases hp : Formula.parse source with
  | error e =>
    rw [hp] at hparse
    rw [Formula.within_of_error hp]
    exact hparse.bind_error
  | ok p =>
    rw [hp] at hparse
    rw [Formula.within_of_ok hp] at h ⊢
    refine hparse.bind ?_
    have hcheck := yields_ofExcept (p.checkLimit limit)
    obtain ⟨hlimit, -⟩ | ⟨hlimit, -⟩ := p.checkLimit_cases limit
    · rw [hlimit] at hcheck ⊢
      exact hcheck.bind_error
    · rw [hlimit] at h hcheck ⊢
      exact hcheck.bind ((yields_build (h p rfl)).adapt Error.evaluation)

/-- Without a limit, a text that is no formula has no table. -/
theorem yields_buildText_error {source : String} {e : ParseError}
    (h : Formula.parse source = .error e) : Yields (buildText source) (.error (.parse e)) := by
  have hparse := (Formula.yields_parseLogged source).adapt Error.parse
  rw [h] at hparse
  exact hparse.bind_error

/-- Without a limit, the table of a text is that of its formula if the formula has less
than 64 variables. -/
theorem yields_buildText_ok {source : String} {p : Formula} (hp : Formula.parse source = .ok p)
    (h : p.vars.length < 64) : Yields (buildText source) (.ok (semantic p)) := by
  have hparse := (Formula.yields_parseLogged source).adapt Error.parse
  rw [hp] at hparse
  exact hparse.bind ((yields_build h).adapt Error.evaluation)

theorem ofTextWithin_eq (source : String) {limit : Nat} (h : limit < 64) :
    ofTextWithin source limit = (Formula.within source limit).map semantic :=
  (yields_buildTextWithin fun _ hp => Nat.lt_of_le_of_lt (Formula.length_vars_le hp) h).value_eq

theorem within_of_ofTextWithin_ok {source : String} {limit : Nat} {table : TruthTable}
    (h : limit < 64) (ht : ofTextWithin source limit = .ok table) :
    ∃ p, Formula.within source limit = .ok p ∧ table = semantic p := by
  rw [ofTextWithin_eq source h] at ht
  cases hp : Formula.within source limit with
  | error e => rw [hp] at ht; cases ht
  | ok p => rw [hp] at ht; cases ht; exact ⟨p, rfl, rfl⟩

theorem within_of_ofTextWithin_error {source : String} {limit : Nat} {e : Error}
    (h : limit < 64) (he : ofTextWithin source limit = .error e) :
    Formula.within source limit = .error e := by
  rw [ofTextWithin_eq source h] at he
  cases hp : Formula.within source limit with
  | error e' => rw [hp] at he; cases he; rfl
  | ok p => rw [hp] at he; cases he

end TruthTable

end Propositional
