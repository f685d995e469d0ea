import Propositional.Proofs.CommandLine.Printing
import Propositional.Proofs.TruthTable.Limit

/-!
# Runs for several formulas

A turn puts the report of its formula behind what was reported (`turn_eq`), and so do
turns one after the other (`turns_eq`). The turns for the second half of the formulas
go on from what those for the first half left (`turns_append`). So a run for some
formulas followed by others prints what a run for the first and a run for the others
print, with an empty line between, and fails if one of the two fails (`Result.Joins`,
`reportAll_append`): a formula that has no table takes nothing from the others. A run
fails exactly if some formula has no table (`exitCode_eq_one_iff`), and what it prints
for one formula is then the error and nothing else. That a formula is known to have a
table before anything is printed for it, its tree included, is due to
`Formula.length_vars_lt_of_within`.
-/

namespace Propositional.CommandLine

open Log

/-! ## Arguments -/

/-- The arguments ask for the tables of the formulas, with the options. -/
def Asks (args : List String) (options : Options) (formulas : List String) : Prop :=
  Request.ofArguments args = some (.tables options formulas)

section

variable {draft : Draft} {args formulas : List String} {options : Options}

theorem Draft.ne_nil_of_finish (h : draft.finish = some (.tables options formulas)) :
    formulas ≠ [] := by
  rw [Draft.finish] at h
  split at h
  · cases h
  · rename_i hne
    cases h
    simpa using hne

theorem Draft.ne_nil_of_read (h : draft.read args = some (.tables options formulas)) :
    formulas ≠ [] := by
  fun_induction Draft.read draft args with
  | case1 draft => exact ne_nil_of_finish h
  | case2 draft arg args text harg ih => exact ih h
  | case3 draft arg args setting value harg ih
  | case5 draft arg setting harg value args ih =>
    obtain ⟨next, -, hnext⟩ := Option.bind_eq_some_iff.1 h
    exact ih next hnext
  | case7 draft arg args harg htree ih => exact ih h
  | case10 draft arg args harg => exact ne_nil_of_finish h
  | case4 | case6 | case8 | case9 | case11 => cases h

/-- There is always a formula to be asked for. -/
theorem Asks.ne_nil (h : Asks args options formulas) : formulas ≠ [] :=
  Draft.ne_nil_of_read h

end

/-- A number is read from its decimal digits. -/
theorem readCount?_repr {n : Nat} (h : n < UInt64.size) : readCount? n.repr = some n := by
  have hvalue : ofDigits (Nat.toDigits 10 n) = n :=
    Nat.ofDigitChars_toDigits (by decide) (by decide)
  have hdigits : ∀ c ∈ Nat.toDigits 10 n, c.isDigit := fun _ hc =>
    Nat.isDigit_of_mem_toDigits (by decide) (by decide) hc
  have hne : Nat.toDigits 10 n ≠ [] := Nat.toDigits_ne_nil
  rw [readCount?, Nat.toList_repr]
  generalize Nat.toDigits 10 n = digits at hvalue hdigits hne
  split
  · cases hdigits '+' List.mem_cons_self
  · have hall : digits.all Char.isDigit := List.all_eq_true.2 hdigits
    simp [hvalue, h, hall, hne]

/-- The options as arguments. -/
def Options.arguments (options : Options) : List String :=
  ["--format", options.format.name, "--max-variables", options.maxVariables.repr] ++
    if options.tree then ["--tree"] else []

/-- All options can be given, with a number of 64 bits, and all formulas behind a separator. -/
theorem asks_arguments {options : Options} (h : options.maxVariables < UInt64.size)
    {formulas : List String} (hf : formulas ≠ []) :
    Asks (options.arguments ++ "--" :: formulas) options formulas := by
  have hformat : Argument.ofString "--format" = .setting .format none := by decide +kernel
  have hcount : Argument.ofString "--max-variables" = .setting .maxVariables none := by
    decide +kernel
  have htree : Argument.ofString "--tree" = .tree := by decide +kernel
  have hseparator : Argument.ofString "--" = .separator := by decide +kernel
  have hname : Format.ofName? options.format.name = some options.format := by
    cases options.format <;> decide +kernel
  obtain ⟨format, maxVariables, tree⟩ := options
  cases tree <;>
    simp [Asks, Options.arguments, Request.ofArguments, Draft.read, Draft.set?, Draft.finish,
      hformat, hcount, htree, hseparator, hname, readCount?_repr h, hf]

/-! ## Turns -/

section

variable {options : Options} {surroundings : Surroundings}

/-- A turn puts the report of its formula behind what was reported, and an empty line between
the two unless it is the first turn. A run that has failed stays failed. -/
theorem turn_eq (index : Nat) (source : String) (before : Report) :
    turn options surroundings index source before =
      let own := reportOf options surroundings source
      { stdout := before.stdout ++ separator index ++ own.stdout
        stderr := before.stderr ++ own.stderr
        failed := before.failed || own.failed } := by
  cases h : Formula.within source options.maxVariables with
  | error e => simp [turn_error h, reportOf_error h]
  | ok p =>
    have hvars := Formula.length_vars_lt_of_within h
    simp [turn_ok h hvars, reportOf_ok h hvars]

/-- The turns for some formulas followed by others are those for the first, and from what these
report and the next index on, those for the others. -/
theorem turns_append (fs gs : List String) (index : Nat) (before : Report) :
    turns options surroundings (fs ++ gs) index before =
      turns options surroundings gs (index + fs.length)
        (turns options surroundings fs index before) := by
  induction fs generalizing index before with
  | nil => rfl
  | cons source fs ih =>
    rw [List.cons_append, turns, turns, ih, List.length_cons, Nat.add_assoc, Nat.add_comm 1]

/-- Turns put the reports of their formulas behind what was reported, with empty lines between
them. Before the first report there is one unless the turns begin with the first of the run. -/
theorem turns_eq (source : String) (formulas : List String) (index : Nat) (before : Report) :
    turns options surroundings (source :: formulas) index before =
      let reports := (source :: formulas).map (reportOf options surroundings)
      { stdout := before.stdout ++ separator index ++ "\n".intercalate (reports.map Report.stdout)
        stderr := before.stderr ++ String.join (reports.map Report.stderr)
        failed := before.failed || reports.any Report.failed } := by
  induction formulas generalizing source index before with
  | nil => simp [turns, turn_eq]
  | cons next formulas ih =>
    have hlater : separator (index + 1) = "\n" := if_pos (Nat.succ_pos index)
    rw [turns, ih, turn_eq, hlater]
    simp [String.append_assoc, Bool.or_assoc]

end

/-! ## Reports -/

/-- What becomes of a run for some formulas followed by others, from the runs for
the first and for the others. -/
structure Result.Joins (both first second : Result) : Prop where
  stdout_eq : both.stdout = first.stdout ++ "\n" ++ second.stdout
  stderr_eq : both.stderr = first.stderr ++ second.stderr
  exitCode_eq_one_iff : both.exitCode = 1 ↔ first.exitCode = 1 ∨ second.exitCode = 1

section

variable {options : Options} {surroundings : Surroundings} {args : List String}

/-- A run reports on its formulas one after the other, and has failed if one of them has. -/
theorem reportAll_eq (formulas : List String) :
    reportAll options surroundings formulas =
      let reports := formulas.map (reportOf options surroundings)
      { stdout := "\n".intercalate (reports.map Report.stdout)
        stderr := String.join (reports.map Report.stderr)
        failed := reports.any Report.failed } := by
  cases formulas with
  | nil => rfl
  | cons source formulas =>
    rw [reportAll, turns_eq]
    simp [Report.start, separator]

theorem reportAll_append {fs gs : List String} (hf : fs ≠ []) (hg : gs ≠ []) :
    reportAll options surroundings (fs ++ gs) =
      let first := reportAll options surroundings fs
      let second := reportAll options surroundings gs
      ⟨first.stdout ++ "\n" ++ second.stdout, first.stderr ++ second.stderr,
        first.failed || second.failed⟩ := by
  obtain ⟨source, formulas, rfl⟩ := List.exists_cons_of_ne_nil hg
  have hlater : separator (0 + fs.length) = "\n" :=
    if_pos (Nat.lt_of_lt_of_eq (List.length_pos_of_ne_nil hf) (Nat.zero_add _).symm)
  rw [reportAll_eq (source :: formulas), reportAll, turns_append, turns_eq, hlater, reportAll]

/-- A run reports on the formulas that are asked for. -/
theorem run_of_asks {formulas : List String} (h : Asks args options formulas) :
    run surroundings args =
      let report := reportAll options surroundings formulas
      ⟨if report.failed then 1 else 0, report.stdout, report.stderr⟩ := by
  rw [Asks] at h
  rw [run, h]

theorem exitCode_eq_one_iff_failed {formulas : List String} (h : Asks args options formulas) :
    (run surroundings args).exitCode = 1 ↔
      (reportAll options surroundings formulas).failed = true := by
  rw [run_of_asks h]
  simp

theorem joins_run {fs gs first second both : List String} (hfirst : Asks first options fs)
    (hsecond : Asks second options gs) (hboth : Asks both options (fs ++ gs)) :
    (run surroundings both).Joins (run surroundings first) (run surroundings second) where
  stdout_eq := by
    simp only [run_of_asks hfirst, run_of_asks hsecond, run_of_asks hboth,
      reportAll_append hfirst.ne_nil hsecond.ne_nil]
  stderr_eq := by
    simp only [run_of_asks hfirst, run_of_asks hsecond, run_of_asks hboth,
      reportAll_append hfirst.ne_nil hsecond.ne_nil]
  exitCode_eq_one_iff := by
    simp only [exitCode_eq_one_iff_failed hfirst, exitCode_eq_one_iff_failed hsecond,
      exitCode_eq_one_iff_failed hboth, reportAll_append hfirst.ne_nil hsecond.ne_nil,
      Bool.or_eq_true]

/-! ## Failures -/

theorem failed_reportOf_iff {source : String} :
    (reportOf options surroundings source).failed = true ↔
      ∃ e, TruthTable.ofTextWithin source options.maxVariables = .error e := by
  simp only [TruthTable.ofTextWithin_eq_error_iff]
  cases hp : Formula.within source options.maxVariables with
  | error e => simp [reportOf_error hp]
  | ok p => simp [reportOf_ok hp (Formula.length_vars_lt_of_within hp)]

/-- A run fails exactly if one of its formulas has no table. -/
theorem exitCode_eq_one_iff {formulas : List String} (h : Asks args options formulas) :
    (run surroundings args).exitCode = 1 ↔ ∃ source ∈ formulas, ∃ e,
      TruthTable.ofTextWithin source options.maxVariables = .error e := by
  rw [exitCode_eq_one_iff_failed h]
  simp [reportAll_eq, List.any_map, failed_reportOf_iff]

theorem run_single_error {source : String} (h : Asks args options [source])
    (hquiet : surroundings.keep.Quiet) {e : Error}
    (he : TruthTable.ofTextWithin source options.maxVariables = .error e) :
    run surroundings args = ⟨1, "", errorLine surroundings.styling source e⟩ := by
  rw [run_of_asks h, reportAll_singleton,
    reportOf_error (TruthTable.ofTextWithin_eq_error_iff.1 he),
    logText_eq_empty hquiet fun _ => Formula.isDetail_parseRecords]
  simp

theorem run_single_ok {source : String} (h : Asks args options [source])
    (hquiet : surroundings.keep.Quiet) {p : Formula}
    (hp : Formula.within source options.maxVariables = .ok p) :
    run surroundings args = ⟨0, printedFor options surroundings.styling p, ""⟩ := by
  rw [run_of_asks h, reportAll_singleton, reportOf_ok hp (Formula.length_vars_lt_of_within hp),
    logText_eq_empty hquiet fun _ => isDetail_recordsFor]
  simp

end

/-- All non-empty lists of formulas can be asked for, with all options. A run for
some formulas followed by others joins the run for the first and the run for the
others, and a run fails exactly if one of its formulas has no table. Without a log,
a run for one formula prints the line of the error and nothing else if the formula
has no table, and no error if it has one. -/
theorem runs_join_and_fail_cleanly (surroundings : Surroundings) (options : Options) :
    (options.maxVariables < UInt64.size →
      ∀ formulas, formulas ≠ [] → ∃ args, Asks args options formulas) ∧
    (∀ fs gs first second both, Asks first options fs → Asks second options gs →
      Asks both options (fs ++ gs) →
        (run surroundings both).Joins (run surroundings first) (run surroundings second)) ∧
    (∀ formulas args, Asks args options formulas →
      ((run surroundings args).exitCode = 1 ↔ ∃ source ∈ formulas, ∃ e,
        TruthTable.ofTextWithin source options.maxVariables = .error e)) ∧
    (surroundings.keep.Quiet → ∀ source args, Asks args options [source] →
      (∀ e, TruthTable.ofTextWithin source options.maxVariables = .error e →
        run surroundings args = ⟨1, "", Text.styled surroundings.styling [.bold, .red] "error:" ++
          " " ++ source ++ ": " ++ e.message ++ "\n"⟩) ∧
      ∀ table, TruthTable.ofTextWithin source options.maxVariables = .ok table →
        (run surroundings args).exitCode = 0 ∧ (run surroundings args).stderr = "") := by
  refine ⟨fun h _ hf => ⟨_, asks_arguments h hf⟩, fun _ _ _ _ _ => joins_run,
    fun _ _ => exitCode_eq_one_iff,
    fun hquiet source args h => ⟨fun e => ?_, fun table htable => ?_⟩⟩
  · exact run_single_error h hquiet
  · obtain ⟨p, hp, -⟩ := TruthTable.ofTextWithin_eq_ok_iff.1 htable
    rw [run_single_ok h hquiet hp]
    exact ⟨rfl, rfl⟩

open Grammar in
/-- A text that breaks off, and a constant behind it, with their trees and in colours:
of the first there is the error, and the second is printed as if it were alone. -/
theorem runs_join_and_fail_cleanly_error_first :
    let surroundings : Surroundings := ⟨true, Filter.upTo .error⟩
    let options : Options := { tree := true }
    (∃ args, Asks args options ["a+", "0"]) ∧
      Asks ["--tree", "a+"] options ["a+"] ∧ Asks ["0", "--tree"] options ["0"] ∧
      run surroundings ["--tree", "a+"] = ⟨1, "", "\x1b[1;31merror:\x1b[0m a+: " ++
        "failed to parse formula, unconsumed input: \"+\"\n"⟩ ∧
      (run surroundings ["0", "--tree"]).exitCode = 0 ∧
      (run surroundings ["a+", "--tree", "--", "0"]).exitCode = 1 ∧
      (run surroundings ["a+", "--tree", "--", "0"]).stdout =
        "" ++ "\n" ++ (run surroundings ["0", "--tree"]).stdout ∧
      (run surroundings ["0", "--tree"]).stdout = "0\n\n\x1b[1m0\x1b[0m\n\x1b[31m0\x1b[0m\n" ++
        "\x1b[2mvalid: no, satisfiable: no\x1b[0m\n" := by
  intro surroundings options
  obtain ⟨hasks, hjoins, hexit, hsingle⟩ := runs_join_and_fail_cleanly surroundings options
  have hfirst : Asks ["--tree", "a+"] options ["a+"] := by
    rw [Asks]
    decide +kernel
  have hsecond : Asks ["0", "--tree"] options ["0"] := by
    rw [Asks]
    decide +kernel
  have hboth : Asks ["a+", "--tree", "--", "0"] options ["a+", "0"] := by
    rw [Asks]
    decide +kernel
  have hquiet : surroundings.keep.Quiet := fun _ => ⟨rfl, rfl⟩
  have hread : expression (Guard.atMost 128) ⟨['a', '+'], ⟨0, none⟩⟩ =
      .ok (.var 'a') ⟨['+'], ⟨0, none⟩⟩ := by decide +kernel
  have hbroken : TruthTable.ofTextWithin "a+" 16 = .error (.parse ⟨"+"⟩) := by
    have hparse : Formula.parse "a+" = .error ⟨"+"⟩ := Formula.read_of_ok hread
    exact TruthTable.ofTextWithin_eq_error_iff.2 (Formula.within_of_error hparse 16)
  have hzero : TruthTable.ofTextWithin "0" 16 = .ok (TruthTable.semantic (.const false)) := by
    have hparse : Formula.parse "0" = .ok (.const false) :=
      Formula.parse_eq_ok_iff.2 ⟨0, by decide, .chain .zero .nil⟩
    exact TruthTable.ofTextWithin_eq_ok_iff.2 ⟨_, Formula.within_of_ok hparse 16, rfl⟩
  have herror := (hsingle hquiet "a+" _ hfirst).1 _ hbroken
  have hjoined := hjoins ["a+"] ["0"] _ _ _ hfirst hsecond hboth
  refine ⟨hasks (by decide) _ (List.cons_ne_nil _ _), hfirst, hsecond, herror.trans rfl,
    ((hsingle hquiet "0" _ hsecond).2 _ hzero).1,
    (hexit _ _ hboth).2 ⟨"a+", List.mem_cons_self, _, hbroken⟩, ?_, by decide +kernel⟩
  rw [hjoined.stdout_eq, herror]

end Propositional.CommandLine
