import Propositional.Page
import Propositional.Proofs.CommandLine.Printing
import Propositional.Proofs.Grammar.Parsing

/-!
# Pages and the command line agree

For one text, a page and a run of the program make the same of it: they show the
same table, or fail with the same message (`front_ends_agree`). Both come down
to the formula of the text within the limit, `Formula.within`.
-/

namespace Propositional

open Log

namespace CommandLine

/-- Behind the format and a separator, any text is a formula. -/
theorem ofArguments_format (format : Format) (source : String) :
    Request.ofArguments ["-f", format.name, "--", source] =
      some (.tables { format } [source]) := by
  have hoption : Argument.ofString "-f" = .setting .format none := by decide +kernel
  have hseparator : Argument.ofString "--" = .separator := by decide +kernel
  have hname : Format.ofName? format.name = some format := by cases format <;> decide +kernel
  simp [Request.ofArguments, Draft.read, hoption, hseparator, Draft.set?, hname, Draft.finish]

/-- A run for one formula prints what is reported of the formula. -/
theorem run_format (surroundings : Surroundings) (format : Format) (source : String) :
    run surroundings ["-f", format.name, "--", source] =
      let report := reportOf { format } surroundings source
      ⟨if report.failed then 1 else 0, report.stdout, report.stderr⟩ := by
  rw [← reportAll_singleton, run, ofArguments_format]

/-- A run for a formula within the limit prints its table and nothing else. -/
theorem run_format_ok {source : String} {p : Formula} (hp : Formula.within source 16 = .ok p)
    {keep : Filter} (hkeep : keep.Quiet) (format : Format) :
    run ⟨false, keep⟩ ["-f", format.name, "--", source] =
      ⟨0, formatted format false (TruthTable.semantic p), ""⟩ := by
  have hvars : p.vars.length < 64 := by
    have := Formula.length_vars_le hp
    omega
  have hreport : reportOf { format } ⟨false, keep⟩ source = _ := reportOf_ok hp hvars
  rw [run_format, hreport]
  simp [logText_eq_empty hkeep fun _ => isDetail_recordsFor, printedFor]

/-- A run for a text without a formula within the limit prints the error and nothing else. -/
theorem run_format_error {source : String} {e : Error}
    (he : Formula.within source 16 = .error e) {keep : Filter} (hkeep : keep.Quiet)
    (format : Format) :
    run ⟨false, keep⟩ ["-f", format.name, "--", source] =
      ⟨1, "", "error: " ++ source ++ ": " ++ e.message ++ "\n"⟩ := by
  have hreport : reportOf { format } ⟨false, keep⟩ source = _ := reportOf_error he
  rw [run_format, hreport]
  simp [logText_eq_empty hkeep fun _ => Formula.isDetail_parseRecords, errorLine, Text.styled]

end CommandLine

open CommandLine in
/-- A page shows the table of a text within the limit of 16 variables, as values
or in HTML, or the message of the error; a run of the program that neither
styles nor logs prints the same HTML, the same table in Markdown, or the same
message. That a text is no formula is reported before anything else. -/
theorem front_ends_agree (source : String) (keep : Filter) (hkeep : keep.Quiet) :
    (∀ table, TruthTable.ofTextWithin source 16 = .ok table →
      Page.table source = .ok ⟨table.header, table.rows, table.attributes.valid,
        table.attributes.satisfiable⟩ ∧
      Page.html source = .ok table.html ∧
      run ⟨false, keep⟩ ["-f", "html", "--", source] = ⟨0, table.html ++ "\n", ""⟩ ∧
      run ⟨false, keep⟩ ["-f", "markdown", "--", source] = ⟨0, table.markdown, ""⟩) ∧
    (∀ e, TruthTable.ofTextWithin source 16 = .error e →
      Page.table source = .error e.message ∧ Page.html source = .error e.message ∧
      ∀ format ∈ ["html", "markdown"], run ⟨false, keep⟩ ["-f", format, "--", source] =
        ⟨1, "", "error: " ++ source ++ ": " ++ e.message ++ "\n"⟩) ∧
    ∀ e, Formula.parse source = .error e →
      TruthTable.ofTextWithin source 16 = .error (.parse e) := by
  have hlimit : 16 < 64 := by decide
  have hmax : Page.maxVariables = 16 := rfl
  refine ⟨fun table htable => ?_, fun e he => ?_, fun e he => ?_⟩
  · obtain ⟨p, hp, rfl⟩ := TruthTable.within_of_ofTextWithin_ok hlimit htable
    refine ⟨?_, ?_, run_format_ok hp hkeep .html, run_format_ok hp hkeep .markdown⟩
    · rw [Page.table, hmax, htable]
    · rw [Page.html, hmax, htable]
  · have hwithin := TruthTable.within_of_ofTextWithin_error hlimit he
    refine ⟨?_, ?_, fun format hformat => ?_⟩
    · rw [Page.table, hmax, he]
    · rw [Page.html, hmax, he]
    · obtain rfl | rfl : format = "html" ∨ format = "markdown" := by simpa using hformat
      · exact run_format_error hwithin hkeep .html
      · exact run_format_error hwithin hkeep .markdown
  · rw [TruthTable.ofTextWithin_eq source hlimit, Formula.within_of_error he]
    rfl

open CommandLine Grammar in
/-- The page and the program on `-0`, with no filter for the log, and on a text
that breaks off. -/
theorem front_ends_agree_negation :
    (Filter.ofText "").Quiet ∧
      run ⟨false, Filter.ofText ""⟩ ["-f", "html", "--", "-0"] =
        ⟨0, "<table><tr><th>0</th><th>-0</th></tr>" ++
          "<tr><td class='false'>0</td><td class='true'>1</td></tr></table>\n", ""⟩ ∧
      Page.table "-0" = .ok ⟨["0", "-0"], [[false, true]], true, true⟩ ∧
      run ⟨false, Filter.ofText ""⟩ ["-f", "html", "--", "a+"] =
        ⟨1, "", "error: a+: failed to parse formula, unconsumed input: \"+\"\n"⟩ := by
  have hquiet : (Filter.ofText "").Quiet := by
    have hnone : Directive.listOfText "" = [] := by decide +kernel
    intro target
    rw [Filter.ofText, hnone]
    exact ⟨rfl, rfl⟩
  obtain ⟨hok, -, -⟩ := front_ends_agree "-0" _ hquiet
  obtain ⟨-, herror, hparse⟩ := front_ends_agree "a+" _ hquiet
  have hnegation : Formula.parse "-0" = .ok (.neg (.const false)) :=
    Formula.parse_eq_ok_iff.2 ⟨1, by decide, .chain (.negation .zero) .nil⟩
  have hwithin : Formula.within "-0" 16 = .ok (.neg (.const false)) := by
    rw [Formula.within_of_ok hnegation]
    rfl
  have htable : TruthTable.ofTextWithin "-0" 16 =
      .ok (TruthTable.semantic (.neg (.const false))) := by
    rw [TruthTable.ofTextWithin_eq "-0" (by decide), hwithin]
    rfl
  have hbroken : Formula.parse "a+" = .error ⟨"+"⟩ := by
    have hread : expression (Guard.atMost 128) ⟨['a', '+'], ⟨0, none⟩⟩ =
        .ok (.var 'a') ⟨['+'], ⟨0, none⟩⟩ := by decide +kernel
    exact Formula.read_of_ok hread
  obtain ⟨hpage, -, hhtml, -⟩ := hok _ htable
  refine ⟨hquiet, hhtml.trans (by decide +kernel), hpage.trans ?_,
    ((herror _ (hparse _ hbroken)).2.2 "html" (by decide)).trans (by decide +kernel)⟩
  exact congrArg Except.ok (by decide +kernel)

end Propositional
