import Propositional.CommandLine.Run
import Propositional.Proofs.Log.Leaves
import Propositional.Proofs.TruthTable.Build

/-!
# What a printing computation does

`Prints m result printed records` says all that the computation `m` does: it
comes to `result`, it prints `printed` behind what was printed before, and it
leaves those of `records` that are kept. Computations one after another print
and leave what each of them does, up to the first that fails (`Prints.bind`,
`Prints.bind_error`). So the turn of a run for one formula prints the table of
the formula if it is within the limit (`turn_ok`), and otherwise nothing but the
error (`turn_error`), behind whatever was printed before.
-/

namespace Propositional.CommandLine

open Log

variable {ε α β : Type}

/-- The computation comes to the result, prints the text, and leaves the records
so far as they are kept. -/
def Prints (m : Printing α) (result : Except Error α) (printed : String)
    (records : List Record) : Prop :=
  ∀ (out : String) (keep : Filter) (kept : Array Record),
    ((m.run.run out).run keep).run kept = ((result, out ++ printed), kept ++ keep.select records)

theorem prints_pure (a : α) : Prints (pure a) (.ok a) "" [] := by
  intro out keep kept
  rw [String.append_empty]
  exact congrArg _ Array.append_empty.symm

theorem prints_throw (e : Error) : Prints (throw e : Printing α) (.error e) "" [] := by
  intro out keep kept
  rw [String.append_empty]
  exact congrArg _ Array.append_empty.symm

theorem prints_print (text : String) : Prints (print text) (.ok ()) text [] :=
  fun _ _ _ => congrArg _ Array.append_empty.symm

variable {m : Printing α} {f : α → Printing β} {printed after : String}
  {records more : List Record}

/-- A computation with another behind it runs first, and the other goes on from what it left. -/
theorem run_bind (m : Printing α) (f : α → Printing β) {result : Except Error α} {out text : String}
    {keep : Filter} {kept log : Array Record}
    (h : ((m.run.run out).run keep).run kept = ((result, text), log)) :
    (((m >>= f).run.run out).run keep).run kept =
      (((ExceptT.bindCont f result).run text).run keep).run log := by
  show (((ExceptT.bindCont f (((m.run.run out).run keep).run kept).1.1).run
    (((m.run.run out).run keep).run kept).1.2).run keep).run
      (((m.run.run out).run keep).run kept).2 = _
  rw [h]

theorem Prints.bind {a : α} {result : Except Error β} (hm : Prints m (.ok a) printed records)
    (hf : Prints (f a) result after more) :
    Prints (m >>= f) result (printed ++ after) (records ++ more) := by
  intro out keep kept
  rw [run_bind m f (hm out keep kept), Filter.select_append, ← Array.append_assoc,
    ← String.append_assoc]
  exact hf _ keep _

/-- Behind a computation that prints nothing, all that is printed is printed by the other. -/
theorem Prints.bind_silent {a : α} {result : Except Error β} (hm : Prints m (.ok a) "" records)
    (hf : Prints (f a) result after more) : Prints (m >>= f) result after (records ++ more) := by
  have h := hm.bind hf
  rwa [String.empty_append] at h

theorem Prints.bind_error {e : Error} (hm : Prints m (.error e) printed records) :
    Prints (m >>= f) (.error e) printed records := by
  intro out keep kept
  rw [run_bind m f (hm out keep kept)]
  rfl

/-- A logged computation prints nothing. -/
theorem prints_logged {m : Logged α} {a : α}
    (h : ∀ keep kept, (m.run keep).run kept = (a, kept ++ Filter.select keep records)) :
    Prints (liftM m) (.ok a) "" records := by
  intro out keep kept
  rw [String.append_empty]
  show ((Except.ok ((m.run keep).run kept).1, out), ((m.run keep).run kept).2) = _
  rw [h]

theorem prints_record (level : Level) (target : String) (message : Unit → String) :
    Prints (record level target message) (.ok ()) "" [⟨level, target, message ()⟩] :=
  prints_logged (run_record level target message)

theorem prints_attempt {m : ExceptT ε Logged α} {result : Except ε α} (cause : ε → Error)
    (hm : Yields m result) (hl : Leaves m records) :
    Prints (attempt cause m) (result.mapError cause) "" records := by
  have hrun := prints_logged fun keep kept => Prod.ext (hm keep kept) (hl keep kept)
  rw [← List.append_nil records]
  cases result with
  | ok a => exact hrun.bind_silent (prints_pure a)
  | error e => exact hrun.bind_silent (prints_throw (cause e))

/-! ## Tables -/

/-- What is printed for a formula that has a table. -/
def printedFor (options : Options) (styling : Bool) (p : Formula) : String :=
  (if options.tree then p.tree.draw ++ "\n" else "") ++
    formatted options.format styling (TruthTable.semantic p)

/-- The records of a run for a formula that has a table. -/
def recordsFor (options : Options) (source : String) (p : Formula) : List Record :=
  Formula.parseRecords source ++ (TruthTable.buildRecords p ++
    [⟨.debug, runTarget, "Rendering " ++ toString (TruthTable.semantic p).rows.length ++
      " rows as " ++ options.format.name⟩])

theorem isDetail_recordsFor {options : Options} {source : String} {p : Formula} {r : Record}
    (h : r ∈ recordsFor options source p) : r.IsDetail := by
  rw [recordsFor, List.mem_append, List.mem_append, List.mem_singleton] at h
  obtain h | h | rfl := h
  · exact Formula.isDetail_parseRecords h
  · exact TruthTable.isDetail_buildRecords h
  · exact .inl rfl

theorem prints_parse {source : String} {result : Except ParseError Formula}
    (h : Formula.parse source = result) :
    Prints (attempt Error.parse (Formula.parseLogged source)) (result.mapError Error.parse) ""
      (Formula.parseRecords source) :=
  prints_attempt Error.parse (h ▸ Formula.yields_parseLogged source)
    (Formula.leaves_parseLogged source)

theorem prints_checkLimit {p : Formula} {limit : Nat} {result : Except Error Unit}
    (h : p.checkLimit limit = result) :
    Prints (attempt id (Logged.ofExcept (p.checkLimit limit))) (result.mapError id) "" [] :=
  prints_attempt id (h ▸ yields_ofExcept (p.checkLimit limit)) (leaves_ofExcept _)

/-- Of a text whose formula is not read, or has too many variables, nothing is printed. -/
theorem prints_printTable_error {options : Options} {source : String} {e : Error}
    (h : Formula.within source options.maxVariables = .error e) (styling : Bool) :
    Prints (printTable options styling source) (.error e) "" (Formula.parseRecords source) := by
  rw [printTable]
  cases hp : Formula.parse source with
  | error e' =>
    rw [Formula.within_of_error hp] at h
    cases h
    exact (prints_parse hp).bind_error
  | ok p =>
    rw [Formula.within_of_ok hp] at h
    obtain ⟨hlimit, -⟩ | ⟨hlimit, -⟩ := p.checkLimit_cases options.maxVariables <;>
      rw [hlimit] at h <;> cases h
    rw [← List.append_nil (Formula.parseRecords source)]
    exact (prints_parse hp).bind_silent (prints_checkLimit hlimit).bind_error

/-- A formula within the limit is printed with its tree, if that is asked for, and its table. -/
theorem prints_printTable_ok {options : Options} {source : String} {p : Formula}
    (h : Formula.within source options.maxVariables = .ok p) (hvars : p.vars.length < 64)
    (styling : Bool) :
    Prints (printTable options styling source) (.ok ()) (printedFor options styling p)
      (recordsFor options source p) := by
  obtain ⟨hp, hlimit⟩ := Formula.within_eq_ok h
  have hbuild := prints_attempt Error.evaluation (TruthTable.yields_build hvars)
    (TruthTable.leaves_build hvars)
  rw [printTable, recordsFor, printedFor]
  refine (prints_parse hp).bind_silent ?_
  rw [← List.nil_append (TruthTable.buildRecords p ++ _)]
  refine (prints_checkLimit hlimit).bind_silent ?_
  cases options.tree with
  | true =>
    refine (prints_print _).bind (hbuild.bind_silent ?_)
    exact (prints_record _ _ _).bind_silent (prints_print _)
  | false =>
    simp only [Bool.false_eq_true, if_false, String.empty_append]
    exact hbuild.bind_silent ((prints_record _ _ _).bind_silent (prints_print _))

theorem Prints.collect_eq {result : Except Error α} (h : Prints m result printed records)
    (keep : Filter) (out : String) :
    Logged.collect keep (m.run.run out) =
      ((result, out ++ printed), (keep.select records).toList) := by
  have hrun := h out keep #[]
  rw [Array.empty_append] at hrun
  exact congrArg (fun run => (run.1, run.2.toList)) hrun

/-- The lines of those records that are kept. -/
def logText (keep : Filter) (records : List Record) : String :=
  String.join ((keep.select records).toList.map recordLine)

theorem logText_eq_empty {keep : Filter} (h : keep.Quiet) {records : List Record}
    (hdetail : ∀ r ∈ records, r.IsDetail) : logText keep records = "" := by
  rw [logText, h.select_eq_empty hdetail]
  rfl

/-! ## Turns -/

/-- The empty line before the formula at `index`. -/
def separator (index : Nat) : String :=
  if 0 < index then "\n" else ""

/-- The report of one formula by itself. -/
def reportOf (options : Options) (surroundings : Surroundings) (source : String) : Report :=
  turn options surroundings 0 source .start

section

variable {options : Options} {surroundings : Surroundings} {source : String}

theorem stdout_separator (before : Report) (index : Nat) :
    (if 0 < index then before.stdout ++ "\n" else before.stdout) =
      before.stdout ++ separator index := by
  rw [separator]
  split
  · rfl
  · exact String.append_empty.symm

/-- In the turn for a text without a formula within the limit, the error is printed. -/
theorem turn_error {e : Error} (h : Formula.within source options.maxVariables = .error e)
    (index : Nat) (before : Report) :
    turn options surroundings index source before =
      { stdout := before.stdout ++ separator index
        stderr := before.stderr ++
          (logText surroundings.keep (Formula.parseRecords source) ++
            errorLine surroundings.styling source e)
        failed := true } := by
  have hprints := prints_printTable_error h surroundings.styling
  rw [turn, stdout_separator, hprints.collect_eq, String.append_empty, ← String.append_assoc]
  rfl

/-- In the turn for a formula within the limit, its table is printed. -/
theorem turn_ok {p : Formula} (h : Formula.within source options.maxVariables = .ok p)
    (hvars : p.vars.length < 64) (index : Nat) (before : Report) :
    turn options surroundings index source before =
      { stdout := before.stdout ++ separator index ++ printedFor options surroundings.styling p
        stderr := before.stderr ++ logText surroundings.keep (recordsFor options source p)
        failed := before.failed } := by
  have hprints := prints_printTable_ok h hvars surroundings.styling
  rw [turn, stdout_separator, hprints.collect_eq]
  rfl

/-- A run for one formula takes one turn. -/
theorem reportAll_singleton (source : String) :
    reportAll options surroundings [source] = reportOf options surroundings source :=
  rfl

theorem reportOf_error {e : Error} (h : Formula.within source options.maxVariables = .error e) :
    reportOf options surroundings source =
      ⟨"", logText surroundings.keep (Formula.parseRecords source) ++
        errorLine surroundings.styling source e, true⟩ := by
  rw [reportOf, turn_error h]
  simp [Report.start, separator]

theorem reportOf_ok {p : Formula} (h : Formula.within source options.maxVariables = .ok p)
    (hvars : p.vars.length < 64) :
    reportOf options surroundings source =
      ⟨printedFor options surroundings.styling p,
        logText surroundings.keep (recordsFor options source p), false⟩ := by
  rw [reportOf, turn_ok h hvars]
  simp [Report.start, separator]

end

end Propositional.CommandLine
