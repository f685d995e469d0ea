/-!
# The command line

The arguments are formulas and options in any order, read from left to right by
`Request.ofArguments`. The options `--format` (or `-f`) and `--max-variables`
take a value, in the same argument or in the next one; `--tree` takes none. An
option may be given once. Arguments that start with `-` are options, save for
`-` itself and for what follows `--`. `--version` (`-V`) and `--help` (`-h`)
settle the request where they are met.
-/

namespace Propositional.CommandLine

/-- How tables are written. -/
inductive Format where
  | plain
  | markdown
  | html
deriving DecidableEq

namespace Format

/-- The name of a format. -/
def name : Format → String
  | plain => "plain"
  | markdown => "markdown"
  | html => "html"

/-- The format with the given name. -/
def ofName? (name : String) : Option Format :=
  [plain, markdown, html].find? fun format => format.name = name

end Format

/-- What the options say of every formula. -/
structure Options where
  format : Format := .plain
  /-- The largest number of variables that a formula may have. -/
  maxVariables : Nat := 16
  /-- Whether the tree of a formula is printed before its table. -/
  tree : Bool := false
deriving DecidableEq

/-- What the arguments ask for. -/
inductive Request where
  | tables (options : Options) (formulas : List String)
  | version
  | help
deriving DecidableEq

/-- The options that take a value. -/
inductive Setting where
  | format
  | maxVariables
deriving DecidableEq

/-- What an argument is, taken by itself. -/
inductive Argument where
  | formula (text : String)
  /-- An option that takes a value, with the value if it is in the same argument. -/
  | setting (setting : Setting) (value? : Option String)
  | tree
  | version
  | help
  /-- After this argument there are formulas only. -/
  | separator
  /-- No argument that is understood. -/
  | unknown
deriving DecidableEq

namespace Argument

/-- An option with a long name: what follows `--`. -/
def ofLong (chars : List Char) : Argument :=
  let value? := match chars.dropWhile (· ≠ '=') with
    | [] => none
    | _ :: value => some (String.ofList value)
  match String.ofList (chars.takeWhile (· ≠ '=')), value? with
  | "format", value? => setting .format value?
  | "max-variables", value? => setting .maxVariables value?
  | "tree", none => tree
  | "version", none => version
  | "help", none => help
  | _, _ => unknown

/-- An option with a short name, and what follows that name in the argument. -/
def ofShort (name : Char) (rest : List Char) : Argument :=
  match name, rest with
  | 'f', [] => setting .format none
  | 'f', '=' :: value => setting .format (some (String.ofList value))
  | 'f', value => setting .format (some (String.ofList value))
  | 'V', _ => version
  | 'h', _ => help
  | _, _ => unknown

/-- What an argument is. -/
def ofString (arg : String) : Argument :=
  match arg.toList with
  | ['-', '-'] => separator
  | '-' :: '-' :: chars => ofLong chars
  | '-' :: name :: rest => ofShort name rest
  | _ => formula arg

end Argument

/-- The number with the given digits, one after the other. -/
def ofDigits (digits : List Char) : Nat :=
  digits.foldl (fun n c => 10 * n + (c.toNat - '0'.toNat)) 0

/-- Reads a number of variables: decimal digits, perhaps after a plus sign, for
a number of 64 bits. -/
def readCount? (text : String) : Option Nat :=
  let digits := match text.toList with
    | '+' :: digits => digits
    | digits => digits
  let count := ofDigits digits
  if !digits.isEmpty && digits.all Char.isDigit && count < UInt64.size then some count else none

/-- What has been read of the arguments so far. -/
structure Draft where
  format? : Option Format := none
  maxVariables? : Option Nat := none
  tree : Bool := false
  formulas : List String := []

namespace Draft

/-- Gives an option its value, if it has none yet and the value is one for it. -/
def set? (draft : Draft) (setting : Setting) (value : String) : Option Draft :=
  match setting with
  | .format =>
    if draft.format?.isSome then none
    else (Format.ofName? value).map fun format => { draft with format? := some format }
  | .maxVariables =>
    if draft.maxVariables?.isSome then none
    else (readCount? value).map fun count => { draft with maxVariables? := some count }

/-- The request at the end of the arguments. There has to be a formula. -/
def finish (draft : Draft) : Option Request :=
  if draft.formulas.isEmpty then none
  else
    let default : Options := {}
    some (.tables
      ⟨draft.format?.getD default.format, draft.maxVariables?.getD default.maxVariables, draft.tree⟩
      draft.formulas)

/-- Reads the arguments that are left. No value of an option starts with `-`,
so an option is never taken for one. Assumed of `clap`: options and formulas
come in any order, an option that is given twice or is not known is refused, and
behind `--` there are formulas only. -/
def read (draft : Draft) : List String → Option Request
  | [] => draft.finish
  | arg :: args =>
    match Argument.ofString arg with
    | .formula text => read { draft with formulas := draft.formulas ++ [text] } args
    | .setting setting (some value) => (draft.set? setting value).bind fun draft => read draft args
    | .setting setting none =>
      match args with
      | [] => none
      | value :: args => (draft.set? setting value).bind fun draft => read draft args
    | .tree => if draft.tree then none else read { draft with tree := true } args
    | .version => some .version
    | .help => some .help
    | .separator => { draft with formulas := draft.formulas ++ args }.finish
    | .unknown => none

end Draft

/-- What the arguments ask for, unless one of them is refused. -/
def Request.ofArguments (args : List String) : Option Request :=
  Draft.read {} args

end Propositional.CommandLine
