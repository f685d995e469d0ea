import Propositional.Log.Basic
import Propositional.Text.Blank

/-!
# Filters written in text

A filter is written as a list of directives with commas between them, such as
`warn,parser=debug`. Of the directives whose target is how the target of a
record starts, the one with the longest target counts; a directive without a
target concerns every record.
-/

namespace Propositional.Log

/-- The records that a directive keeps of those that it concerns. -/
structure Directive where
  /-- How the targets that the directive concerns start; all targets if there is none. -/
  target : Option String
  /-- The least important level that is kept; no level if there is none. -/
  level : Option Level
deriving DecidableEq

namespace Directive

/-- Reads the name of a level, in letters of any case. `off` is no level at all. -/
def levelOfName? (name : String) : Option (Option Level) :=
  if name.toUpper = "OFF" then some none
  else (Level.all.find? fun level => level.name = name.toUpper).map some

/-- A text without the blanks around it. -/
def trim (chars : List Char) : List Char :=
  ((chars.dropWhile Text.isBlank).reverse.dropWhile Text.isBlank).reverse

/-- Reads a directive: a level, a target, or both with `=` between them. A
target alone keeps all levels. -/
def ofText? (chars : List Char) : Option Directive :=
  let target := String.ofList (chars.takeWhile (· ≠ '='))
  match chars.dropWhile (· ≠ '=') with
  | [] => some ((levelOfName? target).elim ⟨some target, some .trace⟩ fun level => ⟨none, level⟩)
  | _ :: level =>
    if level.contains '=' then none
    else if (trim level).isEmpty then some ⟨some target, some .trace⟩
    else (levelOfName? (String.ofList (trim level))).map fun level => ⟨some target, level⟩

/-- The directives with one more, which takes the place of an earlier one for the same target. -/
def add (directives : List Directive) (directive : Directive) : List Directive :=
  if directives.any fun d => d.target = directive.target then
    directives.map fun d => if d.target = directive.target then directive else d
  else directives ++ [directive]

/-- Reads a list of directives. What is no directive is left out. -/
def listOfText (text : String) : List Directive :=
  let entries := (text.toList.splitOn ',').map trim
  ((entries.filter fun entry => !entry.isEmpty).filterMap ofText?).foldl add []

/-- The number of bytes of the target. -/
def length (d : Directive) : Nat :=
  d.target.elim 0 String.utf8ByteSize

/-- Whether the directive concerns records with `target`. -/
def concerns (d : Directive) (target : String) : Bool :=
  d.target.all fun start => start.toList.isPrefixOf target.toList

/-- Whether the directive keeps records with `level`. -/
def keeps (d : Directive) (level : Level) : Bool :=
  d.level.any fun least => level.rank ≤ least.rank

end Directive

/-- The filter of a list of directives. No directives at all keep the errors. -/
def Filter.ofDirectives (directives : List Directive) : Filter :=
  if directives.isEmpty then Filter.upTo .error
  else
    let ordered := (directives.mergeSort fun d e => d.length ≤ e.length).reverse
    fun level target => (ordered.find? fun d => d.concerns target).any fun d => d.keeps level

/-- The filter that a text describes. -/
def Filter.ofText (text : String) : Filter :=
  Filter.ofDirectives (Directive.listOfText text)

end Propositional.Log
