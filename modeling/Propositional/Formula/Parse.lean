import Propositional.Error
import Propositional.Formula.Grammar
import Propositional.Text.Blank
import Propositional.Text.Bytes

/-!
# Reading formulas

`Formula.parse` reads a text that is an expression of the grammar as a whole,
save for blanks, which may stand anywhere. No more than `Formula.maxNesting`
parentheses and negation signs may be open at once. `Formula.read` does the
same for a text without blanks and under any guard.
-/

namespace Propositional.Formula

/-- What is left of `text` where there is no expression: all of it, unless an
operand was refused with so many bytes left. Then it is the text from that
operand on. -/
def unread (text : List Char) (refusedAt : Option Nat) : List Char :=
  (refusedAt.bind fun bytes => Text.suffixOfBytes bytes text).getD text

/-- Reads `text` as a whole. The remainder of an error is what is left behind
the expression at the start of `text`, or what is `unread` if there is none. -/
def read {σ : Type} (guard : Guard σ) (text : List Char) : Except ParseError Formula :=
  match Grammar.expression guard ⟨text, guard.start⟩ with
  | .ok p left => if left.rest.isEmpty then .ok p else .error ⟨String.ofList left.rest⟩
  | .backtrack left => .error ⟨String.ofList (unread text (guard.refusedAt left.state))⟩
  | .cut left => .error ⟨String.ofList (unread text (guard.refusedAt left.state))⟩

/-- The largest number of parentheses and negation signs that may be open at once. -/
def maxNesting : Nat := 128

/-- The formula that a text stands for. Its blanks are ignored, and have no
part in the remainder of an error. -/
def parse (source : String) : Except ParseError Formula :=
  read (Guard.atMost maxNesting) (Text.strip source.toList)

end Propositional.Formula
