import Propositional.Formula.Basic

/-!
# Errors

What can go wrong on the way from a text to its truth table, and how each cause
is worded.
-/

namespace Propositional

/-- A text that is no formula, with the part of it from which on nothing could be read. -/
structure ParseError where
  remainder : String
deriving DecidableEq

/-- The wording of a parse error. The remainder stands in it as it is. -/
def ParseError.message (e : ParseError) : String :=
  "failed to parse formula, unconsumed input: \"" ++ e.remainder ++ "\""

/-- What can go wrong in an evaluation. -/
inductive EvaluationError where
  /-- The environment has no value for the variable. -/
  | unboundVariable (name : Variable)
deriving DecidableEq

/-- The wording of an evaluation error. -/
def EvaluationError.message : EvaluationError → String
  | unboundVariable x => "no truth value bound to variable " ++ String.singleton x

/-- Why there is no truth table. -/
inductive Error where
  | parse (cause : ParseError)
  | evaluation (cause : EvaluationError)
  /-- The formula has `count` variables, which are more than `limit`. -/
  | tooManyVariables (count limit : Nat)
deriving DecidableEq

/-- The wording of an error. -/
def Error.message : Error → String
  | parse e => e.message
  | evaluation e => e.message
  | tooManyVariables count limit =>
    "formula has " ++ toString count ++ " variables, at most " ++ toString limit ++ " are allowed"

end Propositional
