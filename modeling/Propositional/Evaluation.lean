import Propositional.Environment
import Propositional.Error

/-!
# Evaluation

A formula is evaluated in an environment from left to right. Where its left
operand decides the value of a binary formula (`Connective.decidedBy`), the
right one is not looked at, and may then have variables that are not bound.
-/

namespace Propositional

/-- The value of a binary formula whose left operand has the value `left`, if
the right operand has no say in it. -/
def Connective.decidedBy : Connective → Bool → Option Bool
  | conjunction, false => some false
  | disjunction, true => some true
  | implication, false => some true
  | _, _ => none

/-- The value bound to a variable. -/
def Environment.lookup (env : Environment) (x : Variable) : Except EvaluationError Bool :=
  match env.get? x with
  | some value => .ok value
  | none => .error (.unboundVariable x)

/-- The value of a formula in an environment, or the first variable on the way that is not bound. -/
def Formula.evaluate (env : Environment) : Formula → Except EvaluationError Bool
  | const value => .ok value
  | var x => env.lookup x
  | neg p => do return !(← p.evaluate env)
  | binary op l r => do
    match op.decidedBy (← l.evaluate env) with
    | some value => return value
    | none => r.evaluate env

end Propositional
