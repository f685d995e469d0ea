import Propositional.Proofs.Formula.Context
import Propositional.Proofs.Truth

/-!
# Laws of the connectives

What a formula comes to, a value or the report of an unbound variable, is a function
of what its operands come to (`evaluate_neg`, `evaluate_binary`). So formulas that are
`Alike`, which is to come to the same in every environment, can stand for one another
in any place (`Alike.plug`), and a law of the connectives is a law of
`Connective.join`, with three cases for the operand that is evaluated first. The laws
hold where variables are not bound as well: both sides skip the same operands and
report the same variable. To swap operands is no such law (`not_alike_swap`).
-/

namespace Propositional

/-! ## Verdicts on operands -/

namespace Connective

variable (a b c : Verdict)

theorem join_implication :
    join implication a b = join disjunction (a.map (!·)) b := by
  rcases a with e | _ | _ <;> rfl

theorem map_not_join_conjunction :
    (join conjunction a b).map (!·) = join disjunction (a.map (!·)) (b.map (!·)) := by
  rcases a with e | _ | _ <;> rfl

theorem map_not_join_disjunction :
    (join disjunction a b).map (!·) = join conjunction (a.map (!·)) (b.map (!·)) := by
  rcases a with e | _ | _ <;> rfl

theorem map_not_map_not : (a.map (!·)).map (!·) = a := by
  rcases a with e | _ | _ <;> rfl

/-- Conjunction and disjunction are associative. A first operand that decides decides the
whole on both sides, and one that does not leaves it to the other two. -/
theorem join_assoc {op : Connective} (h : op ≠ implication) :
    op.join (op.join a b) c = op.join a (op.join b c) := by
  cases op with
  | implication => exact absurd rfl h
  | conjunction => rcases a with e | _ | _ <;> rfl
  | disjunction => rcases a with e | _ | _ <;> rfl

end Connective

namespace Formula

/-! ## Formulas that come to the same -/

/-- The formulas come to the same in every environment: the same value, or the report of
the same variable. -/
def Alike (p q : Formula) : Prop :=
  ∀ env : Environment, p.evaluate env = q.evaluate env

variable {p q l r : Formula}

theorem Alike.neg (h : p.Alike q) : (neg p).Alike (neg q) := by
  intro env
  rw [evaluate_neg, evaluate_neg, h env]

theorem Alike.binary {l' r' : Formula} (op : Connective) (hl : l.Alike l') (hr : r.Alike r') :
    (binary op l r).Alike (binary op l' r') := by
  intro env
  rw [evaluate_binary, evaluate_binary, hl env, hr env]

/-- Formulas that come to the same can stand for one another in any place. -/
theorem Alike.plug (h : p.Alike q) (c : Context) : (c.plug p).Alike (c.plug q) := by
  induction c with
  | hole => exact h
  | neg c ih => exact ih.neg
  | left op c r ih => exact ih.binary op fun _ => rfl
  | right op l c ih => exact Alike.binary op (fun _ => rfl) ih

/-! ## Laws -/

/-- `(l=>r)` is `(-l+r)`. -/
theorem alike_implication (l r : Formula) :
    (Formula.binary .implication l r).Alike (.binary .disjunction (.neg l) r) := by
  intro env
  simp only [evaluate_binary, evaluate_neg, Connective.join_implication]

/-- `-(l*r)` is `(-l+-r)`. -/
theorem alike_neg_conjunction (l r : Formula) :
    (Formula.neg (.binary .conjunction l r)).Alike
      (.binary .disjunction (.neg l) (.neg r)) := by
  intro env
  simp only [evaluate_binary, evaluate_neg, Connective.map_not_join_conjunction]

/-- `-(l+r)` is `(-l*-r)`. -/
theorem alike_neg_disjunction (l r : Formula) :
    (Formula.neg (.binary .disjunction l r)).Alike
      (.binary .conjunction (.neg l) (.neg r)) := by
  intro env
  simp only [evaluate_binary, evaluate_neg, Connective.map_not_join_disjunction]

/-- `--l` is `l`. -/
theorem alike_neg_neg (l : Formula) : (Formula.neg (.neg l)).Alike l := by
  intro env
  simp only [evaluate_neg, Connective.map_not_map_not]

/-- `((l op r) op s)` is `(l op (r op s))`, unless `op` is the implication. -/
theorem alike_assoc {op : Connective} (h : op ≠ .implication) (l r s : Formula) :
    (Formula.binary op (.binary op l r) s).Alike (.binary op l (.binary op r s)) := by
  intro env
  simp only [evaluate_binary, Connective.join_assoc _ _ _ h]

/-- Operands cannot be swapped: the variable that is met first is the one reported. -/
theorem not_alike_swap (op : Connective) {x y : Variable} (h : x ≠ y) :
    ¬ (Formula.binary op (.var x) (.var y)).Alike (.binary op (.var y) (.var x)) := by
  have hreport (x y : Variable) : (Formula.binary op (.var x) (.var y)).evaluate .empty =
      .error (.unboundVariable x) := evaluate_of_left_error rfl
  intro hswap
  have hsame := hswap .empty
  rw [hreport, hreport] at hsame
  cases hsame
  exact h rfl

/-- The laws of the connectives hold in every place of a formula and in every
environment, also one that does not bind all variables: both sides come to the same
value, or report the same variable. -/
theorem evaluate_plug_laws (c : Context) (env : Environment) (l r s : Formula) :
    (c.plug (.binary .implication l r)).evaluate env =
        (c.plug (.binary .disjunction (.neg l) r)).evaluate env ∧
      (c.plug (.neg (.binary .conjunction l r))).evaluate env =
        (c.plug (.binary .disjunction (.neg l) (.neg r))).evaluate env ∧
      (c.plug (.neg (.binary .disjunction l r))).evaluate env =
        (c.plug (.binary .conjunction (.neg l) (.neg r))).evaluate env ∧
      (c.plug (.neg (.neg l))).evaluate env = (c.plug l).evaluate env ∧
      (c.plug (.binary .conjunction (.binary .conjunction l r) s)).evaluate env =
        (c.plug (.binary .conjunction l (.binary .conjunction r s))).evaluate env ∧
      (c.plug (.binary .disjunction (.binary .disjunction l r) s)).evaluate env =
        (c.plug (.binary .disjunction l (.binary .disjunction r s))).evaluate env :=
  ⟨(alike_implication l r).plug c env, (alike_neg_conjunction l r).plug c env,
    (alike_neg_disjunction l r).plug c env, (alike_neg_neg l).plug c env,
    (alike_assoc (by decide) l r s).plug c env, (alike_assoc (by decide) l r s).plug c env⟩

end Formula

end Propositional
