import Propositional.Evaluation
import Propositional.Proofs.Formula.Parts

/-!
# Truth under a valuation

`Formula.truth` is the truth value of a formula when every variable has one; it
depends on the variables that occur (`truth_congr`). Evaluation in an environment
is another recursion, for an operand may be skipped; what it comes to at a
connective is said once, as a function of what it comes to on the operands
(`evaluate_binary`) and by cases (`evaluate_binary_cases`). An environment with these
values for the variables of a formula evaluates the formula to its truth value,
short circuit or not (`evaluate_eq_truth`), and there is such an environment
for every valuation (`get?_ofAssignment_map`). So to evaluate a formula in all
environments, or in some, is to consider all valuations, or some
(`forall_evaluate_iff`, `exists_evaluate_iff`).
-/

namespace Propositional

/-- A truth value for every variable. -/
abbrev Valuation := Variable → Bool

/-- The truth table of a connective. -/
def Connective.apply : Connective → Bool → Bool → Bool
  | conjunction, a, b => a && b
  | disjunction, a, b => a || b
  | implication, a, b => !a || b

namespace Formula

/-- The truth value of a formula. Both operands of a connective count. -/
def truth (v : Valuation) : Formula → Bool
  | const b => b
  | var x => v x
  | neg p => !p.truth v
  | binary op l r => op.apply (l.truth v) (r.truth v)

theorem truth_congr {v w : Valuation} {p : Formula} (h : ∀ x ∈ p.occurrences, v x = w x) :
    p.truth v = p.truth w := by
  induction p with
  | const b => rfl
  | var x => exact h x List.mem_cons_self
  | neg p ih => rw [truth, truth, ih h]
  | binary op l r ihl ihr =>
    rw [truth, truth, ihl fun x hx => h x (List.mem_append_left _ hx),
      ihr fun x hx => h x (List.mem_append_right _ hx)]

end Formula

/-! ## Evaluation -/

theorem Environment.lookup_eq_ok_iff {env : Environment} {x : Variable} {b : Bool} :
    env.lookup x = .ok b ↔ env.get? x = some b := by
  rw [lookup]
  cases env.get? x <;> simp

theorem Environment.lookup_eq_error_iff {env : Environment} {x y : Variable} :
    env.lookup x = .error (.unboundVariable y) ↔ x = y ∧ env.get? x = none := by
  rw [lookup]
  cases env.get? x <;> simp

/-- What an evaluation comes to. -/
abbrev Verdict := Except EvaluationError Bool

/-- The verdict on a binary formula, from those on its operands. The one on the right
operand counts where the left operand has a value that does not decide. -/
def Connective.join (op : Connective) (a b : Verdict) : Verdict :=
  a.bind fun left => (op.decidedBy left).elim b .ok

/-- A left operand that decides leaves no say to the right one. -/
theorem Connective.apply_of_decidedBy {op : Connective} {a c : Bool} (h : op.decidedBy a = some c)
    (b : Bool) : op.apply a b = c := by
  cases op <;> cases a <;> cases h <;> rfl

/-- A left operand that does not decide leaves it to the right one. -/
theorem Connective.apply_of_not_decidedBy {op : Connective} {a : Bool} (h : op.decidedBy a = none)
    (b : Bool) : op.apply a b = b := by
  cases op <;> cases a <;> cases h <;> rfl

namespace Formula

variable {env : Environment} {p l r : Formula} {op : Connective} {a b c : Bool}
  {e : EvaluationError}

theorem evaluate_neg (env : Environment) (p : Formula) :
    (neg p).evaluate env = (p.evaluate env).map (!·) := by
  rw [evaluate]
  cases p.evaluate env <;> rfl

theorem evaluate_neg_eq_ok_iff : (neg p).evaluate env = .ok b ↔ p.evaluate env = .ok (!b) := by
  rw [evaluate_neg]
  cases p.evaluate env <;> simp [Except.map, Bool.not_eq_eq_eq_not]

theorem evaluate_neg_eq_error_iff :
    (neg p).evaluate env = .error e ↔ p.evaluate env = .error e := by
  rw [evaluate_neg]
  cases p.evaluate env <;> simp [Except.map]

theorem evaluate_binary (env : Environment) (op : Connective) (l r : Formula) :
    (binary op l r).evaluate env = op.join (l.evaluate env) (r.evaluate env) := by
  cases hl : l.evaluate env with
  | error e => simp only [evaluate, hl, Connective.join, bind, Except.bind]
  | ok a =>
    simp only [evaluate, hl, Connective.join, bind, Except.bind]
    cases op.decidedBy a <;> rfl

theorem evaluate_of_decidedBy (hl : l.evaluate env = .ok a) (h : op.decidedBy a = some c) :
    (binary op l r).evaluate env = .ok c := by
  simp only [evaluate_binary, Connective.join, hl, Except.bind, h, Option.elim]

theorem evaluate_of_not_decidedBy (hl : l.evaluate env = .ok a) (h : op.decidedBy a = none) :
    (binary op l r).evaluate env = r.evaluate env := by
  simp only [evaluate_binary, Connective.join, hl, Except.bind, h, Option.elim]

/-- Where the left operand has no value, neither has the binary formula. -/
theorem evaluate_of_left_error (hl : l.evaluate env = .error e) :
    (binary op l r).evaluate env = .error e := by
  simp only [evaluate_binary, Connective.join, hl, Except.bind]

/-- How the evaluation of a binary formula goes: the left operand has no value, or
it decides alone, or it leaves the value to the right operand. -/
theorem evaluate_binary_cases (env : Environment) (op : Connective) (l r : Formula) :
    (∃ e, l.evaluate env = .error e ∧ (binary op l r).evaluate env = .error e) ∨
      (∃ a c, l.evaluate env = .ok a ∧ op.decidedBy a = some c ∧
        (binary op l r).evaluate env = .ok c) ∨
      ∃ a, l.evaluate env = .ok a ∧ op.decidedBy a = none ∧
        (binary op l r).evaluate env = r.evaluate env := by
  cases hl : l.evaluate env with
  | error e => exact .inl ⟨e, rfl, evaluate_of_left_error hl⟩
  | ok a =>
    cases hd : op.decidedBy a with
    | some c => exact .inr (.inl ⟨a, c, rfl, hd, evaluate_of_decidedBy hl hd⟩)
    | none => exact .inr (.inr ⟨a, rfl, hd, evaluate_of_not_decidedBy hl hd⟩)

theorem evaluate_eq_truth {v : Valuation}
    (h : ∀ x ∈ p.occurrences, env.get? x = some (v x)) : p.evaluate env = .ok (p.truth v) := by
  induction p with
  | const b => rfl
  | var x => exact Environment.lookup_eq_ok_iff.2 (h x List.mem_cons_self)
  | neg p ih => rw [truth, evaluate_neg_eq_ok_iff, Bool.not_not, ih h]
  | binary op l r ihl ihr =>
    have hl := ihl fun x hx => h x (List.mem_append_left _ hx)
    have hr := ihr fun x hx => h x (List.mem_append_right _ hx)
    rw [truth]
    cases hd : op.decidedBy (l.truth v) with
    | some c => rw [evaluate_of_decidedBy hl hd, Connective.apply_of_decidedBy hd]
    | none => rw [evaluate_of_not_decidedBy hl hd, hr, Connective.apply_of_not_decidedBy hd]

end Formula

/-! ## Environments of valuations -/

namespace Environment

/-- The values of an environment, and `false` for what it does not bind. -/
def valuation (env : Environment) : Valuation :=
  fun x => (env.get? x).getD false

/-- The environment has a value for every variable of the formula. -/
def Binds (env : Environment) (p : Formula) : Prop :=
  ∀ x ∈ p.vars, ∃ b, env.get? x = some b

theorem Binds.evaluate_eq {env : Environment} {p : Formula} (h : env.Binds p) :
    p.evaluate env = .ok (p.truth env.valuation) := by
  refine Formula.evaluate_eq_truth fun x hx => ?_
  obtain ⟨b, hb⟩ := h x (Formula.mem_vars_iff.2 hx)
  rw [valuation, hb]
  rfl

/-- Binding the values of a valuation keeps those that are already bound. -/
theorem get?_foldl_bind {v : Valuation} {x : Variable} (vars : List Variable) (env : Environment)
    (h : x ∈ vars ∨ env.get? x = some (v x)) :
    ((vars.zip (vars.map v)).foldl (fun env pair => env.bind pair.1 pair.2) env).get? x =
      some (v x) := by
  induction vars generalizing env with
  | nil => exact h.resolve_left List.not_mem_nil
  | cons y vars ih =>
    refine ih (env.bind y (v y)) ?_
    rw [get?_bind]
    by_cases hxy : x = y
    · exact .inr (by rw [if_pos hxy, hxy])
    · rw [if_neg hxy]
      exact h.imp_left fun hx => (List.mem_cons.1 hx).resolve_left hxy

theorem get?_ofAssignment_map (v : Valuation) {x : Variable} {vars : List Variable}
    (h : x ∈ vars) : (ofAssignment vars (vars.map v)).get? x = some (v x) :=
  get?_foldl_bind vars empty (.inl h)

theorem evaluate_ofAssignment_map (v : Valuation) {vars : List Variable} {p : Formula}
    (h : ∀ x ∈ p.occurrences, x ∈ vars) :
    p.evaluate (ofAssignment vars (vars.map v)) = .ok (p.truth v) :=
  Formula.evaluate_eq_truth fun x hx => get?_ofAssignment_map v (h x hx)

theorem binds_ofAssignment_map (v : Valuation) (p : Formula) :
    (ofAssignment p.vars (p.vars.map v)).Binds p :=
  fun x hx => ⟨v x, get?_ofAssignment_map v hx⟩

theorem evaluate_ofAssignment_vars (v : Valuation) (p : Formula) :
    p.evaluate (ofAssignment p.vars (p.vars.map v)) = .ok (p.truth v) :=
  evaluate_ofAssignment_map v fun _ hx => Formula.mem_vars_iff.2 hx

/-- What holds in all environments that bind the variables holds under all valuations. -/
theorem forall_evaluate_iff {p : Formula} {b : Bool} :
    (∀ env : Environment, env.Binds p → p.evaluate env = .ok b) ↔
      ∀ v : Valuation, p.truth v = b := by
  constructor
  · intro h v
    have hb := h _ (binds_ofAssignment_map v p)
    rw [evaluate_ofAssignment_vars] at hb
    exact Except.ok.inj hb
  · intro h env henv
    rw [henv.evaluate_eq, h env.valuation]

theorem exists_evaluate_iff {p : Formula} {b : Bool} :
    (∃ env : Environment, env.Binds p ∧ p.evaluate env = .ok b) ↔
      ∃ v : Valuation, p.truth v = b := by
  constructor
  · rintro ⟨env, henv, h⟩
    rw [henv.evaluate_eq] at h
    exact ⟨env.valuation, Except.ok.inj h⟩
  · rintro ⟨v, rfl⟩
    exact ⟨_, binds_ofAssignment_map v p, evaluate_ofAssignment_vars v p⟩

end Environment

end Propositional
