import Propositional.Proofs.Truth

/-!
# Evaluation on demand

An evaluation may come to a value although some variables of the formula are not
bound. What is bound on top of that changes nothing about it, and what is bound
besides the variable that an evaluation reports changes nothing about the report
(`evaluate_eq_of_extends`). The value is the truth value of the formula, whatever
the other variables are (`truth_of_evaluate_eq_ok`).

So a formula can be evaluated on demand: evaluate it, bind the variable that is
reported, and start over. `Answered` describes such a run. Every report names a
variable of the formula that is bound next (`length_unbound_bind_lt`), so the
run ends (`exists_answered`), and it ends with the truth value of the formula
under the valuation that was asked (`Answered.eq_truth`).
-/

namespace Propositional

/-! ## What an evaluation comes to -/

namespace Environment

/-- The first environment binds all that the second binds, to the same values. -/
def Extends (wide env : Environment) : Prop :=
  ∀ x b, env.get? x = some b → wide.get? x = some b

/-- What is bound in addition leaves the other bindings as they are. -/
theorem extends_bind {env : Environment} {x : Variable} (hx : env.get? x = none) (b : Bool) :
    (env.bind x b).Extends env := by
  intro y c hy
  rw [get?_bind, if_neg ?_, hy]
  rintro rfl
  rw [hx] at hy
  cases hy

end Environment

namespace Formula

variable {env wide : Environment} {p : Formula} {x : Variable} {b : Bool}

/-- More bindings change nothing, unless the variable that was reported is among them. -/
theorem evaluate_eq_of_extends (hw : wide.Extends env)
    (hx : ∀ x, p.evaluate env = .error (.unboundVariable x) → wide.get? x = none) :
    p.evaluate wide = p.evaluate env := by
  induction p with
  | const b => rfl
  | var x =>
    show wide.lookup x = env.lookup x
    cases h : env.get? x with
    | some b => rw [Environment.lookup_eq_ok_iff.2 h, Environment.lookup_eq_ok_iff.2 (hw x b h)]
    | none =>
      have hreport : env.lookup x = .error (.unboundVariable x) :=
        Environment.lookup_eq_error_iff.2 ⟨rfl, h⟩
      rw [hreport, Environment.lookup_eq_error_iff.2 ⟨rfl, hx x hreport⟩]
  | neg p ih =>
    rw [evaluate_neg, evaluate_neg, ih fun x h => hx x (evaluate_neg_eq_error_iff.2 h)]
  | binary op l r ihl ihr =>
    obtain ⟨e, hl, he⟩ | ⟨a, c, hl, hd, he⟩ | ⟨a, hl, hd, he⟩ := evaluate_binary_cases env op l r
    · rw [he] at hx ⊢
      have hl' : l.evaluate wide = l.evaluate env := ihl fun x h => hx x (hl.symm.trans h)
      exact evaluate_of_left_error (hl'.trans hl)
    · have hl' : l.evaluate wide = l.evaluate env := ihl fun x h => by rw [hl] at h; cases h
      rw [he, evaluate_of_decidedBy (hl'.trans hl) hd]
    · have hl' : l.evaluate wide = l.evaluate env := ihl fun x h => by rw [hl] at h; cases h
      rw [he] at hx ⊢
      rw [evaluate_of_not_decidedBy (hl'.trans hl) hd, ihr hx]

/-- A reported variable occurs in the formula and is not bound. -/
theorem mem_and_unbound_of_evaluate_eq_error
    (h : p.evaluate env = .error (.unboundVariable x)) :
    x ∈ p.occurrences ∧ env.get? x = none := by
  induction p with
  | const b => cases h
  | var y =>
    obtain ⟨rfl, hy⟩ := Environment.lookup_eq_error_iff.1 h
    exact ⟨List.mem_cons_self, hy⟩
  | neg p ih => exact ih (evaluate_neg_eq_error_iff.1 h)
  | binary op l r ihl ihr =>
    obtain ⟨e, hl, he⟩ | ⟨a, c, hl, hd, he⟩ | ⟨a, hl, hd, he⟩ := evaluate_binary_cases env op l r
    · obtain ⟨hmem, hx⟩ := ihl (hl.trans (he.symm.trans h))
      exact ⟨List.mem_append_left _ hmem, hx⟩
    · rw [he] at h
      cases h
    · obtain ⟨hmem, hx⟩ := ihr (he.symm.trans h)
      exact ⟨List.mem_append_right _ hmem, hx⟩

/-- A value is the truth value under every valuation with the values that are bound. -/
theorem truth_of_evaluate_eq_ok {v : Valuation}
    (hv : ∀ x ∈ p.occurrences, ∀ b, env.get? x = some b → v x = b)
    (h : p.evaluate env = .ok b) : p.truth v = b := by
  induction p generalizing b with
  | const c => exact Except.ok.inj h
  | var x => exact hv x List.mem_cons_self b (Environment.lookup_eq_ok_iff.1 h)
  | neg p ih => rw [truth, ih hv (evaluate_neg_eq_ok_iff.1 h), Bool.not_not]
  | binary op l r ihl ihr =>
    have hvl := fun x hx => hv x (List.mem_append_left _ hx)
    have hvr := fun x hx => hv x (List.mem_append_right _ hx)
    obtain ⟨e, -, he⟩ | ⟨a, c, hl, hd, he⟩ | ⟨a, hl, hd, he⟩ := evaluate_binary_cases env op l r
    · rw [he] at h
      cases h
    · rw [he] at h
      cases h
      rw [truth, ihl hvl hl, Connective.apply_of_decidedBy hd]
    · rw [truth, ihl hvl hl, Connective.apply_of_not_decidedBy hd, ihr hvr (he.symm.trans h)]

end Formula

/-! ## Runs on demand -/

namespace Environment

/-- The variables of a formula that are not bound. -/
def unbound (env : Environment) (p : Formula) : List Variable :=
  p.vars.filter fun x => (env.get? x).isNone

theorem mem_unbound_iff {env : Environment} {p : Formula} {x : Variable} :
    x ∈ env.unbound p ↔ x ∈ p.vars ∧ env.get? x = none := by
  rw [unbound, List.mem_filter, Option.isNone_iff_eq_none]

/-- To bind a variable takes it out of those that are not bound. -/
theorem unbound_bind (env : Environment) (p : Formula) (x : Variable) (b : Bool) :
    (env.bind x b).unbound p = (env.unbound p).filter (· ≠ x) := by
  rw [unbound, unbound, List.filter_filter]
  refine List.filter_congr fun y _ => ?_
  rw [get?_bind]
  by_cases h : y = x <;> simp [h]

theorem length_unbound_bind_lt {env : Environment} {p : Formula} {x : Variable} (b : Bool)
    (h : p.evaluate env = .error (.unboundVariable x)) :
    ((env.bind x b).unbound p).length < (env.unbound p).length := by
  obtain ⟨hmem, hx⟩ := Formula.mem_and_unbound_of_evaluate_eq_error h
  rw [unbound_bind, List.length_filter_lt_length_iff_exists]
  exact ⟨x, mem_unbound_iff.2 ⟨Formula.mem_vars_iff.2 hmem, hx⟩, by simp⟩

end Environment

/-- A run on demand: from an environment on, the variables that are asked for in
order, each of which is bound to its value before the formula is evaluated
again, and the value that the last evaluation comes to. -/
inductive Answered (v : Valuation) (p : Formula) :
    Environment → List Variable → Bool → Prop
  | done {env b} : p.evaluate env = .ok b → Answered v p env [] b
  | ask {env x asked b} : p.evaluate env = .error (.unboundVariable x) →
      Answered v p (env.bind x (v x)) asked b → Answered v p env (x :: asked) b

section

variable {v : Valuation} {p : Formula}

/-- A run on demand ends, before there is nothing left to ask for. -/
theorem exists_answered (v : Valuation) (p : Formula) (env : Environment) :
    ∃ asked b, Answered v p env asked b ∧ asked.length ≤ (env.unbound p).length := by
  induction hn : (env.unbound p).length using Nat.strongRecOn generalizing env with
  | ind n ih =>
    cases he : p.evaluate env with
    | ok b => exact ⟨[], b, .done he, Nat.zero_le n⟩
    | error e =>
      obtain ⟨x⟩ := e
      have hlt := Environment.length_unbound_bind_lt (v x) he
      obtain ⟨asked, b, hrun, hle⟩ := ih _ (hn ▸ hlt) (env.bind x (v x)) rfl
      refine ⟨x :: asked, b, .ask he hrun, ?_⟩
      rw [List.length_cons]
      omega

/-- There is one run from an environment. -/
theorem Answered.unique {env : Environment} {asked asked' : List Variable} {b b' : Bool}
    (h : Answered v p env asked b) (h' : Answered v p env asked' b') : asked' = asked ∧ b' = b := by
  induction h generalizing asked' with
  | done he =>
    cases h' with
    | done he' => exact ⟨rfl, Except.ok.inj (he'.symm.trans he)⟩
    | ask he' _ => cases he.symm.trans he'
  | ask he _ ih =>
    cases h' with
    | done he' => cases he.symm.trans he'
    | ask he' hrun =>
      cases he.symm.trans he'
      obtain ⟨rfl, rfl⟩ := ih hrun
      exact ⟨rfl, rfl⟩

/-- From an environment with values of the valuation, a run comes to the truth value. -/
theorem Answered.eq_truth {env : Environment} {asked : List Variable} {b : Bool}
    (h : Answered v p env asked b) (hv : ∀ x ∈ p.vars, ∀ b, env.get? x = some b → v x = b) :
    b = p.truth v := by
  induction h with
  | done he =>
    exact (Formula.truth_of_evaluate_eq_ok (fun x hx => hv x (Formula.mem_vars_iff.2 hx)) he).symm
  | @ask env x _ _ _ _ ih =>
    refine ih fun y hy c hc => ?_
    rw [Environment.get?_bind] at hc
    split at hc
    · rename_i hyx
      rw [hyx]
      exact Option.some.inj hc
    · exact hv y hy c hc

end

/-- Evaluation with short circuit is monotone, and complete on demand. A value
stays the value when more variables are bound, and is the truth value once all
are. A report names a variable of the formula that is not bound, and stays the
report as long as that variable is not bound. A run on demand ends with a
value, after no more questions than variables were not bound at first, and this
value is the truth value if the bindings at first have the values asked for. -/
theorem evaluate_monotone_and_answered (p : Formula) (env : Environment) :
    (∀ b, p.evaluate env = .ok b → ∀ wide : Environment, wide.Extends env →
      p.evaluate wide = .ok b ∧ (wide.Binds p → p.truth wide.valuation = b)) ∧
    (∀ x, p.evaluate env = .error (.unboundVariable x) →
      x ∈ p.vars ∧ env.get? x = none ∧
        ∀ wide : Environment, wide.Extends env → wide.get? x = none →
          p.evaluate wide = .error (.unboundVariable x)) ∧
    ∀ v : Valuation, ∃ asked b, Answered v p env asked b ∧
      asked.length ≤ (env.unbound p).length ∧
      (∀ asked' b', Answered v p env asked' b' → asked' = asked ∧ b' = b) ∧
      ((∀ x ∈ p.vars, ∀ b, env.get? x = some b → v x = b) → b = p.truth v) := by
  refine ⟨fun b h wide hw => ?_, fun x h => ?_, fun v => ?_⟩
  · have hreport : ∀ x, p.evaluate env = .error (.unboundVariable x) → wide.get? x = none := by
      intro x hx
      cases h.symm.trans hx
    have hwide := (Formula.evaluate_eq_of_extends hw hreport).trans h
    exact ⟨hwide, fun hbinds => Except.ok.inj (hbinds.evaluate_eq.symm.trans hwide)⟩
  · obtain ⟨hmem, hx⟩ := Formula.mem_and_unbound_of_evaluate_eq_error h
    refine ⟨Formula.mem_vars_iff.2 hmem, hx, fun wide hw hwx => ?_⟩
    have hreport : ∀ y, p.evaluate env = .error (.unboundVariable y) → wide.get? y = none := by
      intro y hy
      cases h.symm.trans hy
      exact hwx
    exact (Formula.evaluate_eq_of_extends hw hreport).trans h
  · obtain ⟨asked, b, hrun, hle⟩ := exists_answered v p env
    exact ⟨asked, b, hrun, hle, fun _ _ h => hrun.unique h, hrun.eq_truth⟩

/-- With `a` false, `((a*b)+c)` does not ask for `b`: it asks for `c`, whether `b`
is bound or not, and that is all it asks for. -/
theorem evaluate_monotone_and_answered_skip :
    let p := Formula.binary .disjunction (.binary .conjunction (.var 'a') (.var 'b')) (.var 'c')
    let env := Environment.ofPairs [('a', false)]
    p.evaluate env = .error (.unboundVariable 'c') ∧
      p.evaluate (env.bind 'b' true) = .error (.unboundVariable 'c') ∧
      p.evaluate (env.bind 'c' true) = .ok true ∧
      p.evaluate ((env.bind 'c' true).bind 'b' false) = .ok true ∧
      ∃ asked, Answered (· == 'c') p env asked true ∧ asked.length ≤ 2 := by
  intro p env
  have hreport : p.evaluate env = .error (.unboundVariable 'c') := rfl
  have hvalue : p.evaluate (env.bind 'c' true) = .ok true := rfl
  obtain ⟨-, herror, hanswered⟩ := evaluate_monotone_and_answered p env
  obtain ⟨hok, -, -⟩ := evaluate_monotone_and_answered p (env.bind 'c' true)
  refine ⟨hreport, ?_, hvalue, ?_, ?_⟩
  · exact (herror 'c' hreport).2.2 _ (Environment.extends_bind rfl true) rfl
  · exact (hok true hvalue _ (Environment.extends_bind rfl false)).1
  · obtain ⟨asked, b, hrun, hle, -, htruth⟩ := hanswered (· == 'c')
    have hagrees : ∀ x ∈ p.vars, ∀ b, env.get? x = some b → (x == 'c') = b := by
      intro x hx b hb
      have hx : x ∈ ['a', 'b', 'c'] := hx
      obtain rfl | rfl | rfl : x = 'a' ∨ x = 'b' ∨ x = 'c' := by simpa using hx
      all_goals cases hb
      rfl
    rw [htruth hagrees] at hrun
    exact ⟨asked, hrun, hle⟩

end Propositional
