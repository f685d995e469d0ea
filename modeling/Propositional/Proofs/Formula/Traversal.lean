import Propositional.Proofs.Formula.Parts

/-!
# The traversal step by step

`Formula.visit` takes a formula from the top of a stack, lists it, and puts its operands in its
place. A `Traversal` is how far that has come: what is listed, and the stack. `Traversal.listing`
is what the list comes to in the end, and no step changes it (`listing_step`); the size of the
stack is the number of steps still to be taken, and every step takes one off it (`size_step`). So
a traversal halts after as many steps as its stack has sub-formulas, and what it has listed then
is known from any of its states (`halts_iff`). Of a formula these are its nodes in pre-order, and
the variables among them are the variables of the formula (`nodes_preorder_and_vars`).
-/

namespace Propositional.Formula

/-! ## Sizes -/

theorem sizes_append (ps qs : List Formula) : sizes (ps ++ qs) = sizes ps + sizes qs := by
  induction ps with
  | nil => simp [sizes]
  | cons p ps ih => rw [List.cons_append, sizes, sizes, ih, Nat.add_assoc]

theorem size_eq (p : Formula) : p.size = 1 + sizes p.operands := by
  cases p <;> rfl

theorem length_preorder (p : Formula) : p.preorder.length = p.size := by
  induction p with
  | const b => rfl
  | var x => rfl
  | neg p ih => rw [preorder, size, List.length_cons, ih, Nat.add_comm]
  | binary op l r ihl ihr =>
    rw [preorder, size, List.length_cons, List.length_append, ihl, ihr, Nat.add_comm]

/-! ## Traversals -/

/-- A traversal on its way. -/
structure Traversal where
  /-- The formulas that were listed, in their order. -/
  listed : List Formula
  /-- The formulas still to be traversed, from the top of the stack. -/
  stack : List Formula

namespace Traversal

/-- The traversal of a formula before its first step. -/
def start (p : Formula) : Traversal :=
  ⟨[], [p]⟩

/-- Lists the top of the stack, which its operands take the place of, the left one uppermost.
There is no step where the stack is empty. -/
def step : Traversal → Option Traversal
  | ⟨_, []⟩ => none
  | ⟨listed, p :: stack⟩ => some ⟨listed ++ [p], p.operands ++ stack⟩

/-- The traversal halts after so many steps, and has then listed `nodes`. -/
inductive Halts : Traversal → Nat → List Formula → Prop
  | done {t : Traversal} : t.step = none → Halts t 0 t.listed
  | next {t u : Traversal} {n : Nat} {nodes : List Formula} : t.step = some u →
      Halts u n nodes → Halts t (n + 1) nodes

/-- What is listed, and behind it the pre-orders of what is on the stack. -/
def listing (t : Traversal) : List Formula :=
  t.listed ++ t.stack.flatMap preorder

/-- The number of sub-formulas of what is on the stack. -/
def size (t : Traversal) : Nat :=
  sizes t.stack

/-! ## What a step keeps -/

variable {t u : Traversal}

theorem step_eq_some_iff : t.step = some u ↔ ∃ p stack, t.stack = p :: stack ∧
    u = ⟨t.listed ++ [p], p.operands ++ stack⟩ := by
  obtain ⟨listed, _ | ⟨p, stack⟩⟩ := t
  · simp [step]
  · constructor
    · intro h
      exact ⟨p, stack, rfl, (Option.some.inj h).symm⟩
    · rintro ⟨q, rest, hstack, rfl⟩
      cases hstack
      rfl

theorem step_eq_none_iff : t.step = none ↔ t.stack = [] := by
  obtain ⟨listed, _ | ⟨p, stack⟩⟩ := t <;> simp [step]

theorem listing_step (h : t.step = some u) : u.listing = t.listing := by
  obtain ⟨p, stack, hstack, rfl⟩ := step_eq_some_iff.1 h
  rw [listing, listing, hstack, List.flatMap_append, List.flatMap_cons, preorder_eq p,
    List.append_assoc, List.singleton_append, List.cons_append]

theorem size_step (h : t.step = some u) : t.size = u.size + 1 := by
  obtain ⟨p, stack, hstack, rfl⟩ := step_eq_some_iff.1 h
  rw [size, size, hstack, sizes, size_eq, sizes_append]
  omega

/-! ## Whole traversals -/

theorem size_eq_zero_iff : t.size = 0 ↔ t.stack = [] := by
  obtain ⟨listed, _ | ⟨p, stack⟩⟩ := t
  · simp [size, sizes]
  · simp [size, sizes, size_eq p]

theorem Halts.eq {n : Nat} {nodes : List Formula} (h : Halts t n nodes) :
    n = t.size ∧ nodes = t.listing := by
  induction h with
  | @done t hnone =>
    have hstack := step_eq_none_iff.1 hnone
    exact ⟨(size_eq_zero_iff.2 hstack).symm, by simp [listing, hstack]⟩
  | next hstep _ ih =>
    obtain ⟨rfl, rfl⟩ := ih
    exact ⟨(size_step hstep).symm, listing_step hstep⟩

theorem halts (t : Traversal) : Halts t t.size t.listing := by
  cases hstep : t.step with
  | none =>
    have hstack := step_eq_none_iff.1 hstep
    rw [size_eq_zero_iff.2 hstack, show t.listing = t.listed by simp [listing, hstack]]
    exact .done hstep
  | some u =>
    have hsize := size_step hstep
    rw [hsize, ← listing_step hstep]
    exact .next hstep (halts u)
termination_by t.size

/-- A traversal halts in one way: after as many steps as there are sub-formulas on its stack,
with what is listed behind what was listed before. -/
theorem halts_iff {n : Nat} {nodes : List Formula} :
    Halts t n nodes ↔ n = t.size ∧ nodes = t.listing :=
  ⟨Halts.eq, fun ⟨hn, hnodes⟩ => hn ▸ hnodes ▸ halts t⟩

end Traversal

/-- The traversal of a formula comes to an end, after one step for each of its sub-formulas, and
has then listed them in pre-order. These are the nodes, as many as the formula has
sub-formulas. The variables are in strictly ascending order of their code points, and are those
among the nodes. -/
theorem nodes_preorder_and_vars (p : Formula) :
    (∀ n nodes, (Traversal.start p).Halts n nodes ↔ n = p.size ∧ nodes = p.nodes) ∧
    p.nodes = p.preorder ∧ p.nodes.length = p.size ∧
    p.vars.Pairwise (fun x y => x.toNat < y.toNat) ∧
    ∀ x, x ∈ p.vars ↔ var x ∈ p.nodes := by
  have hnodes := nodes_eq_preorder p
  have hlisting : (Traversal.start p).listing = p.nodes := by
    rw [Traversal.listing, Traversal.start, List.flatMap_singleton, List.nil_append, hnodes]
  refine ⟨fun n nodes => ?_, hnodes, ?_, pairwise_vars p, fun x => ?_⟩
  · rw [Traversal.halts_iff, hlisting]
    rfl
  · rw [hnodes, length_preorder]
  · rw [mem_vars_iff, hnodes, var_mem_preorder_iff]

end Propositional.Formula
