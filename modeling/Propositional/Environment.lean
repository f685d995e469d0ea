import Propositional.Formula.Basic
import Propositional.Text.Listing

/-!
# Environments

An environment binds truth values to variables. It keeps the order in which the
variables were first bound; to bind a variable again changes its value
(`get?_bind`) and not its place (`names_bind`). That order shows in the text of
an environment only: two environments are equal (`==`) when they bind the same
values.
-/

namespace Propositional

/-- Truth values bound to variables, each variable once. -/
structure Environment where
  /-- The bindings, in the order in which their variables were first bound. -/
  bindings : List (Variable × Bool)
  nodup : (bindings.map Prod.fst).Nodup

namespace Environment

/-- The bindings with `x` bound to `value`: in its place if it is among them,
otherwise at the end. Assumed of the maps of `indexmap`: to insert a key that is
there replaces its value and keeps its position, and a new key comes last. -/
def update (x : Variable) (value : Bool) : List (Variable × Bool) → List (Variable × Bool)
  | [] => [(x, value)]
  | (y, b) :: bindings =>
    if y = x then (y, value) :: bindings else (y, b) :: update x value bindings

theorem fst_update (x : Variable) (value : Bool) (bindings : List (Variable × Bool)) :
    (update x value bindings).map Prod.fst =
      if x ∈ bindings.map Prod.fst then bindings.map Prod.fst
      else bindings.map Prod.fst ++ [x] := by
  induction bindings with
  | nil => rfl
  | cons binding bindings ih =>
    obtain ⟨y, b⟩ := binding
    by_cases h : y = x
    · simp [update, h]
    · simp only [update, h, if_false, List.map_cons, ih, List.mem_cons, Ne.symm h, false_or]
      split <;> rfl

theorem nodup_update (x : Variable) (value : Bool) {bindings : List (Variable × Bool)}
    (h : (bindings.map Prod.fst).Nodup) : ((update x value bindings).map Prod.fst).Nodup := by
  rw [fst_update]
  split
  · exact h
  · rename_i hx
    rw [List.nodup_append]
    refine ⟨h, by simp, fun a ha b hb => ?_⟩
    rw [List.mem_singleton] at hb
    exact fun hab => hx (hb ▸ hab ▸ ha)

/-- The environment that binds nothing. -/
def empty : Environment := ⟨[], by simp⟩

/-- The environment with `x` bound to `value`. -/
def bind (env : Environment) (x : Variable) (value : Bool) : Environment :=
  ⟨update x value env.bindings, nodup_update x value env.nodup⟩

/-- Binds the pairs in order, from an environment that binds nothing. -/
def ofPairs (pairs : List (Variable × Bool)) : Environment :=
  pairs.foldl (fun env pair => env.bind pair.1 pair.2) empty

/-- Binds each variable to the value at its position. What the longer list has
over binds nothing. -/
def ofAssignment (vars : List Variable) (values : List Bool) : Environment :=
  ofPairs (vars.zip values)

/-- The value bound to `x`. -/
def get? (env : Environment) (x : Variable) : Option Bool :=
  env.bindings.lookup x

/-- The bound variables, in the order in which they were first bound. -/
def names (env : Environment) : List Variable :=
  env.bindings.map Prod.fst

/-- The number of bound variables. -/
def size (env : Environment) : Nat :=
  env.bindings.length

/-- Whether no variable is bound. -/
def isEmpty (env : Environment) : Bool :=
  env.bindings.isEmpty

/-- Whether the two environments bind the same values to the same variables, in any order.
Assumed of the maps of `indexmap`: their equality does not depend on the order. -/
def agrees (e₁ e₂ : Environment) : Bool :=
  e₁.size == e₂.size && e₁.bindings.all fun binding => e₂.get? binding.1 == some binding.2

instance : BEq Environment := ⟨agrees⟩

/-- The text of an environment, such as `{a=1, b=0}`. -/
def text (env : Environment) : String :=
  Text.listing (env.bindings.map fun binding =>
    String.singleton binding.1 ++ "=" ++ Text.digit binding.2)

theorem lookup_update (x y : Variable) (value : Bool) (bindings : List (Variable × Bool)) :
    (update x value bindings).lookup y = if y = x then some value else bindings.lookup y := by
  induction bindings with
  | nil => by_cases h : y = x <;> simp [update, List.lookup_cons, h, beq_false_of_ne]
  | cons binding bindings ih =>
    obtain ⟨z, b⟩ := binding
    by_cases hz : z = x
    · by_cases h : y = x
      · simp [update, hz, h]
      · simp [update, List.lookup_cons, hz, h, beq_false_of_ne]
    · by_cases h : y = z
      · simp [update, h, hz]
      · simp [update, List.lookup_cons, h, hz, ih, beq_false_of_ne]

/-- A binding changes the value of its variable and of no other. -/
theorem get?_bind (env : Environment) (x y : Variable) (value : Bool) :
    (env.bind x value).get? y = if y = x then some value else env.get? y :=
  lookup_update ..

/-- A variable bound again keeps its place, and a new one comes last. -/
theorem names_bind (env : Environment) (x : Variable) (value : Bool) :
    (env.bind x value).names = if x ∈ env.names then env.names else env.names ++ [x] :=
  fst_update ..

end Environment

end Propositional
