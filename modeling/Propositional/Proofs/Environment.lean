import Mathlib.Data.List.Induction
import Mathlib.Data.List.Nodup
import Mathlib.Data.List.Perm.Subperm
import Propositional.Proofs.Truth

/-!
# Environments collected from pairs

To collect pairs into an environment is to bind them one after another. So a variable
has the value of the last pair for it (`get?_ofPairs`), and the place of the first one
(`names_ofPairs`); both show in the text of the environment (`collects_ofPairs`), which
is spelled out by `shown`.

Nothing of that order has a part in an evaluation, which asks for the values of the
variables of the formula (`evaluate_congr`). In particular equal environments, which
are those that bind the same values (`agrees_iff`), evaluate a formula to the same.
-/

namespace Propositional

namespace Environment

variable {env e₁ e₂ : Environment} {x : Variable} {b : Bool}

/-! ## What is bound -/

theorem mem_bindings_iff : (x, b) ∈ env.bindings ↔ env.get? x = some b := by
  rw [get?, List.lookup_eq_some_iff]
  constructor
  · intro h
    obtain ⟨front, back, hsplit⟩ := List.append_of_mem h
    refine ⟨front, back, hsplit, fun pair hpair => ?_⟩
    have hnodup := env.nodup
    rw [hsplit, List.map_append, List.nodup_append] at hnodup
    rw [bne_iff_ne]
    exact (hnodup.2.2 pair.1 (List.mem_map_of_mem hpair) x List.mem_cons_self).symm
  · rintro ⟨front, back, hsplit, -⟩
    rw [hsplit]
    exact List.mem_append_right _ List.mem_cons_self

theorem nodup_bindings (env : Environment) : env.bindings.Nodup :=
  List.Nodup.of_map Prod.fst env.nodup

/-- Environments bind the same values exactly if they have the same bindings in some order. -/
theorem get?_eq_iff_perm :
    (∀ x, e₁.get? x = e₂.get? x) ↔ e₁.bindings.Perm e₂.bindings := by
  rw [List.perm_ext_iff_of_nodup e₁.nodup_bindings e₂.nodup_bindings]
  constructor
  · intro h pair
    rw [← Prod.eta pair, mem_bindings_iff, mem_bindings_iff, h]
  · intro h x
    refine Option.ext fun b => ?_
    rw [← mem_bindings_iff, ← mem_bindings_iff, h]

/-- Environments are equal when they bind the same values. It is enough to look at the
bindings of one of them, since there are as many of the other. -/
theorem agrees_iff : e₁.agrees e₂ = true ↔ ∀ x, e₁.get? x = e₂.get? x := by
  rw [get?_eq_iff_perm, agrees, Bool.and_eq_true, beq_iff_eq, List.all_eq_true]
  constructor
  · rintro ⟨hsize, hvalues⟩
    have hsub : e₁.bindings ⊆ e₂.bindings := by
      intro pair hpair
      rw [← Prod.eta pair, mem_bindings_iff]
      exact eq_of_beq (hvalues pair hpair)
    exact (e₁.nodup_bindings.subperm hsub).perm_of_length_le (Nat.le_of_eq hsize.symm)
  · intro hperm
    refine ⟨hperm.length_eq, fun pair hpair => ?_⟩
    rw [beq_iff_eq, ← mem_bindings_iff]
    exact hperm.subset hpair

/-! ## Pairs -/

/-- The value of the last of the pairs for a variable, if there is one. -/
def lastValue? (pairs : List (Variable × Bool)) (x : Variable) : Option Bool :=
  (pairs.filter fun pair => pair.1 = x).getLast?.map Prod.snd

theorem lastValue?_concat (pairs : List (Variable × Bool)) (pair : Variable × Bool)
    (x : Variable) :
    lastValue? (pairs ++ [pair]) x = if x = pair.1 then some pair.2 else lastValue? pairs x := by
  by_cases h : pair.1 = x
  · simp [lastValue?, h]
  · simp [lastValue?, h, Ne.symm h]

theorem ofPairs_concat (pairs : List (Variable × Bool)) (pair : Variable × Bool) :
    ofPairs (pairs ++ [pair]) = (ofPairs pairs).bind pair.1 pair.2 := by
  rw [ofPairs, List.foldl_concat, ofPairs]

/-- The last value that is given for a variable counts. -/
theorem get?_ofPairs (pairs : List (Variable × Bool)) (x : Variable) :
    (ofPairs pairs).get? x = lastValue? pairs x := by
  induction pairs using List.reverseRecOn with
  | nil => rfl
  | append_singleton pairs pair ih => rw [ofPairs_concat, get?_bind, ih, lastValue?_concat]

theorem eraseDups_concat (vars : List Variable) (x : Variable) :
    (vars ++ [x]).eraseDups = if x ∈ vars then vars.eraseDups else vars.eraseDups ++ [x] := by
  rw [List.eraseDups_append, List.removeAll]
  by_cases h : x ∈ vars
  · simp [h]
  · simp [h, List.eraseDups_cons]

/-- The variables are in the order in which they are first given. -/
theorem names_ofPairs (pairs : List (Variable × Bool)) :
    (ofPairs pairs).names = (pairs.map Prod.fst).eraseDups := by
  induction pairs using List.reverseRecOn with
  | nil => rfl
  | append_singleton pairs pair ih =>
    rw [ofPairs_concat, names_bind, ih, List.map_append, List.map_singleton, eraseDups_concat]
    simp only [List.mem_eraseDups]

theorem update_of_not_mem {value : Bool} {bindings : List (Variable × Bool)}
    (h : x ∉ bindings.map Prod.fst) : update x value bindings = bindings ++ [(x, value)] := by
  induction bindings with
  | nil => rfl
  | cons binding bindings ih =>
    rw [List.map_cons, List.mem_cons, not_or] at h
    rw [update, if_neg (Ne.symm h.1), ih h.2]
    rfl

/-- Pairs of different variables are the bindings of what they are collected to. -/
theorem bindings_ofPairs {pairs : List (Variable × Bool)} (h : (pairs.map Prod.fst).Nodup) :
    (ofPairs pairs).bindings = pairs := by
  induction pairs using List.reverseRecOn with
  | nil => rfl
  | append_singleton pairs pair ih =>
    rw [List.map_append, List.nodup_append] at h
    obtain ⟨hpairs, -, hne⟩ := h
    have hpair : pair.1 ∉ pairs.map Prod.fst := fun hmem => hne _ hmem _ List.mem_cons_self rfl
    rw [ofPairs_concat]
    show update pair.1 pair.2 (ofPairs pairs).bindings = _
    rw [ih hpairs, update_of_not_mem hpair]

/-! ## Texts -/

/-- Bindings between braces: `x=1` or `x=0` for each of them, a comma and a blank between two. -/
def shown (bindings : List (Variable × Bool)) : String :=
  "\x7b" ++ ", ".intercalate (bindings.map fun binding =>
    String.ofList [binding.1, '=', if binding.2 then '1' else '0']) ++ "\x7d"

example : shown [('p', true), ('q', false)] = "\x7bp=1, q=0\x7d" := by decide

/-- The text of an environment shows its bindings. -/
theorem text_eq_shown (env : Environment) : env.text = shown env.bindings := by
  have hitem : ∀ binding : Variable × Bool,
      String.singleton binding.1 ++ "=" ++ Text.digit binding.2 =
        String.ofList [binding.1, '=', if binding.2 then '1' else '0'] := by
    rintro ⟨x, b⟩
    apply String.toList_injective
    cases b <;> simp [Text.digit]
  rw [text, Text.listing, shown, List.map_congr_left fun binding _ => hitem binding]

/-- The text of an environment that gives each of several variables the value of a valuation. -/
theorem text_ofAssignment_map (v : Valuation) {vars : List Variable} (h : vars.Nodup) :
    (ofAssignment vars (vars.map v)).text = shown (vars.map fun x => (x, v x)) := by
  have hnames : ((vars.map fun x => (x, v x)).map Prod.fst).Nodup := by
    rwa [List.map_map, show Prod.fst ∘ (fun x => (x, v x)) = id from rfl, List.map_id]
  rw [text_eq_shown, ofAssignment, ← List.map_prod_left_eq_zip, bindings_ofPairs hnames]

/-- The environment is what pairs come to when they are collected. -/
structure Collects (env : Environment) (pairs : List (Variable × Bool)) : Prop where
  /-- Every variable has the last value that is given for it. -/
  get?_eq : ∀ x, env.get? x = lastValue? pairs x
  /-- The text has each variable once, in the order in which they are first given, and
  with the last value. -/
  text_eq : ∃ entries : List (Variable × Bool),
    entries.map Prod.fst = (pairs.map Prod.fst).eraseDups ∧
    (∀ entry ∈ entries, lastValue? pairs entry.1 = some entry.2) ∧
    env.text = shown entries

theorem collects_ofPairs (pairs : List (Variable × Bool)) : (ofPairs pairs).Collects pairs where
  get?_eq := get?_ofPairs pairs
  text_eq := by
    refine ⟨(ofPairs pairs).bindings, names_ofPairs pairs, fun entry hentry => ?_,
      text_eq_shown _⟩
    rw [← get?_ofPairs]
    exact mem_bindings_iff.1 hentry

/-- There is one list of given variables with given values. -/
theorem eq_of_map_fst {f : Variable → Option Bool} {entries entries' : List (Variable × Bool)}
    (h : entries.map Prod.fst = entries'.map Prod.fst)
    (hf : ∀ entry ∈ entries, f entry.1 = some entry.2)
    (hf' : ∀ entry ∈ entries', f entry.1 = some entry.2) : entries = entries' := by
  induction entries generalizing entries' with
  | nil => exact (List.map_eq_nil_iff.1 h.symm).symm
  | cons entry entries ih =>
    cases entries' with
    | nil => cases h
    | cons entry' entries' =>
      rw [List.forall_mem_cons] at hf hf'
      obtain ⟨hfst, hrest⟩ := List.cons.inj h
      have hsnd : entry.2 = entry'.2 := Option.some.inj (hf.1.symm.trans (hfst ▸ hf'.1))
      rw [Prod.ext hfst hsnd, ih hrest hf.2 hf'.2]

/-- The text shows the variables in the order in which they are first given, with their last
values. -/
theorem Collects.text_eq_of_last {pairs entries : List (Variable × Bool)} (h : env.Collects pairs)
    (hnames : entries.map Prod.fst = (pairs.map Prod.fst).eraseDups)
    (hlast : ∀ entry ∈ entries, lastValue? pairs entry.1 = some entry.2) :
    env.text = shown entries := by
  obtain ⟨entries', hnames', hlast', htext⟩ := h.text_eq
  rw [htext, eq_of_map_fst (hnames'.trans hnames.symm) hlast' hlast]

/-- As many variables are bound as there are values for them, and the other way round. -/
theorem ofAssignment_eq_take (vars : List Variable) (values : List Bool) :
    ofAssignment vars values =
      ofPairs ((vars.take (min vars.length values.length)).zip
        (values.take (min vars.length values.length))) := by
  rw [ofAssignment, ← List.zip_eq_zip_take_min]

end Environment

/-! ## Evaluation -/

/-- An evaluation asks for the values of the variables that occur, and for nothing else. -/
theorem Formula.evaluate_congr {p : Formula} {e₁ e₂ : Environment}
    (h : ∀ x ∈ p.occurrences, e₁.get? x = e₂.get? x) : p.evaluate e₁ = p.evaluate e₂ := by
  induction p with
  | const b => rfl
  | var x =>
    show e₁.lookup x = e₂.lookup x
    rw [Environment.lookup, Environment.lookup, h x List.mem_cons_self]
  | neg p ih => rw [evaluate_neg, evaluate_neg, ih h]
  | binary op l r ihl ihr =>
    rw [evaluate_binary, evaluate_binary, ihl fun x hx => h x (List.mem_append_left _ hx),
      ihr fun x hx => h x (List.mem_append_right _ hx)]

namespace Environment

/-- An environment that is collected from pairs has the last values at the first places,
and one collected from variables and values pairs as many of them as there are of both.
A formula comes to the same value, or reports the same variable, in all environments
that answer the same for its variables, and so in environments that are equal. -/
theorem collects_and_evaluate_eq (p : Formula) :
    (∀ pairs : List (Variable × Bool), (ofPairs pairs).Collects pairs) ∧
      (∀ (vars : List Variable) (values : List Bool), (ofAssignment vars values).Collects
        ((vars.take (min vars.length values.length)).zip
          (values.take (min vars.length values.length)))) ∧
      (∀ e₁ e₂ : Environment, (∀ x ∈ p.vars, e₁.get? x = e₂.get? x) →
        p.evaluate e₁ = p.evaluate e₂) ∧
      ∀ e₁ e₂ : Environment, (e₁ == e₂) = true → p.evaluate e₁ = p.evaluate e₂ := by
  refine ⟨collects_ofPairs, fun vars values => ?_, fun e₁ e₂ h => ?_, fun e₁ e₂ h => ?_⟩
  · rw [ofAssignment_eq_take]
    exact collects_ofPairs _
  · exact Formula.evaluate_congr fun x hx => h x (Formula.mem_vars_iff.2 hx)
  · exact Formula.evaluate_congr fun x _ => agrees_iff.1 h x

/-- With `a` bound twice and `c` bound as well, `(a*b)` reports `b` as it does when `a` has
its last value and nothing else is bound. The text shows `a` first and with its last value. -/
theorem collects_and_evaluate_eq_unbound :
    let p := Formula.binary .conjunction (.var 'a') (.var 'b')
    let env := ofPairs [('a', false), ('c', false), ('a', true)]
    (∀ x ∈ p.vars, env.get? x = (ofPairs [('a', true)]).get? x) ∧
      env.get? 'a' = some true ∧ env.text = "\x7ba=1, c=0\x7d" ∧
      p.evaluate env = .error (.unboundVariable 'b') := by
  intro p env
  have hsame : ∀ x ∈ p.vars, env.get? x = (ofPairs [('a', true)]).get? x := by
    intro x hx
    have hx : x ∈ ['a', 'b'] := hx
    obtain rfl | rfl : x = 'a' ∨ x = 'b' := by simpa using hx
    · rfl
    · rfl
  obtain ⟨hcollects, -, hevaluate, -⟩ := collects_and_evaluate_eq p
  have hcollected := hcollects [('a', false), ('c', false), ('a', true)]
  have htext : env.text = shown [('a', true), ('c', false)] :=
    hcollected.text_eq_of_last (by decide) (by decide)
  refine ⟨hsame, ?_, htext.trans (by decide), ?_⟩
  · rw [hcollected.get?_eq]
    rfl
  · rw [hevaluate env _ hsame]
    rfl

end Environment

end Propositional
