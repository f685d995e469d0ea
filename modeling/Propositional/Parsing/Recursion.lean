import Propositional.Parsing.Parser

/-!
# Parsers described in terms of themselves

`recursive_eq` states when a recursive parser is what its description says:
when the description never leaves more text than it was given (`NonGrowing`)
and runs the parser that it is given only on less text than its own
(`Contractive`). The lemmas about the combinators show both of a description,
where a part that stands behind a consumed character need only run its parser
on no more text than its own (`Causal`).
-/

namespace Propositional.Parsing

variable {σ α β γ : Type}

/-- However it ends, a run leaves no more text than it was given. -/
def NonGrowing (p : Parser σ α) : Prop :=
  ∀ s, (p s).left.rest.length ≤ s.rest.length

/-- A run on `s` depends on how the parser it is given runs on less text only. -/
def Contractive (body : Parser σ α → Parser σ β) : Prop :=
  ∀ p q s, NonGrowing p → NonGrowing q →
    (∀ t : Stream σ, t.rest.length < s.rest.length → p t = q t) → body p s = body q s

/-- A run on `s` depends on how the parser it is given runs on no more text only. -/
def Causal (body : Parser σ α → Parser σ β) : Prop :=
  ∀ p q s, NonGrowing p → NonGrowing q →
    (∀ t : Stream σ, t.rest.length ≤ s.rest.length → p t = q t) → body p s = body q s

theorem Contractive.causal {body : Parser σ α → Parser σ β} (h : Contractive body) : Causal body :=
  fun p q s hp hq hpq => h p q s hp hq fun t ht => hpq t (Nat.le_of_lt ht)

/-! ## Leaving no more text -/

/-- A literal leaves less text by its length, or all of it. -/
theorem literal_cases (token : List Char) (s : Stream σ) :
    (∃ rest, s.rest = token ++ rest ∧ literal token s = .ok token (s.rewind rest)) ∨
      literal token s = .backtrack s := by
  cases h : dropToken token s.rest with
  | none => exact .inr (by simp [literal, h])
  | some rest =>
    exact .inl ⟨rest, dropToken_eq_some_iff.1 h, by simp [literal, h]⟩

theorem nonGrowing_literal (token : List Char) : NonGrowing (literal token : Parser σ _) := by
  intro s
  rcases literal_cases token s with ⟨rest, hs, h⟩ | h <;> rw [h]
  · simp [Outcome.left, Stream.rewind, hs]
  · exact Nat.le_refl _

theorem nonGrowing_satisfy (accept : Char → Bool) :
    NonGrowing (satisfy accept : Parser σ _) := by
  intro s
  cases h : s.rest with
  | nil => simp [satisfy, h, Outcome.left]
  | cons c rest =>
    cases ha : accept c <;> simp [satisfy, h, ha, Outcome.left, Stream.rewind]

theorem Outcome.left_map (f : α → β) (o : Outcome σ α) : (o.map f).left = o.left := by
  cases o <;> rfl

theorem Outcome.rest_mapState (f : σ → σ) (o : Outcome σ α) :
    (o.mapState f).left.rest = o.left.rest := by
  cases o <;> rfl

theorem NonGrowing.map (f : α → β) {p : Parser σ α} (hp : NonGrowing p) :
    NonGrowing (map f p) := by
  intro s
  rw [Parsing.map, Outcome.left_map]
  exact hp s

theorem NonGrowing.orElse {p q : Parser σ α} (hp : NonGrowing p) (hq : NonGrowing q) :
    NonGrowing (orElse p q) := by
  intro s
  have hs := hp s
  simp only [Parsing.orElse]
  cases h : p s with
  | ok a t => simpa only [h] using hs
  | cut t => simpa only [h] using hs
  | backtrack t => exact hq (t.rewind s.rest)

theorem NonGrowing.sequence {p : Parser σ α} {q : Parser σ β} (hp : NonGrowing p)
    (hq : NonGrowing q) : NonGrowing (sequence p q) := by
  intro s
  have hs := hp s
  simp only [Parsing.sequence]
  cases h : p s with
  | backtrack t => exact Nat.le_refl _
  | cut t => exact Nat.le_refl _
  | ok a t =>
    have ht := hq t
    simp only [h, Outcome.left] at hs ⊢
    cases h' : q t with
    | backtrack u => exact Nat.le_refl _
    | cut u => exact Nat.le_refl _
    | ok b u =>
      rw [h'] at ht
      exact Nat.le_trans ht hs

theorem NonGrowing.many {p : Parser σ α} (hp : NonGrowing p) : NonGrowing (many p) := by
  intro s
  have hs := hp s
  rw [Parsing.many]
  cases h : p s with
  | backtrack t => exact Nat.le_refl _
  | cut t => rw [h] at hs; exact hs
  | ok a t =>
    rw [h] at hs
    simp only
    split
    · rw [Outcome.left_map]
      exact Nat.le_trans (NonGrowing.many hp t) hs
    · exact hs
termination_by s => s.rest.length

/-! ## Running on less text -/

theorem causal_self : Causal (fun p : Parser σ α => p) :=
  fun _ _ s _ _ h => h s (Nat.le_refl _)

theorem contractive_const (p : Parser σ β) : Contractive (fun _ : Parser σ α => p) :=
  fun _ _ _ _ _ _ => rfl

theorem Causal.map (f : β → γ) {body : Parser σ α → Parser σ β} (h : Causal body) :
    Causal (fun p => Parsing.map f (body p)) := by
  intro p q s hp hq hpq
  simp only [Parsing.map, h p q s hp hq hpq]

theorem Contractive.map (f : β → γ) {body : Parser σ α → Parser σ β} (h : Contractive body) :
    Contractive (fun p => Parsing.map f (body p)) := by
  intro p q s hp hq hpq
  simp only [Parsing.map, h p q s hp hq hpq]

theorem Contractive.orElse {first second : Parser σ α → Parser σ β} (hf : Contractive first)
    (hs : Contractive second) : Contractive (fun p => Parsing.orElse (first p) (second p)) := by
  intro p q s hp hq hpq
  simp only [Parsing.orElse]
  rw [hf p q s hp hq hpq]
  cases first q s with
  | ok a t => rfl
  | cut t => rfl
  | backtrack t => exact hs p q (t.rewind s.rest) hp hq hpq

theorem Causal.sequence {first : Parser σ α → Parser σ β} {second : Parser σ α → Parser σ γ}
    (hf : Causal first) (hs : Causal second) (hn : ∀ p, NonGrowing p → NonGrowing (first p)) :
    Causal (fun p => Parsing.sequence (first p) (second p)) := by
  intro p q s hp hq hpq
  have ht := hn q hq s
  simp only [Parsing.sequence]
  rw [hf p q s hp hq hpq]
  cases h : first q s with
  | backtrack t => rfl
  | cut t => rfl
  | ok a t =>
    rw [h] at ht
    simp only
    rw [hs p q t hp hq fun u hu => hpq u (Nat.le_trans hu ht)]

/-- Behind a character that was consumed, a causal parser is contractive. -/
theorem Causal.afterLiteral {c : Char} {body : Parser σ α → Parser σ β} (h : Causal body) :
    Contractive (fun p => Parsing.sequence (literal [c]) (body p)) := by
  intro p q s hp hq hpq
  simp only [Parsing.sequence]
  rcases literal_cases [c] s with ⟨rest, hs, hl⟩ | hl
  · rw [hl]
    simp only
    rw [h p q _ hp hq fun t ht => hpq t ?_]
    simp only [Stream.rewind] at ht
    simp only [hs, List.cons_append, List.nil_append, List.length_cons]
    omega
  · rw [hl]

theorem Causal.many {body : Parser σ α → Parser σ β} (h : Causal body) :
    Causal (fun p => Parsing.many (body p)) := by
  intro p q s hp hq hpq
  show Parsing.many (body p) s = Parsing.many (body q) s
  rw [Parsing.many, Parsing.many, h p q s hp hq hpq]
  cases body q s with
  | backtrack t => rfl
  | cut t => rfl
  | ok a t =>
    simp only
    split
    · rename_i ht
      have := Causal.many h p q t hp hq fun u hu => hpq u (by omega)
      exact congrArg (Outcome.map (a :: ·)) this
    · rfl
termination_by _ _ s => s.rest.length

/-! ## Recursive parsers -/

/-- The parser that `recursive` gives its body: itself on less text than `s`,
and a cut elsewhere. -/
def below (body : Parser σ α → Parser σ α) (s : Stream σ) : Parser σ α := fun t =>
  if t.rest.length < s.rest.length then recursive body t else .cut t

theorem recursive_eq_below (body : Parser σ α → Parser σ α) (s : Stream σ) :
    recursive body s = body (below body s) s := by
  rw [recursive]
  rfl

/-- What holds of every cut on the spot, and of the runs of `body p` if it holds
of those of `p`, holds of the runs of the recursive parser. -/
theorem recursive_induction {body : Parser σ α → Parser σ α}
    {motive : Stream σ → Outcome σ α → Prop} (hcut : ∀ s, motive s (.cut s))
    (hbody : ∀ p : Parser σ α, (∀ s, motive s (p s)) → ∀ s, motive s (body p s)) (s : Stream σ) :
    motive s (recursive body s) := by
  rw [recursive_eq_below]
  refine hbody _ (fun t => ?_) s
  simp only [below]
  split
  · exact recursive_induction hcut hbody t
  · exact hcut t
termination_by s.rest.length

theorem nonGrowing_recursive {body : Parser σ α → Parser σ α}
    (hn : ∀ p, NonGrowing p → NonGrowing (body p)) : NonGrowing (recursive body) :=
  recursive_induction (motive := fun s o => o.left.rest.length ≤ s.rest.length)
    (fun _ => Nat.le_refl _) hn

/-- A recursive parser is what its description says of it. -/
theorem recursive_eq {body : Parser σ α → Parser σ α}
    (hn : ∀ p, NonGrowing p → NonGrowing (body p)) (hc : Contractive body) :
    recursive body = body (recursive body) := by
  have hr := nonGrowing_recursive hn
  funext s
  rw [recursive_eq_below]
  refine hc _ _ s (fun t => ?_) hr fun t ht => by simp only [below, ht, if_true]
  simp only [below]
  split
  · exact hr t
  · exact Nat.le_refl _

end Propositional.Parsing
