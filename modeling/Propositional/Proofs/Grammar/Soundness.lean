import Propositional.Proofs.Grammar.Congruence
import Propositional.Proofs.Grammar.Derivation
import Propositional.Proofs.Grammar.Rules
import Propositional.Proofs.Parsing.Steady

/-!
# What the parsers read is derived

A guard is `Balanced` if leaving an operand undoes what entering it did to the
state; under such a guard the parsers of the grammar are steady
(`steady_rule`). Under `Guard.atMost` they are sound:
what they read has a derivation with the value they give, and its nesting fits
between the operands that are already open and the limit (`sound_primary`,
`sound_expression`).
-/

namespace Propositional

open Parsing

variable {σ α : Type}

namespace Guard

/-- Leaving an operand gives back the state in which it was entered. -/
def Balanced (guard : Guard σ) : Prop :=
  ∀ text state inner, guard.enter text state = .ok inner → guard.leave inner = state

theorem balanced_atMost (limit : Nat) : (atMost limit).Balanced := by
  intro text state inner h
  simp only [atMost] at h ⊢
  split at h <;> cases h
  rfl

theorem Balanced.steady_nested {guard : Guard σ} (hg : guard.Balanced) {p : Parser σ α}
    (hp : Steady p) : Steady (guard.nested p) := by
  intro s
  simp only [nested]
  split
  · rename_i inner h
    have hs := hp ⟨s.rest, inner⟩
    cases ho : p ⟨s.rest, inner⟩ with
    | cut t => trivial
    | ok a t =>
      rw [ho] at hs
      exact (congrArg guard.leave hs).trans (hg _ _ _ h)
    | backtrack t =>
      rw [ho] at hs
      cases hs
      simp only [Outcome.mapState, hg _ _ _ h]
      rfl
  · trivial

/-- An operand that was read is one that was let in. -/
theorem nested_eq_ok {guard : Guard σ} {p : Parser σ α} {s t : Stream σ} {a : α}
    (h : guard.nested p s = .ok a t) : ∃ inner left, guard.enter s.rest s.state = .ok inner ∧
      p ⟨s.rest, inner⟩ = .ok a left ∧ t.rest = left.rest := by
  simp only [nested] at h
  split at h
  · rename_i inner he
    cases ho : p ⟨s.rest, inner⟩ <;> rw [ho] at h <;> cases h
    exact ⟨inner, _, he, ho, rfl⟩
  · cases h

end Guard

namespace Grammar

/-! ## Steadiness -/

section

variable {guard : Guard σ} (hg : guard.Balanced)

include hg

/-- What the grammar makes of steady parsers under a balanced guard is steady. -/
theorem steady_congruence : Congruence (fun _ p (_ : Parser σ _) => Steady p) guard guard where
  literal := steady_literal
  satisfy := steady_satisfy
  map f := .map f
  orElse := .orElse
  sequence := .sequence
  many := .many
  nested := hg.steady_nested
  recursive h := .recursive fun p => h p p

theorem steady_rule (rule : Rule) : Steady (rule.parser guard) :=
  (steady_congruence hg).rule rule

theorem steady_primary : Steady (primary guard) :=
  steady_rule hg .primary

theorem steady_expression : Steady (expression guard) :=
  steady_rule hg .expression

end

/-! ## Soundness -/

/-- Success of a run from `s` has read a text that is derived with the value
given, and whose nesting keeps within the limit. -/
def SoundFrom (limit : Nat) (derived : List Char → α → Nat → Prop) (s : Stream Nesting) :
    Outcome Nesting α → Prop
  | .ok a t => ∃ text n, s.rest = text ++ t.rest ∧ derived text a n ∧ s.state.depth + n ≤ limit
  | _ => True

/-- Runs that begin within the limit read what is derived. -/
def Sound (limit : Nat) (derived : List Char → α → Nat → Prop) (p : Parser Nesting α) : Prop :=
  ∀ s, s.state.depth ≤ limit → SoundFrom limit derived s (p s)

variable {limit : Nat} {derived : List Char → α → Nat → Prop}

theorem Sound.of_ok {p : Parser Nesting α} (h : ∀ s t a, s.state.depth ≤ limit →
    p s = .ok a t → SoundFrom limit derived s (.ok a t)) : Sound limit derived p := by
  intro s hs
  cases hp : p s with
  | ok a t => exact h s t a hs hp
  | backtrack t => trivial
  | cut t => trivial

theorem Sound.read {p : Parser Nesting α} (h : Sound limit derived p) {s t : Stream Nesting}
    {a : α} (hs : s.state.depth ≤ limit) (hp : p s = .ok a t) :
    ∃ text n, s.rest = text ++ t.rest ∧ derived text a n ∧ s.state.depth + n ≤ limit := by
  have := h s hs
  rwa [hp] at this

/-- An operand that is let in has room for one more level of nesting. -/
theorem Sound.nested {p : Parser Nesting α} (hp : Sound limit derived p) {s t : Stream Nesting}
    {a : α} (hs : s.state.depth ≤ limit) (h : (Guard.atMost limit).nested p s = .ok a t) :
    ∃ text n, s.rest = text ++ t.rest ∧ derived text a n ∧ s.state.depth + (n + 1) ≤ limit := by
  obtain ⟨inner, left, he, ho, ht⟩ := Guard.nested_eq_ok h
  simp only [Guard.atMost] at he
  split at he
  · cases he
  rename_i hne
  cases he
  obtain ⟨text, n, hr, hd, hn⟩ := hp.read (show s.state.depth + 1 ≤ limit by omega) ho
  exact ⟨text, n, ht ▸ hr, hd, by simp only at hn; omega⟩

variable {operand : Parser Nesting Formula}

theorem sound_links (hs : Steady operand) (hp : Sound limit Primary operand) :
    Sound limit Links (many (sequence connective operand)) := by
  have hlinks : Steady (sequence connective operand) :=
    (steady_congruence (Guard.balanced_atMost limit)).connective.sequence hs
  refine .of_ok fun s t links hd h => ?_
  refine hlinks.many_induction
    (motive := fun s links t => s.state.depth ≤ limit → SoundFrom limit Links s (.ok links t))
    (fun s hd => ⟨[], 0, rfl, .nil, hd⟩) (fun s link t links u hlink ih hd => ?_) h hd
  have hst := hlinks.state_eq hlink
  obtain ⟨v, hop, hq⟩ := sequence_eq_ok_iff.1 hlink
  have hv := connective_eq_ok_iff.1 hop
  subst hv
  obtain ⟨text, n, hr, hd₁, hn⟩ := hp.read (s := v) hd hq
  obtain ⟨rest, m, hr', hd₂, hm⟩ := ih (hst ▸ hd)
  rw [hst] at hm
  refine ⟨_, max n m, ?_, .cons hd₁ hd₂, ?_⟩
  · simp only [hr, hr', List.append_assoc]
  · simp only at hm ⊢
    omega

theorem sound_chain (hs : Steady operand) (hp : Sound limit Primary operand) :
    Sound limit Expression (chain operand) := by
  refine .of_ok fun s u p hd h => ?_
  obtain ⟨parts, hparts, rfl⟩ := map_eq_ok_iff.1 h
  obtain ⟨t, hfirst, hlinks⟩ := sequence_eq_ok_iff.1 hparts
  have hst := hs.state_eq hfirst
  obtain ⟨first, m, hr, hd₁, hm⟩ := hp.read hd hfirst
  obtain ⟨rest, n, hr', hd₂, hn⟩ := (sound_links hs hp).read (hst ▸ hd) hlinks
  refine ⟨first ++ rest, max m n, by rw [hr, hr', List.append_assoc], .chain hd₁ hd₂, ?_⟩
  rw [hst] at hn
  omega

/-- The text of an expression and of the parenthesis that closes it. -/
theorem sound_closed (hs : Steady operand) (hp : Sound limit Primary operand) :
    Sound limit (fun text parts n => ∃ body, text = body ++ [')'] ∧ Expression body parts.1 n)
      (sequence (chain operand) (literal [')'])) := by
  refine .of_ok fun s u parts hd h => ?_
  obtain ⟨t, hbody, hclose⟩ := sequence_eq_ok_iff.1 h
  obtain ⟨body, n, hr, hd₁, hn⟩ := (sound_chain hs hp).read hd hbody
  have ht := (literal_eq_ok_iff.1 hclose).2
  subst ht
  exact ⟨body ++ [')'], n, by simp [hr], ⟨body, rfl, hd₁⟩, hn⟩

theorem sound_parenthesized (hs : Steady operand) (hp : Sound limit Primary operand) :
    Sound limit Primary (parenthesized (Guard.atMost limit) operand) := by
  refine .of_ok fun s u p hd h => ?_
  obtain ⟨parts, hparts, rfl⟩ := map_eq_ok_iff.1 h
  obtain ⟨t, hopen, hrest⟩ := sequence_eq_ok_iff.1 hparts
  have ht := (literal_eq_ok_iff.1 hopen).2
  subst ht
  obtain ⟨_, n, hr, ⟨body, rfl, hd₁⟩, hn⟩ := (sound_closed hs hp).nested (s := t) hd hrest
  exact ⟨'(' :: (body ++ [')']), n + 1, by simp [hr], .parentheses hd₁, hn⟩

theorem sound_negation (hp : Sound limit Primary operand) :
    Sound limit Primary (negation (Guard.atMost limit) operand) := by
  refine .of_ok fun s u p hd h => ?_
  obtain ⟨parts, hparts, rfl⟩ := map_eq_ok_iff.1 h
  obtain ⟨t, hsign, hrest⟩ := sequence_eq_ok_iff.1 hparts
  have ht := (literal_eq_ok_iff.1 hsign).2
  subst ht
  obtain ⟨text, n, hr, hd₁, hn⟩ := hp.nested (s := t) hd hrest
  exact ⟨'-' :: text, n + 1, by simp [hr], .negation hd₁, hn⟩

theorem sound_constant : Sound limit Primary constant := by
  refine .of_ok fun s u p hd h => ?_
  rcases (Steady.map _ (steady_literal _)).orElse_eq_ok h with h | h
  · obtain ⟨_, hzero, rfl⟩ := map_eq_ok_iff.1 h
    have hu := (literal_eq_ok_iff.1 hzero).2
    subst hu
    exact ⟨['0'], 0, rfl, .zero, hd⟩
  · obtain ⟨_, hone, rfl⟩ := map_eq_ok_iff.1 h
    have hu := (literal_eq_ok_iff.1 hone).2
    subst hu
    exact ⟨['1'], 0, rfl, .one, hd⟩

theorem sound_letter : Sound limit Primary letter := by
  refine .of_ok fun s u p hd h => ?_
  obtain ⟨c, hc, rfl⟩ := map_eq_ok_iff.1 h
  obtain ⟨ha, hu⟩ := satisfy_eq_ok_iff.1 hc
  subst hu
  exact ⟨[c], 0, rfl, .letter ha, hd⟩

theorem sound_primaryOver (hs : Steady operand) (hp : Sound limit Primary operand) :
    Sound limit Primary (primaryOver (Guard.atMost limit) operand) := by
  have c := steady_congruence (Guard.balanced_atMost limit)
  refine .of_ok fun s u p hd h => ?_
  have hkinds : parenthesized (Guard.atMost limit) operand s = .ok p u ∨
      negation (Guard.atMost limit) operand s = .ok p u ∨ constant s = .ok p u ∨
        letter s = .ok p u := by
    refine ((c.parenthesized (q := operand) hs).orElse_eq_ok h).imp_right fun h => ?_
    exact ((c.negation (q := operand) hs).orElse_eq_ok h).imp_right c.constant.orElse_eq_ok
  rcases hkinds with h | h | h | h
  · exact (sound_parenthesized hs hp).read hd h
  · exact (sound_negation hp).read hd h
  · exact sound_constant.read hd h
  · exact sound_letter.read hd h

/-- What is read as a primary is one, nested no deeper than there is room for. -/
theorem sound_primary (limit : Nat) : Sound limit Primary (primary (Guard.atMost limit)) := by
  have c := steady_congruence (Guard.balanced_atMost limit)
  refine fun s => (recursive_induction (motive := fun s o => o.SteadyFrom s ∧
    (s.state.depth ≤ limit → SoundFrom limit Primary s o)) (fun _ => ⟨trivial, fun _ => trivial⟩)
    (fun p hp s => ?_) s).2
  have hs : Steady p := fun s => (hp s).1
  exact ⟨c.primaryOver (q := p) hs s, sound_primaryOver hs (fun s => (hp s).2) s⟩

theorem sound_expression (limit : Nat) :
    Sound limit Expression (expression (Guard.atMost limit)) :=
  sound_chain (steady_primary (Guard.balanced_atMost limit)) (sound_primary limit)

end Grammar

end Propositional
