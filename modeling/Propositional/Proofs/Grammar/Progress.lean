import Propositional.Proofs.Grammar.Soundness
import Propositional.Proofs.Parsing.Progress

/-!
# What the rules consume

Every rule reads from the front of its text (`leavesSuffix_rule`) and does not succeed without
having read a character (`advancing_rule`): a primary begins with a sign, a digit or a letter,
and an expression begins with a primary. A link of a chain, which is a connective and the primary
behind it, has read the connective (`advancing_link`), so that no repetition of links is stuck.
Under a balanced guard a rule that backtracks has not moved. `Progressing` puts the three
together.
-/

namespace Propositional

open Parsing

variable {σ α : Type}

theorem Guard.leavesSuffix_nested (guard : Guard σ) {p : Parser σ α} (hp : LeavesSuffix p) :
    LeavesSuffix (guard.nested p) := by
  intro s
  simp only [Guard.nested]
  split
  · rw [Outcome.rest_mapState]
    exact hp _
  · exact List.suffix_refl _

namespace Grammar

/-! ## Reading from the front -/

theorem leavesSuffix_congruence (guard : Guard σ) :
    Congruence (fun _ p (_ : Parser σ _) => LeavesSuffix p) guard guard where
  literal := leavesSuffix_literal
  satisfy := leavesSuffix_satisfy
  map f := .map f
  orElse := .orElse
  sequence := .sequence
  many := .many
  nested := guard.leavesSuffix_nested
  recursive h := .recursive fun p => h p p

theorem leavesSuffix_rule (guard : Guard σ) (rule : Rule) : LeavesSuffix (rule.parser guard) :=
  (leavesSuffix_congruence guard).rule rule

/-! ## Reading a character -/

theorem advancing_constant : Advancing (constant : Parser σ Formula) :=
  .orElse (.map _ (advancing_literal (by simp))) (.map _ (advancing_literal (by simp)))

theorem advancing_letter : Advancing (letter : Parser σ Formula) :=
  .map _ (advancing_satisfy _)

theorem advancing_connective : Advancing (connective : Parser σ Connective) :=
  .orElse (.map _ (advancing_literal (by simp)))
    (.orElse (.map _ (advancing_literal (by simp))) (.map _ (advancing_literal (by simp))))

section

variable (guard : Guard σ) {p : Parser σ Formula} (hp : NonGrowing p)

include hp

theorem advancing_parenthesized : Advancing (parenthesized guard p) :=
  have hinside : NonGrowing (sequence (chain p) (literal [')'])) :=
    .sequence (nonGrowing_chain hp) (nonGrowing_literal _)
  .map _ ((advancing_literal (by simp)).sequence_left (guard.nonGrowing_nested hinside))

theorem advancing_negation : Advancing (negation guard p) :=
  .map _ ((advancing_literal (by simp)).sequence_left (guard.nonGrowing_nested hp))

end

theorem advancing_primary (guard : Guard σ) : Advancing (primary guard) := by
  have hp := nonGrowing_primary guard
  rw [primary_eq]
  exact .orElse (advancing_parenthesized guard hp)
    (.orElse (advancing_negation guard hp) (.orElse advancing_constant advancing_letter))

/-- The body of the repetition in an expression. -/
theorem advancing_link (guard : Guard σ) : Advancing (sequence connective (primary guard)) :=
  advancing_connective.sequence_left (nonGrowing_primary guard)

theorem advancing_rule (guard : Guard σ) (rule : Rule) : Advancing (rule.parser guard) := by
  have hp := nonGrowing_primary guard
  cases rule with
  | expression => exact .map _ ((advancing_primary guard).sequence_left (nonGrowing_links guard))
  | primary => exact advancing_primary guard
  | parenthesized => exact advancing_parenthesized guard hp
  | negation => exact advancing_negation guard hp

/-! ## Progress -/

/-- A parser that can be repeated, and that can be tried before another. -/
structure Progressing (p : Parser σ α) : Prop where
  /-- A run that succeeds has read a character, or more of them, from the front of its text. -/
  reads : ∀ s a t, p s = .ok a t → ∃ read, read ≠ [] ∧ s.rest = read ++ t.rest
  /-- A run that backtracks leaves the text where it was, and the state as it was. -/
  gives_back : ∀ s t, p s = .backtrack t → t = s

theorem Progressing.of_advancing {p : Parser σ α} (hadvancing : Advancing p)
    (hsuffix : LeavesSuffix p) (hsteady : Steady p) : Progressing p where
  reads := by
    intro s a t h
    obtain ⟨read, hread⟩ := hsuffix.of_ok h
    refine ⟨read, ?_, hread.symm⟩
    rintro rfl
    rw [List.nil_append] at hread
    exact Nat.lt_irrefl _ (hread ▸ hadvancing h)
  gives_back := fun _ _ h => hsteady.backtrack_eq h

variable {guard : Guard σ} (hg : guard.Balanced)

include hg

theorem progressing_rule (rule : Rule) : Progressing (rule.parser guard) :=
  .of_advancing (advancing_rule guard rule) (leavesSuffix_rule guard rule) (steady_rule hg rule)

theorem progressing_connective : Progressing (connective : Parser σ Connective) :=
  .of_advancing advancing_connective (leavesSuffix_congruence guard).connective
    (steady_congruence hg).connective

theorem progressing_link : Progressing (sequence connective (primary guard)) :=
  .of_advancing (advancing_link guard)
    ((leavesSuffix_congruence guard).connective.sequence (leavesSuffix_rule guard .primary))
    ((steady_congruence hg).connective.sequence (steady_primary hg))

end Grammar

end Propositional
