import Propositional.Formula.Grammar

/-!
# Relations that the grammar keeps

The parsers of the grammar are made of single characters and fixed texts by the combinators,
by recursion and by a guard. So a relation between parsers that all of these keep (a
`Congruence`) relates each `Rule` of the grammar under the one guard to the same rule under
the other. A property of one parser is a relation that does not look at the second one.
-/

namespace Propositional.Grammar

open Parsing

variable {σ τ : Type}

/-- The parsers that go into operands. -/
inductive Rule where
  | expression
  | primary
  | parenthesized
  | negation

/-- The parser of a rule. -/
def Rule.parser (guard : Guard σ) : Rule → Parser σ Formula
  | expression => Grammar.expression guard
  | primary => Grammar.primary guard
  | parenthesized => Grammar.parenthesized guard (Grammar.primary guard)
  | negation => Grammar.negation guard (Grammar.primary guard)

/-- The relation `P` is kept by all that the grammar is made of, with `guard` on the one
side and `guard'` on the other. -/
structure Congruence (P : (α : Type) → Parser σ α → Parser τ α → Prop) (guard : Guard σ)
    (guard' : Guard τ) : Prop where
  literal : ∀ token, P _ (Parsing.literal token) (Parsing.literal token)
  satisfy : ∀ accept, P _ (Parsing.satisfy accept) (Parsing.satisfy accept)
  map : ∀ {α β : Type} (f : α → β) {p q}, P α p q → P β (Parsing.map f p) (Parsing.map f q)
  orElse : ∀ {α : Type} {p q p' q'}, P α p q → P α p' q' →
    P α (Parsing.orElse p p') (Parsing.orElse q q')
  sequence : ∀ {α β : Type} {p q p' q'}, P α p q → P β p' q' →
    P _ (Parsing.sequence p p') (Parsing.sequence q q')
  many : ∀ {α : Type} {p q}, P α p q → P _ (Parsing.many p) (Parsing.many q)
  nested : ∀ {α : Type} {p q}, P α p q → P α (guard.nested p) (guard'.nested q)
  recursive : ∀ {α : Type} {body body'}, (∀ p q, P α p q → P α (body p) (body' q)) →
    P α (Parsing.recursive body) (Parsing.recursive body')

namespace Congruence

variable {P : (α : Type) → Parser σ α → Parser τ α → Prop} {guard : Guard σ} {guard' : Guard τ}
variable (c : Congruence P guard guard')

include c

theorem constant : P _ Grammar.constant Grammar.constant :=
  c.orElse (c.map _ (c.literal _)) (c.map _ (c.literal _))

theorem letter : P _ Grammar.letter Grammar.letter :=
  c.map _ (c.satisfy _)

theorem connective : P _ Grammar.connective Grammar.connective :=
  c.orElse (c.map _ (c.literal _)) (c.orElse (c.map _ (c.literal _)) (c.map _ (c.literal _)))

section

variable {p : Parser σ Formula} {q : Parser τ Formula} (h : P _ p q)

include h

theorem chain : P _ (Grammar.chain p) (Grammar.chain q) :=
  c.map _ (c.sequence h (c.many (c.sequence c.connective h)))

theorem parenthesized : P _ (Grammar.parenthesized guard p) (Grammar.parenthesized guard' q) :=
  c.map _ (c.sequence (c.literal _) (c.nested (c.sequence (c.chain h) (c.literal _))))

theorem negation : P _ (Grammar.negation guard p) (Grammar.negation guard' q) :=
  c.map _ (c.sequence (c.literal _) (c.nested h))

theorem primaryOver : P _ (Grammar.primaryOver guard p) (Grammar.primaryOver guard' q) :=
  c.orElse (c.parenthesized h) (c.orElse (c.negation h) (c.orElse c.constant c.letter))

end

theorem primary : P _ (Grammar.primary guard) (Grammar.primary guard') :=
  c.recursive fun _ _ => c.primaryOver

/-- Every rule under the one guard is related to the same rule under the other. -/
theorem rule (rule : Rule) : P _ (rule.parser guard) (rule.parser guard') := by
  cases rule with
  | expression => exact c.chain c.primary
  | primary => exact c.primary
  | parenthesized => exact c.parenthesized c.primary
  | negation => exact c.negation c.primary

end Congruence

end Propositional.Grammar
