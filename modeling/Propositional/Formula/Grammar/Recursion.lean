import Propositional.Formula.Grammar
import Propositional.Parsing.Recursion

/-!
# The recursion of the grammar

A primary holds other primaries only behind a parenthesis or a negation sign,
so the recursion of the grammar is on less and less text. `primary_eq` says of
the parser of primaries what the grammar says of primaries.
-/

namespace Propositional

open Parsing

variable {σ α β : Type}

theorem Guard.nonGrowing_nested (guard : Guard σ) {p : Parser σ α} (hp : NonGrowing p) :
    NonGrowing (guard.nested p) := by
  intro s
  simp only [Guard.nested]
  split
  · rw [Outcome.rest_mapState]
    exact hp _
  · exact Nat.le_refl _

theorem Guard.causal_nested (guard : Guard σ) {body : Parser σ α → Parser σ β}
    (h : Causal body) : Causal (fun p => guard.nested (body p)) := by
  intro p q s hp hq hpq
  simp only [Guard.nested]
  split
  · exact congrArg (Outcome.mapState guard.leave) (h p q _ hp hq hpq)
  · rfl

namespace Grammar

theorem nonGrowing_constant : NonGrowing (constant : Parser σ _) :=
  .orElse (.map _ (nonGrowing_literal _)) (.map _ (nonGrowing_literal _))

theorem nonGrowing_connective : NonGrowing (connective : Parser σ _) :=
  .orElse (.map _ (nonGrowing_literal _))
    (.orElse (.map _ (nonGrowing_literal _)) (.map _ (nonGrowing_literal _)))

theorem nonGrowing_chain {p : Parser σ Formula} (hp : NonGrowing p) : NonGrowing (chain p) :=
  .map _ (.sequence hp (.many (.sequence nonGrowing_connective hp)))

theorem nonGrowing_parenthesized (guard : Guard σ) {p : Parser σ Formula} (hp : NonGrowing p) :
    NonGrowing (parenthesized guard p) :=
  .map _ (.sequence (nonGrowing_literal _)
    (guard.nonGrowing_nested (.sequence (nonGrowing_chain hp) (nonGrowing_literal _))))

theorem nonGrowing_negation (guard : Guard σ) {p : Parser σ Formula} (hp : NonGrowing p) :
    NonGrowing (negation guard p) :=
  .map _ (.sequence (nonGrowing_literal _) (guard.nonGrowing_nested hp))

theorem nonGrowing_primaryOver (guard : Guard σ) {p : Parser σ Formula} (hp : NonGrowing p) :
    NonGrowing (primaryOver guard p) :=
  .orElse (nonGrowing_parenthesized guard hp)
    (.orElse (nonGrowing_negation guard hp)
      (.orElse nonGrowing_constant (.map _ (nonGrowing_satisfy _))))

theorem causal_chain : Causal (chain : Parser σ Formula → Parser σ Formula) :=
  .map _ (.sequence causal_self
    (.many (.sequence (contractive_const _).causal causal_self fun _ _ => nonGrowing_connective))
    fun _ hp => hp)

theorem contractive_parenthesized (guard : Guard σ) : Contractive (parenthesized guard) :=
  have : Causal fun p : Parser σ Formula => sequence (chain p) (literal [')']) :=
    causal_chain.sequence (contractive_const _).causal fun _ hp => nonGrowing_chain hp
  .map _ (guard.causal_nested this).afterLiteral

theorem contractive_negation (guard : Guard σ) : Contractive (negation guard) :=
  .map _ (guard.causal_nested causal_self).afterLiteral

theorem contractive_primaryOver (guard : Guard σ) : Contractive (primaryOver guard) :=
  .orElse (contractive_parenthesized guard)
    (.orElse (contractive_negation guard) (contractive_const _))

/-- A primary is one over primaries. -/
theorem primary_eq (guard : Guard σ) : primary guard = primaryOver guard (primary guard) :=
  recursive_eq (fun _ hp => nonGrowing_primaryOver guard hp) (contractive_primaryOver guard)

end Grammar

end Propositional
