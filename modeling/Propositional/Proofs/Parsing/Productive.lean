import Propositional.Parsing.Pattern
import Propositional.Proofs.Parsing.Imitation
import Propositional.Proofs.Parsing.Progress

/-!
# Productive patterns

The parser of a pattern leaves the state alone and gives back what it read where
it backtracks (`parser_steady`), reads from the front (`parser_leavesSuffix`),
and runs alike whatever state is kept beside the text (`parser_imitates`). A
pattern is `Productive` if no body of a repetition in it can succeed without
having read a character. What the bodies do on a plain text they do on every
stream (`Advancing.parser`).
-/

namespace Propositional.Parsing

variable {σ τ : Type}

namespace Pattern

theorem parser_steady : ∀ p : Pattern, Steady (p.parser : Parser σ Capture)
  | literal token => (steady_literal token).map _
  | satisfy accept => (steady_satisfy accept).map _
  | orElse first second => first.parser_steady.orElse second.parser_steady
  | sequence first second => (first.parser_steady.sequence second.parser_steady).map _
  | many body => body.parser_steady.many.map _
  | commit body => body.parser_steady.commit

theorem parser_leavesSuffix : ∀ p : Pattern, LeavesSuffix (p.parser : Parser σ Capture)
  | literal token => (leavesSuffix_literal token).map _
  | satisfy accept => (leavesSuffix_satisfy accept).map _
  | orElse first second => first.parser_leavesSuffix.orElse second.parser_leavesSuffix
  | sequence first second => (first.parser_leavesSuffix.sequence second.parser_leavesSuffix).map _
  | many body => body.parser_leavesSuffix.many.map _
  | commit body => body.parser_leavesSuffix.commit

theorem parser_imitates :
    ∀ p : Pattern, Imitates (p.parser : Parser σ Capture) (p.parser : Parser τ Capture)
  | literal token => (imitates_literal token).map _
  | satisfy accept => (imitates_satisfy accept).map _
  | orElse first second => first.parser_imitates.orElse second.parser_imitates
  | sequence first second => (first.parser_imitates.sequence second.parser_imitates).map _
  | many body => body.parser_imitates.many.map _
  | commit body => body.parser_imitates.commit

/-- No body of a repetition succeeds without having read a character. -/
def Productive : Pattern → Prop
  | literal _ | satisfy _ => True
  | orElse first second | sequence first second => first.Productive ∧ second.Productive
  | many body => Advancing (body.parser : Parser Unit Capture) ∧ body.Productive
  | commit body => body.Productive

end Pattern

/-- Whether a pattern advances does not depend on the state beside the text. -/
theorem Advancing.parser {p : Pattern} (h : Advancing (p.parser : Parser Unit Capture)) :
    Advancing (p.parser : Parser σ Capture) := by
  intro s capture t hs
  have hp : Imitates (p.parser : Parser σ _) (p.parser : Parser Unit _) := p.parser_imitates
  obtain ⟨u, hu, htu⟩ := hp.ok (t := ⟨s.rest, ()⟩) rfl hs
  rw [htu]
  exact h hu

/-- A sequence that begins with a literal advances. -/
theorem Pattern.advancing_literal_sequence {token : List Char} (h : token ≠ []) (q : Pattern) :
    Advancing ((sequence (literal token) q).parser : Parser σ Capture) :=
  .map _ (((advancing_literal h).map _).sequence_left q.parser_leavesSuffix.nonGrowing)

end Propositional.Parsing
