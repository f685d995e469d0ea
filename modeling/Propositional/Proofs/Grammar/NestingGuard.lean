import Propositional.Proofs.Grammar.Congruence
import Propositional.Proofs.Grammar.Parsing
import Propositional.Proofs.Grammar.TooDeep
import Propositional.Proofs.Parsing.Imitation

/-!
# What the guard does

A parser that is guarded runs as one that is not, unless it is cut
(`Grammar.imitates_expression`). So `Formula.read` under a limit either reads as
it does without one (`Formula.read_eq_unlimited`), or the text begins with an
overrun and is refused right behind it (`Formula.read_eq_error_of_overrun`). In
terms of the text alone, that is behind its shortest beginning that is too deep
(`parse_refused_or_unlimited`).
-/

namespace Propositional

open Parsing Grammar

variable {σ α : Type}

theorem Guard.imitates_nested (guard : Guard σ) {p : Parser σ α} {q : Parser Unit α}
    (h : Imitates p q) : Imitates (guard.nested p) (unlimited.nested q) := by
  intro s t hst
  simp only [nested]
  cases guard.enter s.rest s.state with
  | error refused => exact .cut
  | ok inner => exact (h ⟨s.rest, inner⟩ ⟨t.rest, ()⟩ hst).mapState _ _

theorem Guard.imitates_congruence (guard : Guard σ) :
    Congruence (fun _ => Imitates) guard unlimited where
  literal := imitates_literal
  satisfy := imitates_satisfy
  map f := .map f
  orElse := .orElse
  sequence := .sequence
  many := .many
  nested := guard.imitates_nested
  recursive := .recursive

/-- Unless the guard refuses an operand, it makes no difference. -/
theorem Grammar.imitates_expression (guard : Guard σ) :
    Imitates (expression guard) (expression Guard.unlimited) :=
  guard.imitates_congruence.rule .expression

namespace Formula

variable {limit : Nat}

/-- Behind an overrun nothing is read. -/
theorem read_eq_error_of_overrun {first : List Char} (h : ExpressionOverrun limit first)
    (rest : List Char) :
    read (Guard.atMost limit) (first ++ rest) = .error ⟨String.ofList rest⟩ := by
  obtain ⟨left, hcut⟩ := h.refused 0 none rest (Nat.zero_add limit)
  rw [read_of_cut hcut, unread, Option.bind_some, Text.suffixOfBytes_append, Option.getD_some]

/-- Where the parser is not cut, the limit makes no difference. -/
theorem read_eq_unlimited_of_ne_cut {text : List Char}
    (h : ∀ left, expression (Guard.atMost limit) ⟨text, ⟨0, none⟩⟩ ≠ .cut left) :
    read (Guard.atMost limit) text = read Guard.unlimited text := by
  have hrun := imitates_expression (Guard.atMost limit)
  cases ho : expression (Guard.atMost limit) ⟨text, ⟨0, none⟩⟩ with
  | cut left => exact absurd ho (h left)
  | ok p left =>
    obtain ⟨left', ho', hleft⟩ := hrun.ok (t := ⟨text, ()⟩) rfl ho
    rw [read_of_ok ho, read, show Guard.unlimited.start = () from rfl, ho', hleft]
  | backtrack left =>
    obtain ⟨left', ho', -⟩ := hrun.backtrack (t := ⟨text, ()⟩) rfl ho
    rw [read_of_backtrack ho, read, show Guard.unlimited.start = () from rfl, ho']
    rfl

/-- Without an overrun the limit makes no difference. -/
theorem read_eq_unlimited {text : List Char}
    (h : ∀ first, first <+: text → ¬ ExpressionOverrun limit first) :
    read (Guard.atMost limit) text = read Guard.unlimited text := by
  refine read_eq_unlimited_of_ne_cut fun left ho => ?_
  obtain ⟨first, hfirst, hover⟩ := expression_overrun text (Nat.zero_add limit) ho
  exact h first hfirst hover

end Formula

/-- Of the beginnings of `text` that have the property `P`, `first` is the
shortest, and `rest` is what follows it. -/
structure ShortestStart (P : List Char → Prop) (text first rest : List Char) : Prop where
  text_eq : text = first ++ rest
  holds : P first
  length_le : ∀ other, other <+: text → P other → first.length ≤ other.length

theorem Grammar.ExpressionOverrun.shortestStart {limit : Nat} {first : List Char}
    (h : ExpressionOverrun limit first) (rest : List Char) :
    ShortestStart (TooDeep limit) (first ++ rest) first rest where
  text_eq := rfl
  holds := h.tooDeep
  length_le other hother hdeep := by
    obtain ⟨first', hfirst', hover⟩ := hdeep.overrun
    rw [h.unique hover (List.prefix_append first rest) (hfirst'.trans hother)]
    exact hfirst'.length_le

/-- A text that is too deep somewhere is an error, the remainder of which is
what follows the shortest beginning that is too deep. What stands behind the
text makes no difference but to the remainder. A text that is nowhere too deep
is read as if there were no limit. -/
theorem parse_refused_or_unlimited (source : String) :
    (∀ before, before <+: Text.strip source.toList → TooDeep 128 before →
      ∃ first rest, ShortestStart (TooDeep 128) (Text.strip source.toList) first rest ∧
        Formula.parse source = .error ⟨String.ofList rest⟩ ∧
        ∀ behind : String, Formula.parse (source ++ behind) =
          .error ⟨String.ofList (rest ++ Text.strip behind.toList)⟩) ∧
    ((∀ before, before <+: Text.strip source.toList → ¬ TooDeep 128 before) →
      Formula.parse source = Formula.read Guard.unlimited (Text.strip source.toList)) := by
  refine ⟨fun before hbefore hdeep => ?_, fun h => ?_⟩
  · obtain ⟨first, hfirst, hover⟩ := hdeep.overrun
    obtain ⟨rest, htext⟩ := hfirst.trans hbefore
    refine ⟨first, rest, htext ▸ hover.shortestStart rest, ?_, fun behind => ?_⟩
    · rw [Formula.parse, ← htext]
      exact Formula.read_eq_error_of_overrun hover rest
    · rw [Formula.parse, String.toList_append, Text.strip_append, ← htext, List.append_assoc]
      exact Formula.read_eq_error_of_overrun hover _
  · exact Formula.read_eq_unlimited fun first hfirst hover => h first hfirst hover.tooDeep

theorem Grammar.primaryOverrun_replicate (room : Nat) :
    PrimaryOverrun room (List.replicate (room + 1) '-') := by
  induction room with
  | zero => exact .opener (.inr rfl)
  | succ room ih => exact .negation ih

/-- 129 negation signs are too deep, and nothing is read behind them, where a blank makes no
difference; in a short text nothing is too deep. -/
theorem parse_refused_or_unlimited_negations :
    let source := String.ofList (List.replicate 129 '-' ++ [' ', 'a'])
    (TooDeep 128 (List.replicate 129 '-') ∧ Formula.parse source = .error ⟨"a"⟩ ∧
      Formula.parse (source ++ " *b") = .error ⟨"a*b"⟩) ∧
    (∀ before, before <+: Text.strip "a+".toList → ¬ TooDeep 128 before) ∧
      Formula.parse "a+" = Formula.read Guard.unlimited ['a', '+'] := by
  intro source
  have hdeep : TooDeep 128 (List.replicate 129 '-') :=
    (ExpressionOverrun.operand (primaryOverrun_replicate 128)).tooDeep
  have hstrip : Text.strip source.toList = List.replicate 129 '-' ++ ['a'] := by
    rw [String.toList_ofList]
    decide +kernel
  have hstart : List.replicate 129 '-' <+: Text.strip source.toList := by
    rw [hstrip]
    exact List.prefix_append _ ['a']
  have hshort : ∀ before, before <+: Text.strip "a+".toList → ¬ TooDeep 128 before := by
    intro before hbefore h
    have hlen : before.length ≤ 2 := hbefore.length_le
    have := h.lt_length
    omega
  obtain ⟨first, rest, hs, herror, hbehind⟩ :=
    (parse_refused_or_unlimited source).1 _ hstart hdeep
  have hle := hs.length_le _ hstart hdeep
  have hlt := hs.holds.lt_length
  rw [List.length_replicate] at hle
  obtain ⟨-, rfl⟩ := List.append_inj (hstrip.symm.trans hs.text_eq)
    (by rw [List.length_replicate]; omega)
  exact ⟨⟨hdeep, herror, hbehind " *b"⟩, hshort, (parse_refused_or_unlimited "a+").2 hshort⟩

end Propositional
