import Propositional.Proofs.Grammar.Parsing
import Propositional.Proofs.Grammar.TooDeep

/-!
# What an error leaves

Where an expression stands at the start of a text, the parser leaves no more
than what stands behind it (`Expression.leaves_le`). So unless an operand is
refused, an error leaves what follows the longest beginning of the text that is
accepted (`remainder_of_error`). An operand is refused if and only if the text
is too deep somewhere (`Formula.refusal_eq_none_iff`).
-/

namespace Propositional

open Parsing Grammar

/-- Where an expression stands the parser does not ask for another try, and it
leaves no more than what stands behind the expression. -/
theorem Grammar.Expression.leaves_le (limit : Nat) {text : List Char} {p : Formula} {n : Nat}
    (h : Expression text p n) (rest : List Char) :
    (∃ left, expression (Guard.atMost limit) ⟨text ++ rest, ⟨0, none⟩⟩ = .cut left) ∨
      ∃ q left, expression (Guard.atMost limit) ⟨text ++ rest, ⟨0, none⟩⟩ = .ok q left ∧
        left.rest.length ≤ rest.length := by
  by_cases hn : 0 + n ≤ limit
  · cases h with
    | @chain first behind p ls m n hp hl =>
      have hp := hp.read 0 none (behind ++ rest) (show 0 + m ≤ limit by omega)
      have hl := hl.read 0 none rest (show 0 + n ≤ limit by omega)
      have hle := nonGrowing_links (Guard.atMost limit) ⟨rest, ⟨0, none⟩⟩
      rw [List.append_assoc]
      cases hr : links (Guard.atMost limit) ⟨rest, ⟨0, none⟩⟩ with
      | backtrack left => exact absurd hr many_ne_backtrack
      | cut left =>
        rw [hr] at hl
        exact .inl ⟨_, expression_links_cut hp hl⟩
      | ok ls' left =>
        rw [hr] at hl hle
        exact .inr ⟨_, left, expression_ok hp hl, hle⟩
  · obtain ⟨left, hcut⟩ := h.refused 0 none rest (Nat.zero_le limit) (by omega)
    exact .inl ⟨left, hcut⟩

namespace Grammar

variable {limit : Nat} {text first : List Char} {left : Stream Nesting} {p q : Formula} {n : Nat}

/-- Where the parser asks for another try, no expression stands. -/
theorem not_expression_of_backtrack
    (h : expression (Guard.atMost limit) ⟨text, ⟨0, none⟩⟩ = .backtrack left)
    (hfirst : first <+: text) : ¬ Expression first q n := by
  intro hq
  obtain ⟨rest, rfl⟩ := hfirst
  obtain ⟨left', hcut⟩ | ⟨q', left', hok, -⟩ := hq.leaves_le limit rest
  · rw [h] at hcut; cases hcut
  · rw [h] at hok; cases hok

/-- No expression at the start of a text is longer than the one that is read. -/
theorem length_add_le_of_ok
    (h : expression (Guard.atMost limit) ⟨text, ⟨0, none⟩⟩ = .ok p left)
    (hfirst : first <+: text) (hq : Expression first q n) :
    first.length + left.rest.length ≤ text.length := by
  obtain ⟨rest, rfl⟩ := hfirst
  obtain ⟨left', hcut⟩ | ⟨q', left', hok, hle⟩ := hq.leaves_le limit rest
  · rw [h] at hcut; cases hcut
  · rw [h] at hok
    cases hok
    rw [List.length_append]
    omega

end Grammar

namespace Formula

/-- The text is read as a whole. -/
def Accepted (text : List Char) : Prop :=
  ∃ p, parse (String.ofList text) = .ok p

/-- Where the parser refused an operand of `source` if it did: it notes how many
bytes are left to be read as soon as one is attempted with 128 openers open. -/
def refusal (source : String) : Option Nat :=
  (expression (Guard.atMost maxNesting)
    ⟨Text.strip source.toList, (Guard.atMost maxNesting).start⟩).left.state.refusedAt

theorem strip_eq_of_prefix {start text : List Char} (h : start <+: Text.strip text) :
    Text.strip start = start := by
  refine List.filter_eq_self.2 fun c hc => ?_
  exact (List.mem_filter.1 (h.subset hc)).2

/-- A beginning of a text without blanks is accepted if it is an expression
that is not nested too deep. -/
theorem accepted_iff {start text : List Char} (h : start <+: Text.strip text) :
    Accepted start ↔ ∃ p n, n ≤ maxNesting ∧ Expression start p n := by
  simp only [Accepted, parse_eq_ok_iff, String.toList_ofList, strip_eq_of_prefix h]

/-- A run in which no operand is refused is not cut. -/
theorem ne_cut_of_refusal {source : String} (h : refusal source = none) {left : Stream Nesting} :
    expression (Guard.atMost maxNesting) ⟨Text.strip source.toList, ⟨0, none⟩⟩ ≠ .cut left := by
  intro hcut
  obtain ⟨first, ⟨rest, htext⟩, hover⟩ := expression_overrun _ (Nat.zero_add maxNesting) hcut
  obtain ⟨left', hcut'⟩ := hover.refused 0 none rest (Nat.zero_add maxNesting)
  rw [refusal, ← htext, show (Guard.atMost maxNesting).start = ⟨0, none⟩ from rfl, hcut'] at h
  cases h

theorem refusal_eq_none_iff {source : String} : refusal source = none ↔
    ∀ first, first <+: Text.strip source.toList → ¬ TooDeep maxNesting first := by
  constructor
  · intro h first hfirst hdeep
    obtain ⟨start, hstart, hover⟩ := hdeep.overrun
    obtain ⟨rest, htext⟩ := hstart.trans hfirst
    obtain ⟨left, hcut⟩ := hover.refused 0 none rest (Nat.zero_add maxNesting)
    rw [htext] at hcut
    exact ne_cut_of_refusal h hcut
  · intro h
    have hsteady := steady_expression (Guard.balanced_atMost maxNesting)
    rw [refusal, show (Guard.atMost maxNesting).start = ⟨0, none⟩ from rfl]
    cases ho : expression (Guard.atMost maxNesting) ⟨Text.strip source.toList, ⟨0, none⟩⟩ with
    | ok p left => exact congrArg Nesting.refusedAt (hsteady.state_eq ho)
    | backtrack left => rw [hsteady.backtrack_eq ho]; rfl
    | cut left =>
      obtain ⟨first, hfirst, hover⟩ := expression_overrun _ (Nat.zero_add maxNesting) ho
      exact absurd hover.tooDeep (h first hfirst)

end Formula

/-- Of the beginnings of `text` that have the property `P`, `first` is the
longest, and `rest` is what follows it. -/
structure LongestStart (P : List Char → Prop) (text first rest : List Char) : Prop where
  text_eq : text = first ++ rest
  holds : P first
  length_le : ∀ other, other <+: text → P other → other.length ≤ first.length

/-- Unless an operand is refused, an error leaves what follows the longest
beginning of the text, its blanks removed, that is accepted by itself, and all of
the text if no beginning is. -/
theorem remainder_of_error (source : String) (e : ParseError)
    (h : Formula.parse source = .error e) (hfree : Formula.refusal source = none) :
    (∃ first, LongestStart Formula.Accepted (Text.strip source.toList) first e.remainder.toList) ∨
      e.remainder.toList = Text.strip source.toList ∧
        ∀ first, first <+: Text.strip source.toList → ¬ Formula.Accepted first := by
  rw [Formula.parse] at h
  cases ho : expression (Guard.atMost Formula.maxNesting)
    ⟨Text.strip source.toList, ⟨0, none⟩⟩ with
  | cut left => exact absurd ho (Formula.ne_cut_of_refusal hfree)
  | backtrack left =>
    rw [Formula.read_of_backtrack ho] at h
    cases h
    refine .inr ⟨String.toList_ofList, fun first hfirst hacc => ?_⟩
    obtain ⟨p, n, -, hp⟩ := (Formula.accepted_iff hfirst).1 hacc
    exact not_expression_of_backtrack ho hfirst hp
  | ok p left =>
    rw [Formula.read_of_ok ho] at h
    split at h <;> cases h
    obtain ⟨first, n, htext, hp, hn⟩ :=
      (sound_expression Formula.maxNesting).read (Nat.zero_le _) ho
    have hfirst : first <+: Text.strip source.toList := ⟨left.rest, htext.symm⟩
    have hacc : Formula.Accepted first :=
      (Formula.accepted_iff hfirst).2 ⟨p, n, by simpa using hn, hp⟩
    refine .inl ⟨first, by rwa [String.toList_ofList], hacc, fun other hother hacc' => ?_⟩
    obtain ⟨q, m, -, hq⟩ := (Formula.accepted_iff hother).1 hacc'
    have hle := length_add_le_of_ok ho hother hq
    have hlen : (Text.strip source.toList).length = first.length + left.rest.length := by
      rw [← List.length_append, ← htext]
    omega

/-- Of `a + (b` the `a` is accepted, and no more of it; the sign and the
parenthesis are given back. -/
theorem remainder_of_error_unclosed :
    Formula.parse "a + (b" = .error ⟨"+(b"⟩ ∧ Formula.refusal "a + (b" = none ∧
      LongestStart Formula.Accepted ['a', '+', '(', 'b'] ['a'] ['+', '(', 'b'] := by
  have hrun : expression (Guard.atMost Formula.maxNesting)
      ⟨Text.strip "a + (b".toList, ⟨0, none⟩⟩ = .ok (.var 'a') ⟨['+', '(', 'b'], ⟨0, none⟩⟩ := by
    decide +kernel
  have herror : Formula.parse "a + (b" = .error ⟨"+(b"⟩ := by
    rw [Formula.parse, Formula.read_of_ok hrun]
    rfl
  have hfree : Formula.refusal "a + (b" = none :=
    congrArg (fun outcome => outcome.left.state.refusedAt) hrun
  obtain ⟨first, hfirst⟩ | ⟨hall, -⟩ := remainder_of_error _ _ herror hfree
  · have htext : ['a'] ++ ['+', '(', 'b'] = first ++ ['+', '(', 'b'] := hfirst.text_eq
    rw [← List.append_cancel_right htext] at hfirst
    exact ⟨herror, hfree, hfirst⟩
  · exact absurd hall (by decide +kernel)

end Propositional
