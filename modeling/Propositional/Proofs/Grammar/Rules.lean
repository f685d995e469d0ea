import Propositional.Formula.Grammar.Recursion
import Propositional.Proofs.Parsing.Outcomes

/-!
# How the parsers of the grammar run

The first character of the text settles what the parser of primaries does:
`primary_open` and `primary_minus` for a text that begins with an opening
parenthesis or a negation sign, `primary_zero`, `primary_one` and
`primary_letter` for one that begins with a constant or a variable, and
`primary_none` for any other. `links_sign` and `links_none` say the same of the
rest of a chain, whose parser is `links`, and `expression_eq` puts the two
together. All of them hold under every guard.
-/

namespace Propositional.Grammar

open Parsing

variable {σ : Type}

/-- Reads an expression and the parenthesis that closes it. -/
def closed (guard : Guard σ) : Parser σ (Formula × List Char) :=
  sequence (expression guard) (literal [')'])

/-- Reads what stands behind the first operand of a chain. -/
def links (guard : Guard σ) : Parser σ (List (Connective × Formula)) :=
  many (sequence connective (primary guard))

/-! ## Primaries -/

/-- The characters that a primary can begin with. -/
def Begins (c : Char) : Prop :=
  c = '(' ∨ c = '-' ∨ c = '0' ∨ c = '1' ∨ c.isAlpha

theorem primary_open (guard : Guard σ) (text : List Char) (state : σ) :
    primary guard ⟨'(' :: text, state⟩ =
      match guard.enter text state with
      | .error refused => .cut ⟨'(' :: text, refused⟩
      | .ok inner =>
        match closed guard ⟨text, inner⟩ with
        | .ok parts left => .ok parts.1 ⟨left.rest, guard.leave left.state⟩
        | .backtrack left => .backtrack ⟨'(' :: text, guard.leave left.state⟩
        | .cut left => .cut ⟨'(' :: text, guard.leave left.state⟩ := by
  rw [primary_eq, primaryOver, orElse, parenthesized, map, Parsing.sequence,
    show literal ['('] ⟨'(' :: text, state⟩ = .ok ['('] ⟨text, state⟩ from literal_append _ _ _]
  simp only [Guard.nested]
  cases guard.enter text state with
  | error refused => rfl
  | ok inner =>
    simp only [closed, expression]
    cases sequence (chain (primary guard)) (literal [')']) ⟨text, inner⟩ <;> rfl

theorem primary_minus (guard : Guard σ) (text : List Char) (state : σ) :
    primary guard ⟨'-' :: text, state⟩ =
      match guard.enter text state with
      | .error refused => .cut ⟨'-' :: text, refused⟩
      | .ok inner =>
        match primary guard ⟨text, inner⟩ with
        | .ok p left => .ok (.neg p) ⟨left.rest, guard.leave left.state⟩
        | .backtrack left => .backtrack ⟨'-' :: text, guard.leave left.state⟩
        | .cut left => .cut ⟨'-' :: text, guard.leave left.state⟩ := by
  have hp : parenthesized guard (primary guard) ⟨'-' :: text, state⟩ =
      .backtrack ⟨'-' :: text, state⟩ := rfl
  rw [congrFun (primary_eq guard) ⟨'-' :: text, state⟩, primaryOver, orElse_backtrack hp, orElse,
    negation, map, Parsing.sequence, Stream.rewind,
    show literal ['-'] ⟨'-' :: text, state⟩ = .ok ['-'] ⟨text, state⟩ from literal_append _ _ _]
  simp only [Guard.nested]
  cases guard.enter text state with
  | error refused => rfl
  | ok inner =>
    simp only
    cases primary guard ⟨text, inner⟩ <;> rfl

/-- Without an opening parenthesis or a negation sign only constants and
variables are tried. -/
theorem primary_leaf (guard : Guard σ) {text : List Char} (state : σ)
    (h : ∀ rest, text ≠ '(' :: rest ∧ text ≠ '-' :: rest) :
    primary guard ⟨text, state⟩ = orElse constant letter ⟨text, state⟩ := by
  have hp : parenthesized guard (primary guard) ⟨text, state⟩ = .backtrack ⟨text, state⟩ := by
    rw [parenthesized, map, sequence_backtrack (literal_backtrack fun rest => (h rest).1)]
    rfl
  have hm : negation guard (primary guard) ⟨text, state⟩ = .backtrack ⟨text, state⟩ := by
    rw [negation, map, sequence_backtrack (literal_backtrack fun rest => (h rest).2)]
    rfl
  rw [primary_eq, primaryOver, orElse_backtrack hp, Stream.rewind_rest, orElse_backtrack hm,
    Stream.rewind_rest]

theorem primary_zero (guard : Guard σ) (text : List Char) (state : σ) :
    primary guard ⟨'0' :: text, state⟩ = .ok (.const false) ⟨text, state⟩ := by
  rw [primary_leaf guard state (by simp)]
  rfl

theorem primary_one (guard : Guard σ) (text : List Char) (state : σ) :
    primary guard ⟨'1' :: text, state⟩ = .ok (.const true) ⟨text, state⟩ := by
  rw [primary_leaf guard state (by simp)]
  rfl

theorem primary_letter (guard : Guard σ) {c : Char} (hc : c.isAlpha) (text : List Char)
    (state : σ) : primary guard ⟨c :: text, state⟩ = .ok (.var c) ⟨text, state⟩ := by
  have hne : ∀ d : Char, d.isAlpha = false → c ≠ d := fun d hd h => by simp [← h, hc] at hd
  have hk : constant ⟨c :: text, state⟩ = .backtrack ⟨c :: text, state⟩ := by
    simp [constant, orElse, map, literal, dropToken, (hne '0' rfl).symm, (hne '1' rfl).symm,
      Outcome.map, Stream.rewind]
  rw [primary_leaf guard state (by simp [hne '(' rfl, hne '-' rfl]), orElse_backtrack hk,
    Stream.rewind_rest, letter, map, satisfy]
  simp [hc, Outcome.map, Stream.rewind]

theorem primary_none (guard : Guard σ) {text : List Char} (state : σ)
    (h : ∀ c rest, text = c :: rest → ¬ Begins c) :
    primary guard ⟨text, state⟩ = .backtrack ⟨text, state⟩ := by
  cases text with
  | nil => rw [primary_leaf guard state (by simp)]; rfl
  | cons c rest =>
    have hc := h c rest rfl
    simp only [Begins, not_or] at hc
    obtain ⟨h₁, h₂, h₃, h₄, h₅⟩ := hc
    rw [primary_leaf guard state (by simp [h₁, h₂])]
    simp [constant, letter, orElse, map, literal, satisfy, dropToken, Ne.symm h₃, Ne.symm h₄, h₅,
      Outcome.map, Stream.rewind]

/-! ## Chains -/

/-- No connective is at the start of `text`. -/
def NoSign (text : List Char) : Prop :=
  ∀ (op : Connective) (rest : List Char), text ≠ op.symbol.toList ++ rest

theorem noSign_nil : NoSign [] := by
  rintro (_ | _ | _) rest h <;> cases h

theorem noSign_close (rest : List Char) : NoSign (')' :: rest) := by
  rintro (_ | _ | _) rest h <;> cases h

theorem length_symbol_pos (op : Connective) : 0 < op.symbol.toList.length := by
  cases op <;> decide

theorem connective_sign (op : Connective) (text : List Char) (state : σ) :
    connective ⟨op.symbol.toList ++ text, state⟩ = .ok op ⟨text, state⟩ := by
  cases op <;> rfl

theorem connective_none {text : List Char} (h : NoSign text) (state : σ) :
    connective ⟨text, state⟩ = .backtrack ⟨text, state⟩ := by
  have h₁ := literal_backtrack (s := ⟨text, state⟩) (h .conjunction)
  have h₂ := literal_backtrack (s := ⟨text, state⟩) (h .disjunction)
  have h₃ := literal_backtrack (s := ⟨text, state⟩) (h .implication)
  simp only [show Connective.conjunction.symbol.toList = ['*'] from rfl,
    show Connective.disjunction.symbol.toList = ['+'] from rfl,
    show Connective.implication.symbol.toList = ['=', '>'] from rfl] at h₁ h₂ h₃
  simp only [connective, orElse, map, h₁, h₂, h₃, Outcome.map, Stream.rewind]

theorem noSign_or (text : List Char) :
    NoSign text ∨ ∃ (op : Connective) (rest : List Char), text = op.symbol.toList ++ rest :=
  Classical.or_iff_not_imp_right.2 fun h op rest ht => h ⟨op, rest, ht⟩

theorem connective_eq_ok_iff {s t : Stream σ} {op : Connective} :
    connective s = .ok op t ↔ s = ⟨op.symbol.toList ++ t.rest, t.state⟩ := by
  constructor
  · intro h
    obtain ⟨text, state⟩ := s
    obtain hn | ⟨sign, rest, rfl⟩ := noSign_or text
    · rw [connective_none hn] at h
      cases h
    · rw [connective_sign, Outcome.ok.injEq] at h
      obtain ⟨rfl, rfl⟩ := h
      rfl
  · rintro rfl
    exact connective_sign op t.rest t.state

theorem links_none (guard : Guard σ) {text : List Char} (h : NoSign text) (state : σ) :
    links guard ⟨text, state⟩ = .ok [] ⟨text, state⟩ := by
  rw [links, many_backtrack (sequence_backtrack (connective_none h state))]
  rfl

theorem nonGrowing_primary (guard : Guard σ) : NonGrowing (primary guard) :=
  nonGrowing_recursive fun _ => nonGrowing_primaryOver guard

theorem nonGrowing_links (guard : Guard σ) : NonGrowing (links guard) :=
  .many (.sequence nonGrowing_connective (nonGrowing_primary guard))

theorem links_sign (guard : Guard σ) (op : Connective) (text : List Char) (state : σ) :
    links guard ⟨op.symbol.toList ++ text, state⟩ =
      match primary guard ⟨text, state⟩ with
      | .ok q left => (links guard left).map ((op, q) :: ·)
      | .backtrack left => .ok [] ⟨op.symbol.toList ++ text, left.state⟩
      | .cut left => .cut ⟨op.symbol.toList ++ text, left.state⟩ := by
  have hop := connective_sign op text state
  have hlen := length_symbol_pos op
  have hn := nonGrowing_primary guard ⟨text, state⟩
  cases hp : primary guard ⟨text, state⟩ with
  | backtrack left => rw [links, many_backtrack (sequence_ok_backtrack hop hp)]; rfl
  | cut left => rw [links, many_cut (sequence_ok_cut hop hp)]; rfl
  | ok q left =>
    rw [hp] at hn
    refine many_ok (sequence_ok hop hp) ?_
    simp only [Outcome.left] at hn
    simp only [List.length_append]
    omega

theorem expression_eq (guard : Guard σ) :
    expression guard =
      map (fun parts => joinLeft parts.1 parts.2) (sequence (primary guard) (links guard)) := rfl

variable {guard : Guard σ} {s t u : Stream σ} {p : Formula} {ls : List (Connective × Formula)}

theorem expression_ok (hp : primary guard s = .ok p t) (hl : links guard t = .ok ls u) :
    expression guard s = .ok (joinLeft p ls) u := by
  rw [expression_eq, map, sequence_ok hp hl]
  rfl

theorem expression_cut (hp : primary guard s = .cut t) :
    expression guard s = .cut (t.rewind s.rest) := by
  rw [expression_eq, map, sequence_cut hp]
  rfl

theorem expression_links_cut (hp : primary guard s = .ok p t) (hl : links guard t = .cut u) :
    expression guard s = .cut (u.rewind s.rest) := by
  rw [expression_eq, map, sequence_ok_cut hp hl]
  rfl

end Propositional.Grammar
