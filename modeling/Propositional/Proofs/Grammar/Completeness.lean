import Propositional.Proofs.Grammar.Derivation
import Propositional.Proofs.Grammar.Rules

/-!
# What is derived is read

A text with a derivation is read with the value of the derivation, whatever
stands behind it, if its nesting fits between the open operands and the limit
(`Primary.read`, `Links.read`, `Expression.read`). If it does not fit, the
parser cuts (`Primary.refused`, `Links.refused`, `Expression.refused`). So the
value and the nesting of a derivation are settled by its text
(`Expression.unique`), and a primary by any text that it is the start of
(`Primary.eq_of_append_eq`).
-/

namespace Propositional

open Parsing

theorem Guard.enter_atMost {limit depth : Nat} (h : depth < limit) (text : List Char)
    (refusedAt : Option Nat) :
    (atMost limit).enter text ⟨depth, refusedAt⟩ = .ok ⟨depth + 1, refusedAt⟩ := by
  simp only [atMost, Nat.ne_of_lt h, if_false]

theorem Guard.enter_atMost_self (limit : Nat) (text : List Char) (refusedAt : Option Nat) :
    (atMost limit).enter text ⟨limit, refusedAt⟩ =
      .error ⟨limit, some (Text.byteLength text)⟩ := by
  simp only [atMost, if_true]

namespace Grammar

variable {limit : Nat}

section

variable {inner left : Stream Nesting} {text rest : List Char} {depth : Nat}
  {refusedAt : Option Nat}

/-- An expression is read in parentheses as it is read inside them. -/
theorem primary_open_ok {p : Formula} (h : depth < limit)
    (hp : expression (Guard.atMost limit) ⟨text ++ ')' :: rest, ⟨depth + 1, refusedAt⟩⟩ =
      .ok p ⟨')' :: rest, ⟨depth + 1, refusedAt⟩⟩) :
    primary (Guard.atMost limit) ⟨'(' :: (text ++ ')' :: rest), ⟨depth, refusedAt⟩⟩ =
      .ok p ⟨rest, ⟨depth, refusedAt⟩⟩ := by
  rw [primary_open, Guard.enter_atMost h]
  simp only [closed, sequence_ok hp (literal_append [')'] rest _)]
  rfl

theorem primary_open_cut (h : depth < limit)
    (hp : expression (Guard.atMost limit) ⟨text, ⟨depth + 1, refusedAt⟩⟩ = .cut left) :
    ∃ outer, primary (Guard.atMost limit) ⟨'(' :: text, ⟨depth, refusedAt⟩⟩ = .cut outer := by
  rw [primary_open, Guard.enter_atMost h]
  simp only [closed, sequence_cut hp]
  exact ⟨_, rfl⟩

end

/-! ## Nesting that fits -/

mutual

theorem Primary.read : ∀ {text p n}, Primary text p n → ∀ (depth : Nat)
    (refusedAt : Option Nat) (rest : List Char), depth + n ≤ limit →
    primary (Guard.atMost limit) ⟨text ++ rest, ⟨depth, refusedAt⟩⟩ =
      .ok p ⟨rest, ⟨depth, refusedAt⟩⟩
  | _, _, _, .parentheses h, depth, refusedAt, rest, hn => by
    have hp := h.read (depth + 1) refusedAt (noSign_close rest) (by omega)
    simpa using primary_open_ok (by omega) hp
  | _, _, _, .negation h, depth, refusedAt, rest, hn => by
    have hp := h.read (depth + 1) refusedAt rest (by omega)
    rw [List.cons_append, primary_minus, Guard.enter_atMost (by omega)]
    simp only [hp]
    rfl
  | _, _, _, .zero, _, _, _, _ => primary_zero ..
  | _, _, _, .one, _, _, _, _ => primary_one ..
  | _, _, _, .letter hx, _, _, _, _ => primary_letter _ hx ..

/-- What stands behind the links may have further links at its start. -/
theorem Links.read : ∀ {text ls n}, Links text ls n → ∀ (depth : Nat) (refusedAt : Option Nat)
    (rest : List Char), depth + n ≤ limit →
    links (Guard.atMost limit) ⟨text ++ rest, ⟨depth, refusedAt⟩⟩ =
      (links (Guard.atMost limit) ⟨rest, ⟨depth, refusedAt⟩⟩).map (ls ++ ·)
  | _, _, _, .nil, depth, refusedAt, rest, _ => by
    simp only [List.nil_append]
    cases links (Guard.atMost limit) ⟨rest, ⟨depth, refusedAt⟩⟩ <;> rfl
  | _, _, _, .cons hp hl, depth, refusedAt, rest, hn => by
    rw [List.append_assoc, List.append_assoc, links_sign, hp.read depth refusedAt _ (by omega)]
    simp only [hl.read depth refusedAt rest (by omega), Outcome.map_map]
    rfl

theorem Expression.read : ∀ {text p n}, Expression text p n → ∀ (depth : Nat)
    (refusedAt : Option Nat) {rest : List Char}, NoSign rest → depth + n ≤ limit →
    expression (Guard.atMost limit) ⟨text ++ rest, ⟨depth, refusedAt⟩⟩ =
      .ok p ⟨rest, ⟨depth, refusedAt⟩⟩
  | _, _, _, .chain hp hl, depth, refusedAt, rest, hr, hn => by
    have hl := hl.read depth refusedAt rest (by omega)
    rw [links_none _ hr, Outcome.map, List.append_nil] at hl
    rw [List.append_assoc]
    exact expression_ok (hp.read depth refusedAt _ (by omega)) hl

end

/-! ## Nesting that does not fit -/

mutual

theorem Primary.refused : ∀ {text p n}, Primary text p n → ∀ (depth : Nat)
    (refusedAt : Option Nat) (rest : List Char), depth ≤ limit → limit < depth + n →
    ∃ left, primary (Guard.atMost limit) ⟨text ++ rest, ⟨depth, refusedAt⟩⟩ = .cut left
  | _, _, _, .parentheses h, depth, refusedAt, rest, hd, hn => by
    obtain rfl | hd := Nat.eq_or_lt_of_le hd
    · rw [List.cons_append, primary_open, Guard.enter_atMost_self]
      exact ⟨_, rfl⟩
    · obtain ⟨left, hp⟩ := h.refused (depth + 1) refusedAt (')' :: rest) (by omega) (by omega)
      simpa using primary_open_cut hd hp
  | _, _, _, .negation h, depth, refusedAt, rest, hd, hn => by
    obtain rfl | hd := Nat.eq_or_lt_of_le hd
    · rw [List.cons_append, primary_minus, Guard.enter_atMost_self]
      exact ⟨_, rfl⟩
    · obtain ⟨left, hp⟩ := h.refused (depth + 1) refusedAt rest (by omega) (by omega)
      rw [List.cons_append, primary_minus, Guard.enter_atMost hd]
      simp only [hp]
      exact ⟨_, rfl⟩
  | _, _, _, .zero, _, _, _, hd, hn => by omega
  | _, _, _, .one, _, _, _, hd, hn => by omega
  | _, _, _, .letter _, _, _, _, hd, hn => by omega

theorem Links.refused : ∀ {text ls n}, Links text ls n → ∀ (depth : Nat)
    (refusedAt : Option Nat) (rest : List Char), depth ≤ limit → limit < depth + n →
    ∃ left, links (Guard.atMost limit) ⟨text ++ rest, ⟨depth, refusedAt⟩⟩ = .cut left
  | _, _, _, .nil, _, _, _, hd, hn => by omega
  | _, _, _, .cons (m := m) hp hl, depth, refusedAt, rest, hd, hn => by
    rw [List.append_assoc, List.append_assoc, links_sign]
    by_cases hm : depth + m ≤ limit
    · obtain ⟨left, hl⟩ := hl.refused depth refusedAt rest hd (by omega)
      rw [hp.read depth refusedAt _ hm]
      simp only [hl]
      exact ⟨_, rfl⟩
    · obtain ⟨left, hp⟩ := hp.refused depth refusedAt _ hd (by omega)
      rw [hp]
      exact ⟨_, rfl⟩

theorem Expression.refused : ∀ {text p n}, Expression text p n → ∀ (depth : Nat)
    (refusedAt : Option Nat) (rest : List Char), depth ≤ limit → limit < depth + n →
    ∃ left, expression (Guard.atMost limit) ⟨text ++ rest, ⟨depth, refusedAt⟩⟩ = .cut left
  | _, _, _, .chain (m := m) hp hl, depth, refusedAt, rest, hd, hn => by
    rw [List.append_assoc]
    by_cases hm : depth + m ≤ limit
    · obtain ⟨left, hl⟩ := hl.refused depth refusedAt rest hd (by omega)
      exact ⟨_, expression_links_cut (hp.read depth refusedAt _ hm) hl⟩
    · obtain ⟨left, hp⟩ := hp.refused depth refusedAt _ hd (by omega)
      exact ⟨_, expression_cut hp⟩

end

/-- A text has no two derivations that differ in the value or in the nesting. -/
theorem Expression.unique {text : List Char} {p q : Formula} {m n : Nat}
    (hp : Expression text p m) (hq : Expression text q n) : p = q ∧ m = n := by
  have hle {p q m n} (hp : Expression text p m) (hq : Expression text q n) : p = q ∧ m ≤ n := by
    have hread : expression (Guard.atMost n) ⟨text ++ [], ⟨0, none⟩⟩ = .ok q ⟨[], ⟨0, none⟩⟩ :=
      hq.read 0 none noSign_nil (by omega)
    by_cases h : m ≤ n
    · rw [hp.read 0 none noSign_nil (by omega), Outcome.ok.injEq] at hread
      exact ⟨hread.1, h⟩
    · obtain ⟨left, hcut⟩ : ∃ left, expression (Guard.atMost n) ⟨text ++ [], ⟨0, none⟩⟩ = .cut left :=
        hp.refused 0 none [] (by omega) (by omega)
      rw [hread] at hcut
      cases hcut
  exact ⟨(hle hp hq).1, Nat.le_antisymm (hle hp hq).2 (hle hq hp).2⟩

/-- A text starts with one primary only: no primary goes on where another one ends. -/
theorem Primary.eq_of_append_eq {text more s t : List Char} {p q : Formula} {m n : Nat}
    (hp : Primary text p m) (hq : Primary more q n) (h : text ++ s = more ++ t) :
    p = q ∧ s = t := by
  -- With room for both of them, the parser reads either one off the same text.
  have hread : primary (Guard.atMost (max m n)) ⟨text ++ s, ⟨0, none⟩⟩ = .ok p ⟨s, ⟨0, none⟩⟩ :=
    hp.read 0 none s (by omega)
  rw [h, hq.read 0 none t (by omega)] at hread
  cases hread
  exact ⟨rfl, rfl⟩

end Grammar

end Propositional
