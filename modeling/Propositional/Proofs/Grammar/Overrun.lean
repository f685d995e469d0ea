import Propositional.Proofs.Grammar.Completeness
import Propositional.Proofs.Grammar.Openers
import Propositional.Proofs.Grammar.Soundness

/-!
# The first opener too many

`ExpressionOverrun room text` says that `text` begins an expression and ends
with the first opener for which there is no room, `room` openers being allowed
to be open at once. The parser is cut exactly there: a text that begins with an
overrun is refused behind it, whatever follows (`ExpressionOverrun.refused`),
and a text that is refused begins with one (`expression_overrun`). No text
begins with two (`ExpressionOverrun.unique`).
-/

namespace Propositional.Grammar

open Parsing

mutual

/-- The beginnings of primaries up to the first opener without room. -/
inductive PrimaryOverrun : Nat → List Char → Prop
  | opener {c} : Opener c → PrimaryOverrun 0 [c]
  | parentheses {room text} : ExpressionOverrun room text → PrimaryOverrun (room + 1) ('(' :: text)
  | negation {room text} : PrimaryOverrun room text → PrimaryOverrun (room + 1) ('-' :: text)

/-- The beginnings of the rest of a chain up to the first opener without room. -/
inductive LinksOverrun : Nat → List Char → Prop
  | operand {op : Connective} {room text} :
      PrimaryOverrun room text → LinksOverrun room (op.symbol.toList ++ text)
  | later {op : Connective} {operand p n room text} :
      Primary operand p n → n ≤ room → LinksOverrun room text →
      LinksOverrun room (op.symbol.toList ++ (operand ++ text))

/-- The beginnings of expressions up to the first opener without room. -/
inductive ExpressionOverrun : Nat → List Char → Prop
  | operand {room text} : PrimaryOverrun room text → ExpressionOverrun room text
  | later {operand p n room text} : Primary operand p n → n ≤ room → LinksOverrun room text →
      ExpressionOverrun room (operand ++ text)

end

variable {limit : Nat}

/-! ## An overrun is refused -/

mutual

theorem PrimaryOverrun.refused : ∀ {room text}, PrimaryOverrun room text → ∀ (depth : Nat)
    (refusedAt : Option Nat) (rest : List Char), depth + room = limit → ∃ left,
      primary (Guard.atMost limit) ⟨text ++ rest, ⟨depth, refusedAt⟩⟩ =
        .cut ⟨left, ⟨depth, some (Text.byteLength rest)⟩⟩
  | _, _, .opener hc, depth, refusedAt, rest, hd => by
    obtain rfl : depth = limit := hd
    rcases hc with rfl | rfl
    · rw [List.cons_append, primary_open, List.nil_append, Guard.enter_atMost_self]
      exact ⟨_, rfl⟩
    · rw [List.cons_append, primary_minus, List.nil_append, Guard.enter_atMost_self]
      exact ⟨_, rfl⟩
  | _, _, .parentheses h, depth, refusedAt, rest, hd => by
    obtain ⟨left, hp⟩ := h.refused (depth + 1) refusedAt rest (by omega)
    rw [List.cons_append, primary_open, Guard.enter_atMost (by omega)]
    simp only [closed, sequence_cut hp]
    exact ⟨_, rfl⟩
  | _, _, .negation h, depth, refusedAt, rest, hd => by
    obtain ⟨left, hp⟩ := h.refused (depth + 1) refusedAt rest (by omega)
    rw [List.cons_append, primary_minus, Guard.enter_atMost (by omega)]
    simp only [hp]
    exact ⟨_, rfl⟩

theorem LinksOverrun.refused : ∀ {room text}, LinksOverrun room text → ∀ (depth : Nat)
    (refusedAt : Option Nat) (rest : List Char), depth + room = limit → ∃ left,
      links (Guard.atMost limit) ⟨text ++ rest, ⟨depth, refusedAt⟩⟩ =
        .cut ⟨left, ⟨depth, some (Text.byteLength rest)⟩⟩
  | _, _, .operand h, depth, refusedAt, rest, hd => by
    obtain ⟨left, hp⟩ := h.refused depth refusedAt rest hd
    rw [List.append_assoc, links_sign, hp]
    exact ⟨_, rfl⟩
  | _, _, .later hp hn h, depth, refusedAt, rest, hd => by
    obtain ⟨left, hl⟩ := h.refused depth refusedAt rest hd
    rw [List.append_assoc, List.append_assoc, links_sign, hp.read depth refusedAt _ (by omega)]
    simp only [hl]
    exact ⟨_, rfl⟩

/-- Behind an overrun the parser is cut, and notes what is left to be read there. -/
theorem ExpressionOverrun.refused : ∀ {room text}, ExpressionOverrun room text → ∀ (depth : Nat)
    (refusedAt : Option Nat) (rest : List Char), depth + room = limit → ∃ left,
      expression (Guard.atMost limit) ⟨text ++ rest, ⟨depth, refusedAt⟩⟩ =
        .cut ⟨left, ⟨depth, some (Text.byteLength rest)⟩⟩
  | _, _, .operand h, depth, refusedAt, rest, hd => by
    obtain ⟨left, hp⟩ := h.refused depth refusedAt rest hd
    exact ⟨_, expression_cut hp⟩
  | _, _, .later hp hn h, depth, refusedAt, rest, hd => by
    obtain ⟨left, hl⟩ := h.refused depth refusedAt rest hd
    rw [List.append_assoc]
    exact ⟨_, expression_links_cut (hp.read depth refusedAt _ (by omega)) hl⟩

end

/-- A text begins with one overrun at most. -/
theorem ExpressionOverrun.unique {text first first' : List Char} (h : ExpressionOverrun limit first)
    (h' : ExpressionOverrun limit first') (ht : first <+: text) (ht' : first' <+: text) :
    first = first' := by
  obtain ⟨rest, rfl⟩ := ht
  obtain ⟨rest', heq⟩ := ht'
  obtain ⟨left, hcut⟩ := h.refused 0 none rest (Nat.zero_add limit)
  obtain ⟨left', hcut'⟩ := h'.refused 0 none rest' (Nat.zero_add limit)
  -- Both notes are of the same run, and a number of bytes settles what is left.
  rw [heq, hcut, Outcome.cut.injEq, Stream.mk.injEq, Nesting.mk.injEq, Option.some.injEq] at hcut'
  have hrest := Text.suffixOfBytes_append first rest
  rw [← heq, hcut'.2.2, Text.suffixOfBytes_append, Option.some.injEq] at hrest
  rw [hrest, List.append_cancel_right_eq] at heq
  exact heq.symm

/-! ## What is refused is an overrun -/

/-- Only an operand can be refused. -/
theorem opener_of_primary_cut {σ : Type} {guard : Guard σ} {text : List Char} {state : σ}
    {left : Stream σ} (h : primary guard ⟨text, state⟩ = .cut left) :
    ∃ c rest, Opener c ∧ text = c :: rest := by
  cases text with
  | nil => rw [primary_none guard state (by simp)] at h; cases h
  | cons c rest =>
    by_cases hc : Begins c
    · rcases hc with rfl | rfl | rfl | rfl | hc
      · exact ⟨_, _, .inl rfl, rfl⟩
      · exact ⟨_, _, .inr rfl, rfl⟩
      · rw [primary_zero] at h; cases h
      · rw [primary_one] at h; cases h
      · rw [primary_letter guard hc] at h; cases h
    · have hn : ∀ d rest', c :: rest = d :: rest' → ¬ Begins d := by
        rintro _ _ ⟨⟩
        exact hc
      rw [primary_none guard state hn] at h
      cases h

/-- What a primary that was read is, and what it leaves. -/
theorem primary_eq_ok {depth : Nat} {refusedAt : Option Nat} {text : List Char} {p : Formula}
    {left : Stream Nesting} (hd : depth ≤ limit)
    (h : primary (Guard.atMost limit) ⟨text, ⟨depth, refusedAt⟩⟩ = .ok p left) :
    ∃ operand rest n, text = operand ++ rest ∧ left = ⟨rest, ⟨depth, refusedAt⟩⟩ ∧
      Primary operand p n ∧ depth + n ≤ limit := by
  obtain ⟨operand, n, ht, hp, hn⟩ := (sound_primary limit).read hd h
  have hs : left.state = ⟨depth, refusedAt⟩ :=
    (steady_primary (Guard.balanced_atMost limit)).state_eq h
  exact ⟨operand, left.rest, n, ht, by rw [← hs], hp, hn⟩

/- A primary goes on behind a character, but an expression begins with a primary
on the same text. So the length of the text alone is no measure. -/
mutual

theorem primary_overrun (text : List Char) {depth room : Nat} {refusedAt : Option Nat}
    {left : Stream Nesting} (hd : depth + room = limit)
    (h : primary (Guard.atMost limit) ⟨text, ⟨depth, refusedAt⟩⟩ = .cut left) :
    ∃ first, first <+: text ∧ PrimaryOverrun room first := by
  obtain ⟨c, rest, hc, ht⟩ := opener_of_primary_cut h
  have hlen : rest.length < text.length := by simp [ht]
  subst ht
  cases room with
  | zero => exact ⟨[c], List.prefix_append [c] rest, .opener hc⟩
  | succ room =>
    have hin : depth + 1 + room = limit := by omega
    rcases hc with rfl | rfl
    · rw [primary_open, Guard.enter_atMost (by omega)] at h
      simp only at h
      split at h <;> try cases h
      rename_i hclosed
      obtain ⟨inner, hp⟩ | ⟨p, t, u, -, hclose⟩ := sequence_eq_cut hclosed
      · obtain ⟨first, hfirst, ho⟩ := expression_overrun rest hin hp
        exact ⟨_, List.cons_prefix_cons.2 ⟨rfl, hfirst⟩, .parentheses ho⟩
      · exact absurd hclose literal_ne_cut
    · rw [primary_minus, Guard.enter_atMost (by omega)] at h
      simp only at h
      split at h <;> try cases h
      rename_i hp
      obtain ⟨first, hfirst, ho⟩ := primary_overrun rest hin hp
      exact ⟨_, List.cons_prefix_cons.2 ⟨rfl, hfirst⟩, .negation ho⟩
termination_by 3 * text.length

theorem links_overrun (text : List Char) {depth room : Nat} {refusedAt : Option Nat}
    {left : Stream Nesting} (hd : depth + room = limit)
    (h : links (Guard.atMost limit) ⟨text, ⟨depth, refusedAt⟩⟩ = .cut left) :
    ∃ first, first <+: text ∧ LinksOverrun room first := by
  obtain hn | ⟨op, rest, ht⟩ := noSign_or text
  · rw [links_none _ hn] at h
    cases h
  · have hlen : rest.length < text.length := by simp [ht, length_symbol_pos op]
    rw [ht, links_sign] at h
    split at h
    · rename_i p t hp
      obtain ⟨operand, rest', n, hr, rfl, hq, hn⟩ := primary_eq_ok (by omega) hp
      have hlen' : rest'.length ≤ rest.length := by simp [hr]
      cases hl : links (Guard.atMost limit) ⟨rest', ⟨depth, refusedAt⟩⟩ with
      | ok ls u => rw [hl] at h; cases h
      | backtrack u => rw [hl] at h; cases h
      | cut u =>
        obtain ⟨first, hfirst, ho⟩ := links_overrun rest' hd hl
        rw [ht, hr]
        refine ⟨_, (List.prefix_append_right_inj _).2 ?_, .later hq (by omega) ho⟩
        exact (List.prefix_append_right_inj _).2 hfirst
    · cases h
    · rename_i t hp
      obtain ⟨first, hfirst, ho⟩ := primary_overrun rest hd hp
      exact ⟨_, ht ▸ (List.prefix_append_right_inj _).2 hfirst, .operand ho⟩
termination_by 3 * text.length + 1

/-- A text that is refused begins with an overrun. -/
theorem expression_overrun (text : List Char) {depth room : Nat} {refusedAt : Option Nat}
    {left : Stream Nesting} (hd : depth + room = limit)
    (h : expression (Guard.atMost limit) ⟨text, ⟨depth, refusedAt⟩⟩ = .cut left) :
    ∃ first, first <+: text ∧ ExpressionOverrun room first := by
  rw [expression_eq, map_eq_cut_iff] at h
  obtain ⟨t, hp⟩ | ⟨p, t, u, hp, hl⟩ := sequence_eq_cut h
  · obtain ⟨first, hfirst, ho⟩ := primary_overrun text hd hp
    exact ⟨first, hfirst, .operand ho⟩
  · obtain ⟨operand, rest, n, ht, rfl, hq, hn⟩ := primary_eq_ok (by omega) hp
    have hlen : rest.length ≤ text.length := by simp [ht]
    obtain ⟨first, hfirst, ho⟩ := links_overrun rest hd hl
    exact ⟨_, ht ▸ (List.prefix_append_right_inj _).2 hfirst, .later hq (by omega) ho⟩
termination_by 3 * text.length + 2

end

end Propositional.Grammar
