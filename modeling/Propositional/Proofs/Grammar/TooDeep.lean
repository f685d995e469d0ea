import Propositional.Proofs.Grammar.Overrun

/-!
# What is too deep

`TooDeep` counts the openers that are open and asks for a continuation;
`ExpressionOverrun` follows the grammar. An overrun is too deep
(`ExpressionOverrun.tooDeep`), and what is too deep begins with an overrun
(`TooDeep.overrun`). So the overrun at the start of a text, if there is one, is
its shortest beginning that is too deep.
-/

namespace Propositional.Grammar

variable {limit : Nat}

/-! ## An overrun is too deep -/

theorem EndsInOpener.append {text : List Char} (h : EndsInOpener text) (before : List Char) :
    EndsInOpener (before ++ text) := by
  obtain ⟨start, c, rfl, hc⟩ := h
  exact ⟨before ++ start, c, (List.append_assoc ..).symm, hc⟩

mutual

theorem PrimaryOverrun.endsInOpener : ∀ {room text}, PrimaryOverrun room text → EndsInOpener text
  | _, _, .opener hc => ⟨[], _, rfl, hc⟩
  | _, _, .parentheses h => h.endsInOpener.append ['(']
  | _, _, .negation h => h.endsInOpener.append ['-']

theorem LinksOverrun.endsInOpener : ∀ {room text}, LinksOverrun room text → EndsInOpener text
  | _, _, .operand h => h.endsInOpener.append _
  | _, _, .later _ _ h => (h.endsInOpener.append _).append _

theorem ExpressionOverrun.endsInOpener : ∀ {room text}, ExpressionOverrun room text →
    EndsInOpener text
  | _, _, .operand h => h.endsInOpener
  | _, _, .later _ _ h => h.endsInOpener.append _

end

mutual

theorem PrimaryOverrun.viable : ∀ {room text}, PrimaryOverrun room text →
    ∃ rest p n, Primary (text ++ rest) p n
  | _, _, .opener hc => by
    rcases hc with rfl | rfl
    · exact ⟨['0', ')'], _, _, .parentheses (Primary.expression .zero)⟩
    · exact ⟨['0'], _, _, .negation .zero⟩
  | _, _, .parentheses h => by
    obtain ⟨rest, p, n, hp⟩ := h.viable
    exact ⟨rest ++ [')'], p, _, by simpa using Primary.parentheses hp⟩
  | _, _, .negation h => by
    obtain ⟨rest, p, n, hp⟩ := h.viable
    exact ⟨rest, _, _, .negation hp⟩

theorem LinksOverrun.viable : ∀ {room text}, LinksOverrun room text →
    ∃ rest ls n, Links (text ++ rest) ls n
  | _, _, .operand h => by
    obtain ⟨rest, p, n, hp⟩ := h.viable
    exact ⟨rest, _, _, by simpa using Links.cons hp .nil⟩
  | _, _, .later hq _ h => by
    obtain ⟨rest, ls, n, hl⟩ := h.viable
    exact ⟨rest, _, _, by simpa using Links.cons hq hl⟩

theorem ExpressionOverrun.viable : ∀ {room text}, ExpressionOverrun room text →
    ∃ rest p n, Expression (text ++ rest) p n
  | _, _, .operand h => by
    obtain ⟨rest, p, n, hp⟩ := h.viable
    exact ⟨rest, p, n, hp.expression⟩
  | _, _, .later hq _ h => by
    obtain ⟨rest, ls, n, hl⟩ := h.viable
    exact ⟨rest, _, _, by simpa using Expression.chain hq hl⟩

end

/- Between the operands of a chain no negation sign is open, which is what the
hypothesis on the stack says. -/
mutual

theorem PrimaryOverrun.length_foldl : ∀ {room text}, PrimaryOverrun room text →
    ∀ stack : List Char, (text.foldl openStep stack).length = stack.length + (room + 1)
  | _, _, .opener hc, stack => congrArg List.length (openStep_opener hc stack)
  | _, _, .parentheses h, stack => by
    rw [List.foldl_cons, openStep_opener (.inl rfl), h.length_foldl (completed_open stack),
      List.length_cons]
    omega
  | _, _, .negation h, stack => by
    rw [List.foldl_cons, openStep_opener (.inr rfl), h.length_foldl, List.length_cons]
    omega

theorem LinksOverrun.length_foldl : ∀ {room text}, LinksOverrun room text →
    ∀ {stack : List Char}, completed stack = stack →
    (text.foldl openStep stack).length = stack.length + (room + 1)
  | _, _, .operand h, stack, _ => by
    rw [List.foldl_append, foldl_openStep_symbol, h.length_foldl]
  | _, _, .later hp _ h, stack, hs => by
    rw [List.foldl_append, foldl_openStep_symbol, List.foldl_append, hp.foldl_openStep, hs,
      h.length_foldl hs]

theorem ExpressionOverrun.length_foldl : ∀ {room text}, ExpressionOverrun room text →
    ∀ {stack : List Char}, completed stack = stack →
    (text.foldl openStep stack).length = stack.length + (room + 1)
  | _, _, .operand h, stack, _ => h.length_foldl stack
  | _, _, .later hp _ h, stack, hs => by
    rw [List.foldl_append, hp.foldl_openStep, hs, h.length_foldl hs]

end

theorem ExpressionOverrun.tooDeep {text : List Char} (h : ExpressionOverrun limit text) :
    TooDeep limit text where
  opener := h.endsInOpener
  viable := h.viable
  depth := by rw [opened, h.length_foldl rfl, List.length_nil, Nat.zero_add]

/-! ## What is too deep begins with an overrun -/

/-- A primary with more nesting than there is room for begins with an overrun. -/
theorem Primary.overrun_of_lt {text : List Char} {p : Formula} {n room : Nat}
    (h : Primary text p n) (hn : room < n) : ∃ first, first <+: text ∧ PrimaryOverrun room first := by
  obtain ⟨left, hcut⟩ := h.refused 0 none [] (Nat.zero_le room) (by omega)
  rw [List.append_nil] at hcut
  exact primary_overrun text (Nat.zero_add room) hcut

theorem not_opener_of_mem_symbol {op : Connective} {c : Char} (h : c ∈ op.symbol.toList) :
    ¬ Opener c := by
  have ho : op.symbol.toList.all (fun c => ¬ Opener c) = true := by cases op <;> decide
  simpa using List.all_eq_true.1 ho c h

namespace EndsInOpener

variable {before : List Char} (h : EndsInOpener before)

include h

theorem ne_nil : before ≠ [] := by
  obtain ⟨start, c, rfl, -⟩ := h
  simp

/-- What ends in an opener and begins a text in two parts ends in the first of
them or in the second. -/
theorem append_cases {x y : List Char} (hb : before <+: x ++ y) :
    before <+: x ∨ ∃ behind, before = x ++ behind ∧ EndsInOpener behind ∧ behind <+: y := by
  obtain hx | ⟨behind, rfl⟩ := List.prefix_or_prefix_of_prefix hb (List.prefix_append x y)
  · exact .inl hx
  · obtain ⟨start, c, heq, hc⟩ := h
    obtain rfl | ⟨init, d, rfl⟩ := List.eq_nil_or_concat behind
    · exact .inl ⟨[], by simp⟩
    · rw [List.concat_eq_append, ← List.append_assoc] at heq
      obtain ⟨-, hd⟩ := List.append_inj' heq rfl
      refine .inr ⟨_, rfl, ⟨init, d, List.concat_eq_append, ?_⟩, (List.prefix_append_right_inj x).1 hb⟩
      rwa [List.singleton_inj.1 hd]

theorem of_prefix_singleton {c : Char} (hb : before <+: [c]) : Opener c := by
  obtain ⟨start, d, rfl, hd⟩ := h
  rwa [← List.mem_singleton.1 (hb.subset (show d ∈ start ++ [d] by simp))]

/-- What ends in an opener does not end in the sign of a connective. -/
theorem behind_symbol {rest : List Char} {op : Connective}
    (hb : before <+: op.symbol.toList ++ rest) :
    ∃ behind, before = op.symbol.toList ++ behind ∧ EndsInOpener behind ∧ behind <+: rest := by
  obtain hs | hb := h.append_cases hb
  · obtain ⟨start, c, rfl, hc⟩ := h
    exact absurd hc (not_opener_of_mem_symbol (hs.subset (by simp)))
  · exact hb

/-- Without room the first opener is one too many. -/
theorem overrun_of_no_room {c : Char} {text : List Char} (hc : Opener c) (hb : before <+: c :: text) :
    ∃ first, first <+: before ∧ PrimaryOverrun 0 first := by
  obtain hnil | ⟨behind, rfl, -⟩ := List.prefix_cons_iff.1 hb
  · exact absurd hnil h.ne_nil
  · exact ⟨[c], List.prefix_append [c] behind, .opener hc⟩

/-- Behind an opener there is room for one opener less. -/
theorem behind_opener {c : Char} {text stack : List Char} {room : Nat} (hc : Opener c)
    (hb : before <+: c :: text)
    (hn : stack.length + (room + 1) < (before.foldl openStep stack).length) :
    ∃ behind, before = c :: behind ∧ EndsInOpener behind ∧ behind <+: text ∧
      (c :: stack).length + room < (behind.foldl openStep (c :: stack)).length := by
  obtain hs | ⟨behind, rfl, ho, hb⟩ := h.append_cases (x := [c]) hb
  · have hlen := length_foldl_openStep_le before stack
    have hone : before.length ≤ 1 := hs.length_le
    omega
  · rw [List.foldl_append, List.foldl_cons, List.foldl_nil, openStep_opener hc] at hn
    exact ⟨behind, rfl, ho, hb, by rw [List.length_cons]; omega⟩

/-- What leads too deep into a chain does so in its first operand, or behind it
if there is room for that. -/
theorem behind_operand {operand rest stack : List Char} {p : Formula} {n room : Nat}
    (hp : Primary operand p n) (hb : before <+: operand ++ rest)
    (hn : stack.length + room < (before.foldl openStep stack).length)
    (hin : before <+: operand → ∃ first, first <+: before ∧ PrimaryOverrun room first) :
    (∃ first, first <+: before ∧ PrimaryOverrun room first) ∨
      ∃ behind, before = operand ++ behind ∧ n ≤ room ∧ EndsInOpener behind ∧ behind <+: rest ∧
        (completed stack).length + room < (behind.foldl openStep (completed stack)).length := by
  obtain ho | ⟨behind, rfl, ho, hb⟩ := h.append_cases hb
  · exact .inl (hin ho)
  · by_cases hr : n ≤ room
    · have hc := length_completed_le stack
      rw [List.foldl_append, hp.foldl_openStep] at hn
      exact .inr ⟨behind, rfl, hr, ho, hb, by omega⟩
    · obtain ⟨first, hfirst, hover⟩ := hp.overrun_of_lt (Nat.lt_of_not_le hr)
      exact .inl ⟨first, hfirst.trans (List.prefix_append operand behind), hover⟩

end EndsInOpener

/- `before` is where the text is too deep, and `stack` what is open before the text. -/
mutual

theorem Primary.overrun : ∀ {text p n}, Primary text p n → ∀ {before stack : List Char}
    {room : Nat}, before <+: text → EndsInOpener before →
    stack.length + room < (before.foldl openStep stack).length →
    ∃ first, first <+: before ∧ PrimaryOverrun room first
  | _, _, _, .parentheses h, before, stack, 0, hb, ho, hn => ho.overrun_of_no_room (.inl rfl) hb
  | _, _, _, .parentheses h, before, stack, room + 1, hb, ho, hn => by
    obtain ⟨behind, rfl, ho, hb, hn⟩ := ho.behind_opener (.inl rfl) hb hn
    obtain hb | ⟨last, -, ho, hb⟩ := ho.append_cases hb
    · obtain ⟨first, hfirst, hover⟩ := h.overrun hb ho hn
      exact ⟨_, List.cons_prefix_cons.2 ⟨rfl, hfirst⟩, .parentheses hover⟩
    · exact absurd (ho.of_prefix_singleton hb) (by decide)
  | _, _, _, .negation h, before, stack, 0, hb, ho, hn => ho.overrun_of_no_room (.inr rfl) hb
  | _, _, _, .negation h, before, stack, room + 1, hb, ho, hn => by
    obtain ⟨behind, rfl, ho, hb, hn⟩ := ho.behind_opener (.inr rfl) hb hn
    obtain ⟨first, hfirst, hover⟩ := h.overrun hb ho hn
    exact ⟨_, List.cons_prefix_cons.2 ⟨rfl, hfirst⟩, .negation hover⟩
  | _, _, _, .zero, _, _, _, hb, ho, _ => absurd (ho.of_prefix_singleton hb) (by decide)
  | _, _, _, .one, _, _, _, hb, ho, _ => absurd (ho.of_prefix_singleton hb) (by decide)
  | _, _, _, .letter hx, _, _, _, hb, ho, _ => by
    rcases ho.of_prefix_singleton hb with rfl | rfl <;> cases hx

theorem Links.overrun : ∀ {text ls n}, Links text ls n → ∀ {before stack : List Char}
    {room : Nat}, before <+: text → EndsInOpener before →
    stack.length + room < (before.foldl openStep stack).length →
    ∃ first, first <+: before ∧ LinksOverrun room first
  | _, _, _, .nil, _, _, _, hb, ho, _ => absurd (List.prefix_nil.1 hb) ho.ne_nil
  | _, _, _, .cons hp hl, before, stack, room, hb, ho, hn => by
    obtain ⟨behind, rfl, ho, hb⟩ := ho.behind_symbol hb
    rw [List.foldl_append, foldl_openStep_symbol] at hn
    obtain ⟨first, hfirst, hover⟩ | ⟨rest, rfl, hroom, ho, hb, hn⟩ :=
      ho.behind_operand hp hb hn fun hb => hp.overrun hb ho hn
    · exact ⟨_, (List.prefix_append_right_inj _).2 hfirst, .operand hover⟩
    · obtain ⟨first, hfirst, hover⟩ := hl.overrun hb ho hn
      refine ⟨_, (List.prefix_append_right_inj _).2 ?_, .later hp hroom hover⟩
      exact (List.prefix_append_right_inj _).2 hfirst

theorem Expression.overrun : ∀ {text p n}, Expression text p n → ∀ {before stack : List Char}
    {room : Nat}, before <+: text → EndsInOpener before →
    stack.length + room < (before.foldl openStep stack).length →
    ∃ first, first <+: before ∧ ExpressionOverrun room first
  | _, _, _, .chain hp hl, before, stack, room, hb, ho, hn => by
    obtain ⟨first, hfirst, hover⟩ | ⟨rest, rfl, hroom, ho, hb, hn⟩ :=
      ho.behind_operand hp hb hn fun hb => hp.overrun hb ho hn
    · exact ⟨first, hfirst, .operand hover⟩
    · obtain ⟨first, hfirst, hover⟩ := hl.overrun hb ho hn
      exact ⟨_, (List.prefix_append_right_inj _).2 hfirst, .later hp hroom hover⟩

end

/-- What is too deep begins with an overrun. -/
theorem TooDeep.overrun {text : List Char} (h : TooDeep limit text) :
    ∃ first, first <+: text ∧ ExpressionOverrun limit first := by
  obtain ⟨rest, p, n, hp⟩ := h.viable
  have hd : ([] : List Char).length + limit < (text.foldl openStep []).length := by
    rw [← opened, h.depth]
    simp
  exact hp.overrun (List.prefix_append text rest) h.opener hd

end Propositional.Grammar
