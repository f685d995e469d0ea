import Propositional.Proofs.Grammar.Congruence
import Propositional.Proofs.Grammar.NestingGuard
import Propositional.Proofs.Parsing.Cuts
import Propositional.Proofs.Parsing.States

/-!
# The nesting that a run passes through and leaves

The count of the open operands is not given back to a parser that is tried again, so every
way out of an operand has to take back what the way in added. That it does is a matter of
all the states that a run passes through, not only of the last one: `Guard.watched` keeps
them, and makes no other difference (`projects_rule`). Under `Guard.atMost` they form a
`Nesting.Path` that begins and ends at the same count, and is neither below it nor above the
limit in between (`moves_rule`).

Where an operand was refused is noted in the state exactly if the run is cut, and the note is
the number of bytes of an end of its text (`Rule.refusedAt_of_isCut`). So `Formula.parse`
finds the remainder that the note speaks of, and where there is no note its result is that of
a parser without any nesting to count (`nesting_kept`).
-/

namespace Propositional

open Parsing Grammar

variable {σ α : Type}

/-! ## Watching the state -/

/-- A state, and the states that a run passed through up to it, the latest first. -/
structure Watched (σ : Type) where
  state : σ
  passed : List σ
deriving DecidableEq

/-- Goes on to another state. -/
def Watched.goTo (w : Watched σ) (state : σ) : Watched σ :=
  ⟨state, state :: w.passed⟩

namespace Guard

/-- The guard that does what `guard` does and keeps every state that it sets. No other state
is passed through, since nothing but a guard sets one. -/
def watched (guard : Guard σ) : Guard (Watched σ) where
  start := ⟨guard.start, []⟩
  enter text w :=
    match guard.enter text w.state with
    | .ok inner => .ok (w.goTo inner)
    | .error refused => .error (w.goTo refused)
  leave w := w.goTo (guard.leave w.state)
  refusedAt w := guard.refusedAt w.state

variable (guard : Guard σ)

theorem projects_nested {p : Parser (Watched σ) α} {q : Parser σ α}
    (h : Projects Watched.state p q) :
    Projects Watched.state (guard.watched.nested p) (guard.nested q) := by
  intro s
  simp only [nested, watched, Stream.onState]
  cases guard.enter s.rest s.state.state with
  | error refused => rfl
  | ok inner =>
    have hp := h ⟨s.rest, s.state.goTo inner⟩
    have hleave : ∀ w : Watched σ, (w.goTo (guard.leave w.state)).state = guard.leave w.state :=
      fun _ => rfl
    rw [Outcome.onState_mapState hleave, hp]
    rfl

theorem projects_congruence :
    Congruence (fun _ => Projects Watched.state) guard.watched guard where
  literal := projects_literal
  satisfy := projects_satisfy
  map f := .map f
  orElse := .orElse
  sequence := .sequence
  many := .many
  nested := guard.projects_nested
  recursive := .recursive

/-- Watched or not, a rule runs alike. -/
theorem projects_rule (rule : Rule) :
    Projects Watched.state (rule.parser guard.watched) (rule.parser guard) :=
  guard.projects_congruence.rule rule

end Guard

/-! ## The states under a limit -/

namespace Nesting

/-- What becomes of the nesting where an operand begins, where it is refused, and where it ends. -/
inductive Step : Nesting → Nesting → Prop
  | opened (n : Nesting) : Step n ⟨n.depth + 1, n.refusedAt⟩
  | refused (n : Nesting) (bytes : Nat) : Step n ⟨n.depth, some bytes⟩
  | closed (depth : Nat) (refusedAt : Option Nat) : Step ⟨depth + 1, refusedAt⟩ ⟨depth, refusedAt⟩

/-- The states on the way from one to another, the latest first: each is a step from the one
before, and has at least `low` and at most `high` operands open. -/
inductive Path (low high : Nat) (start : Nesting) : List Nesting → Nesting → Prop
  | refl : Path low high start [] start
  | step {passed : List Nesting} {m n : Nesting} : Path low high start passed m → Step m n →
      low ≤ n.depth → n.depth ≤ high → Path low high start (n :: passed) n

namespace Path

variable {low high : Nat} {a b c : Nesting} {passed later : List Nesting}

theorem trans (h : Path low high a passed b) (h' : Path low high b later c) :
    Path low high a (later ++ passed) c := by
  induction h' with
  | refl => exact h
  | step _ hstep hlow hhigh ih => exact .step ih hstep hlow hhigh

theorem mono {low' : Nat} (hle : low' ≤ low) (h : Path low high a passed b) :
    Path low' high a passed b := by
  induction h with
  | refl => exact .refl
  | step _ hstep hlow hhigh ih => exact .step ih hstep (Nat.le_trans hle hlow) hhigh

end Path

/-- From a count within the limit, a run comes back to the same count by a path that is not
below it. -/
def Returns (limit : Nat) (a b : Watched Nesting) : Prop :=
  a.state.depth ≤ limit → b.state.depth = a.state.depth ∧ ∃ later,
    b.passed = later ++ a.passed ∧ Path a.state.depth limit a.state later b.state

variable {limit : Nat}

theorem returns_refl (a : Watched Nesting) : Returns limit a a :=
  fun _ => ⟨rfl, [], rfl, .refl⟩

theorem Returns.trans {a b c : Watched Nesting} (hab : Returns limit a b)
    (hbc : Returns limit b c) : Returns limit a c := by
  intro ha
  obtain ⟨hb, passed, hpassed, hpath⟩ := hab ha
  obtain ⟨hc, later, hlater, hpath'⟩ := hbc (by omega)
  rw [hb] at hpath'
  exact ⟨hc.trans hb, later ++ passed, by rw [hlater, hpassed, List.append_assoc],
    hpath.trans hpath'⟩

end Nesting

namespace Guard

open Nesting

variable {limit : Nat}

/-- An operand takes back what it adds to the count, and is refused where it would go beyond
the limit. -/
theorem moves_nested {p : Parser (Watched Nesting) α} (hp : Moves (Returns limit) p) :
    Moves (Returns limit) ((atMost limit).watched.nested p) := by
  rintro ⟨text, ⟨⟨depth, refusedAt⟩, passed⟩⟩ hd
  simp only at hd
  by_cases hfull : depth = limit
  · subst hfull
    simp only [nested, watched, enter_atMost_self]
    exact ⟨rfl, [_], rfl, .step .refl (.refused _ _) (Nat.le_refl _) hd⟩
  · have hin : depth + 1 ≤ limit := by omega
    simp only [nested, watched, enter_atMost hin, Outcome.state_mapState]
    obtain ⟨hdepth, later, hlater, hpath⟩ :=
      hp ⟨text, Watched.goTo ⟨⟨depth, refusedAt⟩, passed⟩ ⟨depth + 1, refusedAt⟩⟩ hin
    generalize (p _).left.state = w at hdepth hlater hpath ⊢
    obtain ⟨⟨inner, note⟩, seen⟩ := w
    obtain rfl : inner = depth + 1 := hdepth
    have hopen : Path depth limit ⟨depth, refusedAt⟩ [⟨depth + 1, refusedAt⟩]
        ⟨depth + 1, refusedAt⟩ := .step .refl (.opened _) (Nat.le_succ depth) hin
    have hback := hopen.trans (hpath.mono (Nat.le_succ depth))
    refine ⟨rfl, ⟨depth, note⟩ :: (later ++ [⟨depth + 1, refusedAt⟩]), ?_, ?_⟩
    · simp only [Watched.goTo] at hlater ⊢
      simp [hlater, atMost]
    · exact .step hback (.closed depth note) (Nat.le_refl depth) hd

theorem moves_congruence : Congruence (fun _ p (_ : Parser (Watched Nesting) _) =>
    Moves (Returns limit) p) (atMost limit).watched (atMost limit).watched where
  literal := moves_literal returns_refl
  satisfy := moves_satisfy returns_refl
  map f := .map f
  orElse := .orElse .trans
  sequence := .sequence .trans
  many := .many .trans
  nested := moves_nested
  recursive h := .recursive returns_refl fun p => h p p

/-- However it ends, a rule returns to the count of open operands it began with. -/
theorem moves_rule (limit : Nat) (rule : Rule) :
    Moves (Returns limit) (rule.parser (atMost limit).watched) :=
  moves_congruence.rule rule

end Guard

/-! ## The state that is left -/

namespace Grammar

variable {limit depth : Nat} {text : List Char} {left : Stream Nesting}

namespace Rule

/-- A call of a rule on `text`, with `depth` operands open and none refused. -/
def run (rule : Rule) (limit : Nat) (text : List Char) (depth : Nat) : Outcome Nesting Formula :=
  rule.parser (Guard.atMost limit) ⟨text, ⟨depth, none⟩⟩

/-- The same call, which keeps the states it passes through. -/
def watchedRun (rule : Rule) (limit : Nat) (text : List Char) (depth : Nat) :
    Outcome (Watched Nesting) Formula :=
  rule.parser (Guard.atMost limit).watched ⟨text, ⟨⟨depth, none⟩, []⟩⟩

/-- A call that leaves the note of a refusal is cut: one that succeeds or backtracks leaves
the state that it was given. -/
theorem isCut_of_refusedAt {rule : Rule} {bytes : Nat}
    (h : (rule.run limit text depth).left.state.refusedAt = some bytes) :
    (rule.run limit text depth).IsCut := by
  have hsteady := steady_rule (Guard.balanced_atMost limit) rule
  cases ho : rule.run limit text depth with
  | ok p left =>
    rw [ho, Outcome.left, hsteady.state_eq ho] at h
    cases h
  | backtrack left =>
    rw [ho, Outcome.left, hsteady.backtrack_eq ho] at h
    cases h
  | cut left => exact ⟨left, rfl⟩

end Rule

/-- A cut of either of the rules with operands is one of the choice between them. -/
theorem primary_cut_of_parenthesized {guard : Guard σ} {s t : Stream σ}
    (h : parenthesized guard (primary guard) s = .cut t) : primary guard s = .cut t := by
  rw [primary_eq, primaryOver]
  exact orElse_cut h

theorem primary_cut_of_negation {guard : Guard σ} {s t : Stream σ}
    (h : negation guard (primary guard) s = .cut t) : primary guard s = .cut t := by
  obtain ⟨rest, hs, -⟩ | hb := literal_cases ['-'] s
  · have hp : parenthesized guard (primary guard) s = .backtrack s := by
      rw [parenthesized, map, sequence_backtrack (literal_backtrack fun rest' => by simp [hs])]
      rfl
    rw [primary_eq, primaryOver, orElse_backtrack hp, Stream.rewind_rest]
    exact orElse_cut h
  · rw [negation, map, sequence_backtrack hb] at h
    cases h

theorem refusedAt_of_expression_cut (hd : depth ≤ limit)
    (h : expression (Guard.atMost limit) ⟨text, ⟨depth, none⟩⟩ = .cut left) :
    ∃ rest, rest <:+ text ∧ left.state.refusedAt = some (Text.byteLength rest) := by
  have hroom : depth + (limit - depth) = limit := Nat.add_sub_of_le hd
  obtain ⟨first, ⟨rest, rfl⟩, hover⟩ := expression_overrun text hroom h
  obtain ⟨left', hcut⟩ := hover.refused depth none rest hroom
  rw [h, Outcome.cut.injEq] at hcut
  exact ⟨rest, List.suffix_append first rest, by rw [hcut]⟩

/-- An expression that begins with a primary is cut with the state that the primary leaves. -/
theorem refusedAt_of_primary_cut (hd : depth ≤ limit)
    (h : primary (Guard.atMost limit) ⟨text, ⟨depth, none⟩⟩ = .cut left) :
    ∃ rest, rest <:+ text ∧ left.state.refusedAt = some (Text.byteLength rest) := by
  obtain ⟨rest, hsuffix, hrest⟩ := refusedAt_of_expression_cut hd (expression_cut h)
  exact ⟨rest, hsuffix, hrest⟩

/-- A call that is cut leaves the number of bytes of an end of its text. -/
theorem Rule.refusedAt_of_isCut {rule : Rule} (hd : depth ≤ limit)
    (h : (rule.run limit text depth).IsCut) : ∃ rest, rest <:+ text ∧
      (rule.run limit text depth).left.state.refusedAt = some (Text.byteLength rest) := by
  obtain ⟨left, hcut⟩ := h
  rw [hcut]
  cases rule with
  | expression => exact refusedAt_of_expression_cut hd hcut
  | primary => exact refusedAt_of_primary_cut hd hcut
  | parenthesized => exact refusedAt_of_primary_cut hd (primary_cut_of_parenthesized hcut)
  | negation => exact refusedAt_of_primary_cut hd (primary_cut_of_negation hcut)

/-- What a call with `depth` operands open does to the nesting, however it ends. -/
structure NestingKept (limit : Nat) (rule : Rule) (text : List Char) (depth : Nat) : Prop where
  /-- To watch the call makes no difference to it. -/
  watched_eq : (rule.watchedRun limit text depth).onState Watched.state = rule.run limit text depth
  /-- From the first state to the last, no fewer operands are open than before the call and no
  more than the limit. -/
  path : Nesting.Path depth limit ⟨depth, none⟩ (rule.watchedRun limit text depth).left.state.passed
    (rule.run limit text depth).left.state
  /-- As many operands are open as before the call. -/
  depth_eq : (rule.run limit text depth).left.state.depth = depth
  /-- A refusal is noted if and only if the call is cut. -/
  refusedAt_iff :
    (rule.run limit text depth).left.state.refusedAt.isSome ↔ (rule.run limit text depth).IsCut
  /-- What is noted is the number of bytes of an end of the text. -/
  refusedAt_eq : ∀ bytes, (rule.run limit text depth).left.state.refusedAt = some bytes →
    ∃ rest, rest <:+ text ∧ bytes = Text.byteLength rest

theorem Rule.nestingKept (rule : Rule) (text : List Char) (hd : depth ≤ limit) :
    NestingKept limit rule text depth := by
  have hwatched : (rule.watchedRun limit text depth).onState Watched.state =
      rule.run limit text depth := (Guard.atMost limit).projects_rule rule _
  have hstate : (rule.watchedRun limit text depth).left.state.state =
      (rule.run limit text depth).left.state := by
    rw [← hwatched, Outcome.left_onState]
    rfl
  obtain ⟨hdepth, passed, hpassed, hpath⟩ :=
    Guard.moves_rule limit rule ⟨text, ⟨⟨depth, none⟩, []⟩⟩ hd
  rw [List.append_nil] at hpassed
  exact {
    watched_eq := hwatched
    path := by
      rw [← hstate, watchedRun, hpassed]
      exact hpath
    depth_eq := by
      rw [← hstate]
      exact hdepth
    refusedAt_iff := by
      rw [Option.isSome_iff_exists]
      constructor
      · rintro ⟨bytes, hbytes⟩
        exact isCut_of_refusedAt hbytes
      · intro hcut
        obtain ⟨rest, -, hrest⟩ := refusedAt_of_isCut hd hcut
        exact ⟨_, hrest⟩
    refusedAt_eq := by
      intro bytes hbytes
      obtain ⟨rest, hsuffix, hrest⟩ := refusedAt_of_isCut hd (isCut_of_refusedAt hbytes)
      rw [hbytes, Option.some.injEq] at hrest
      exact ⟨rest, hsuffix, hrest⟩ }

end Grammar

/-! ## The remainder of an error -/

namespace Formula

/-- The call by which a source is read. -/
def call (source : String) : Outcome Nesting Formula :=
  Rule.expression.run maxNesting (Text.strip source.toList) 0

/-- Where a refusal is noted, what is cut off by the note is the remainder of the error. -/
theorem remainder_of_refusedAt {source : String} {bytes : Nat}
    (h : (call source).left.state.refusedAt = some bytes) :
    bytes ≤ Text.byteLength (Text.strip source.toList) ∧
      ∃ rest, Text.suffixOfBytes bytes (Text.strip source.toList) = some rest ∧
        parse source = .error ⟨String.ofList rest⟩ := by
  have hcut := Rule.isCut_of_refusedAt h
  obtain ⟨rest, ⟨first, htext⟩, hrest⟩ := Rule.refusedAt_of_isCut (Nat.zero_le maxNesting) hcut
  obtain rfl : bytes = Text.byteLength rest := Option.some.inj (h.symm.trans hrest)
  have hslice : Text.suffixOfBytes (Text.byteLength rest) (Text.strip source.toList) =
      some rest := by
    rw [← htext, Text.suffixOfBytes_append]
  refine ⟨?_, rest, hslice, ?_⟩
  · rw [← htext, Text.byteLength_append]
    exact Nat.le_add_left ..
  · obtain ⟨left, hcut⟩ := hcut
    rw [call, hcut] at h
    rw [parse, read_of_cut hcut, unread, show left.state.refusedAt = _ from h, Option.bind_some,
      hslice, Option.getD_some]

end Formula

/-- However a call of a rule ends, it leaves as many operands open as it was given, and has
never had fewer of them open, nor more than 128. It leaves the note of a refusal if and only if
it is cut, and that is the number of bytes of an end of its text. So the remainder that a note
speaks of is always there, and is the one reported. Without a cut a source is read as by a
parser that keeps no state at all: nothing that was noted has a part in the result. -/
theorem nesting_kept :
    (∀ (rule : Rule) (text : List Char) (depth : Nat), depth ≤ 128 →
      NestingKept 128 rule text depth) ∧
    ∀ source : String,
      (∀ bytes, (Formula.call source).left.state.refusedAt = some bytes →
        bytes ≤ Text.byteLength (Text.strip source.toList) ∧
          ∃ rest, Text.suffixOfBytes bytes (Text.strip source.toList) = some rest ∧
            Formula.parse source = .error ⟨String.ofList rest⟩) ∧
      (¬ (Formula.call source).IsCut →
        Formula.parse source = Formula.read Guard.unlimited (Text.strip source.toList)) := by
  refine ⟨fun rule text depth hd => rule.nestingKept text hd, fun source => ⟨fun bytes h => ?_,
    fun h => ?_⟩⟩
  · exact Formula.remainder_of_refusedAt h
  · exact Formula.read_eq_unlimited_of_ne_cut fun left hcut => h ⟨left, hcut⟩

/-- With 127 operands open there is room for a parenthesis, but not for a negation sign behind
it. Behind 129 negation signs the two bytes of a character that no formula has are left, and
are the remainder; behind one, the same character is an ordinary error. -/
theorem nesting_kept_refused :
    (NestingKept 128 .parenthesized ['(', '-', 'é'] 127 ∧
      Rule.parenthesized.watchedRun 128 ['(', '-', 'é'] 127 = .cut ⟨['(', '-', 'é'],
        ⟨⟨127, some 2⟩, [⟨127, some 2⟩, ⟨128, some 2⟩, ⟨128, none⟩]⟩⟩) ∧
    Formula.parse (String.ofList (List.replicate 129 '-' ++ ['é'])) = .error ⟨"é"⟩ ∧
    ¬ (Formula.call "-é").IsCut ∧
      Formula.parse "-é" = Formula.read Guard.unlimited ['-', 'é'] := by
  refine ⟨⟨nesting_kept.1 _ _ _ (by decide), by decide +kernel⟩, ?_, ?_⟩
  · have hstrip : Text.strip (String.ofList (List.replicate 129 '-' ++ ['é'])).toList =
        List.replicate 129 '-' ++ ['é'] := by
      rw [String.toList_ofList]
      decide +kernel
    obtain ⟨left, hcut⟩ :=
      (ExpressionOverrun.operand (primaryOverrun_replicate 128)).refused 0 none ['é'] rfl
    have hnote : (Formula.call
        (String.ofList (List.replicate 129 '-' ++ ['é']))).left.state.refusedAt =
          some (Text.byteLength ['é']) := by
      rw [Formula.call, Rule.run, hstrip]
      exact congrArg (fun outcome => outcome.left.state.refusedAt) hcut
    obtain ⟨-, rest, hslice, herror⟩ := (nesting_kept.2 _).1 _ hnote
    rw [hstrip, Text.suffixOfBytes_append, Option.some.injEq] at hslice
    rw [herror, ← hslice]
  · have hrun : Formula.call "-é" = .backtrack ⟨['-', 'é'], ⟨0, none⟩⟩ := by decide +kernel
    have hcut : ¬ (Formula.call "-é").IsCut := by
      rintro ⟨left, h⟩
      rw [hrun] at h
      cases h
    exact ⟨hcut, (nesting_kept.2 "-é").2 hcut⟩

end Propositional
