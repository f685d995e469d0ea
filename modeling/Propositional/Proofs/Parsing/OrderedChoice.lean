import Propositional.Proofs.Parsing.Productive

/-!
# Ordered choice

`Pattern.Reads` says what a parsing expression makes of a text, without a run of
any parser: a choice is its first part where that succeeds and its second part
on the same text where it fails, a sequence is both parts in order, and a
repetition collects what its body captures up to the first failure. A text has
one reading at most (`Reads.unique`). `RunsAsRead` says of a pattern that its
parser comes to a reading of the text it is given; the combinators keep that,
where the body of a repetition has to advance. So the runs of a productive
pattern without commitment are its readings (`outcome_iff_reads`).
-/

namespace Propositional.Parsing

variable {σ : Type}

/-- What is made of a text. -/
inductive Reading where
  /-- The text begins with what was captured, and `rest` follows. -/
  | success (capture : Capture) (rest : List Char)
  /-- The text does not begin as it should. -/
  | failure

/-- The outcome of a run from `s` that comes to a reading. A failure leaves the
stream as it was. -/
def Reading.outcome (s : Stream σ) : Reading → Outcome σ Capture
  | success capture rest => .ok capture (s.rewind rest)
  | failure => .backtrack s

theorem Reading.outcome_injective {s : Stream σ} {r r' : Reading}
    (h : r.outcome s = r'.outcome s) : r = r' := by
  cases r <;> cases r' <;> simp_all [outcome, Stream.rewind]

namespace Pattern

/-- No part of the pattern is committed. -/
def CommitFree : Pattern → Prop
  | literal _ | satisfy _ => True
  | orElse first second | sequence first second => first.CommitFree ∧ second.CommitFree
  | many body => body.CommitFree
  | commit _ => False

/-- How a text is read under ordered choice. -/
inductive Reads : Pattern → List Char → Reading → Prop
  | literal {token text rest} : text = token ++ rest →
      Reads (literal token) text (.success (.text token) rest)
  | literal_failure {token text} : ¬ token <+: text → Reads (literal token) text .failure
  | satisfy {accept : Char → Bool} {c rest} : accept c →
      Reads (satisfy accept) (c :: rest) (.success (.text [c]) rest)
  | satisfy_failure {accept : Char → Bool} {text} : (∀ c ∈ text.head?, accept c = false) →
      Reads (satisfy accept) text .failure
  /-- The first success wins. -/
  | first {p q text capture rest} : Reads p text (.success capture rest) →
      Reads (orElse p q) text (.success capture rest)
  /-- The second part is tried on the text that the first one failed on. -/
  | second {p q text reading} : Reads p text .failure → Reads q text reading →
      Reads (orElse p q) text reading
  | sequence {p q text capture rest capture' rest'} : Reads p text (.success capture rest) →
      Reads q rest (.success capture' rest') →
      Reads (sequence p q) text (.success (.pair capture capture') rest')
  | sequence_first {p q text} : Reads p text .failure → Reads (sequence p q) text .failure
  | sequence_second {p q text capture rest} : Reads p text (.success capture rest) →
      Reads q rest .failure → Reads (sequence p q) text .failure
  /-- A repetition ends where its body fails, on the text that the body failed on. -/
  | stop {body text} : Reads body text .failure → Reads (many body) text (.success .nil text)
  | next {body text capture rest captures rest'} : Reads body text (.success capture rest) →
      Reads (many body) rest (.success captures rest') →
      Reads (many body) text (.success (.cons capture captures) rest')

/-- A text is read in one way at most. -/
theorem Reads.unique {p : Pattern} {text : List Char} {r r' : Reading} (h : Reads p text r)
    (h' : Reads p text r') : r = r' := by
  induction h generalizing r' with
  | literal htext =>
    cases h' with
    | literal htext' => rw [List.append_cancel_left (htext.symm.trans htext')]
    | literal_failure hno => exact absurd ⟨_, htext.symm⟩ hno
  | literal_failure hno =>
    cases h' with
    | literal htext => exact absurd ⟨_, htext.symm⟩ hno
    | literal_failure => rfl
  | satisfy hc =>
    cases h' with
    | satisfy => rfl
    | satisfy_failure hno => exact absurd (hno _ rfl) (by simp [hc])
  | satisfy_failure hno =>
    cases h' with
    | satisfy hc => exact absurd (hno _ rfl) (by simp [hc])
    | satisfy_failure => rfl
  | first _ ih =>
    cases h' with
    | first hp => exact ih hp
    | second hp => cases ih hp
  | second _ _ ihp ihq =>
    cases h' with
    | first hp => cases ihp hp
    | second _ hq => exact ihq hq
  | sequence _ _ ihp ihq =>
    cases h' with
    | sequence hp hq => cases ihp hp; cases ihq hq; rfl
    | sequence_first hp => cases ihp hp
    | sequence_second hp hq => cases ihp hp; cases ihq hq
  | sequence_first _ ihp =>
    cases h' with
    | sequence hp => cases ihp hp
    | sequence_first => rfl
    | sequence_second => rfl
  | sequence_second _ _ ihp ihq =>
    cases h' with
    | sequence hp hq => cases ihp hp; cases ihq hq
    | sequence_first => rfl
    | sequence_second => rfl
  | stop _ ih =>
    cases h' with
    | stop => rfl
    | next hbody => cases ih hbody
  | next _ _ ihbody ihrest =>
    cases h' with
    | stop hbody => cases ihbody hbody
    | next hbody hrest => cases ihbody hbody; cases ihrest hrest; rfl

/-! ## Runs of the combinators -/

/-- The parser of the pattern comes to a reading of whatever text it is given. -/
def RunsAsRead (σ : Type) (p : Pattern) : Prop :=
  ∀ s : Stream σ, ∃ reading, Reads p s.rest reading ∧ p.parser s = reading.outcome s

theorem runsAsRead_literal (token : List Char) : RunsAsRead σ (literal token) := by
  intro s
  by_cases h : token <+: s.rest
  · obtain ⟨rest, hs⟩ := h
    refine ⟨_, .literal hs.symm, map_eq_ok_iff.2 ⟨token, literal_eq_ok_iff.2 ⟨rfl, ?_⟩, rfl⟩⟩
    rw [Stream.rewind, hs]
  · refine ⟨_, .literal_failure h, ?_⟩
    rw [parser, map, literal_backtrack fun rest hs => h ⟨rest, hs.symm⟩]
    rfl

theorem runsAsRead_satisfy (accept : Char → Bool) : RunsAsRead σ (satisfy accept) := by
  rintro ⟨_ | ⟨c, rest⟩, state⟩
  · exact ⟨_, .satisfy_failure (by simp), rfl⟩
  · cases hc : accept c with
    | true => exact ⟨_, .satisfy hc, map_eq_ok_iff.2 ⟨c, satisfy_eq_ok_iff.2 ⟨hc, rfl⟩, rfl⟩⟩
    | false =>
      refine ⟨_, .satisfy_failure (by simpa using hc), ?_⟩
      simp only [parser, map, Parsing.satisfy, hc]
      rfl

variable {p q : Pattern}

theorem RunsAsRead.orElse (hp : RunsAsRead σ p) (hq : RunsAsRead σ q) :
    RunsAsRead σ (orElse p q) := by
  intro s
  obtain ⟨_ | _, hread, hrun⟩ := hp s
  · exact ⟨_, .first hread, orElse_ok hrun⟩
  · obtain ⟨reading, hread', hrun'⟩ := hq s
    exact ⟨reading, .second hread hread', (orElse_backtrack hrun).trans hrun'⟩

theorem RunsAsRead.sequence (hp : RunsAsRead σ p) (hq : RunsAsRead σ q) :
    RunsAsRead σ (sequence p q) := by
  intro s
  obtain ⟨⟨capture, rest⟩ | _, hread, hrun⟩ := hp s
  · obtain ⟨_ | _, hread', hrun'⟩ := hq (s.rewind rest)
    · refine ⟨_, .sequence hread hread', ?_⟩
      rw [parser, map, sequence_ok hrun hrun']
      rfl
    · refine ⟨_, .sequence_second hread hread', ?_⟩
      rw [parser, map, sequence_ok_backtrack hrun hrun']
      rfl
  · refine ⟨_, .sequence_first hread, ?_⟩
    rw [parser, map, sequence_backtrack hrun]
    rfl

/-- A repetition reads every text. -/
theorem Reads.success_of_many {text : List Char} {reading : Reading}
    (h : Reads (many p) text reading) :
    ∃ captures rest, reading = .success captures rest := by
  cases h <;> exact ⟨_, _, rfl⟩

theorem parser_many_ok (ha : Advancing (p.parser : Parser σ Capture)) {s t : Stream σ}
    {capture : Capture} (h : p.parser s = .ok capture t) :
    (many p).parser s = ((many p).parser t).map (.cons capture) := by
  simp only [parser, map, ha.many_ok h, Outcome.map_map]
  rfl

/-- Each round of a repetition reads on where the one before left the text, and
an advancing body leaves less of it. -/
theorem RunsAsRead.many (hp : RunsAsRead σ p) (ha : Advancing (p.parser : Parser σ Capture)) :
    RunsAsRead σ (many p) := by
  intro s
  obtain ⟨⟨capture, rest⟩ | _, hread, hrun⟩ := hp s
  · have hshorter : rest.length < s.rest.length := ha hrun
    obtain ⟨reading, hread', hrun'⟩ := RunsAsRead.many hp ha (s.rewind rest)
    obtain ⟨captures, rest', rfl⟩ := hread'.success_of_many
    refine ⟨_, .next hread hread', ?_⟩
    rw [parser_many_ok ha hrun, hrun']
    rfl
  · refine ⟨_, .stop hread, ?_⟩
    rw [parser, map, many_backtrack hrun]
    rfl
termination_by s => s.rest.length

theorem CommitFree.runsAsRead : ∀ {p : Pattern}, p.CommitFree → p.Productive → RunsAsRead σ p
  | .literal token, _, _ => runsAsRead_literal token
  | .satisfy accept, _, _ => runsAsRead_satisfy accept
  | .orElse .., hfree, hprod =>
    (hfree.1.runsAsRead hprod.1).orElse (hfree.2.runsAsRead hprod.2)
  | .sequence .., hfree, hprod =>
    (hfree.1.runsAsRead hprod.1).sequence (hfree.2.runsAsRead hprod.2)
  | .many body, hfree, hprod =>
    RunsAsRead.many (CommitFree.runsAsRead (p := body) hfree hprod.2) hprod.1.parser
  | .commit _, hfree, _ => hfree.elim

/-- A productive pattern without commitment reads every text in exactly one way,
and its runs come to that reading: none of them is cut, and one that fails
leaves the stream as it was. -/
theorem outcome_iff_reads (p : Pattern) (hfree : p.CommitFree) (hprod : p.Productive)
    (s : Stream σ) :
    (∃ reading, Reads p s.rest reading) ∧
      (∀ reading, p.parser s = reading.outcome s ↔ Reads p s.rest reading) ∧
      (∀ t, p.parser s ≠ .cut t) ∧ ∀ t, p.parser s = .backtrack t → t = s := by
  obtain ⟨reading, hread, hrun⟩ := hfree.runsAsRead hprod s
  refine ⟨⟨reading, hread⟩, fun other => ⟨fun h => ?_, fun h => ?_⟩, fun t h => ?_,
    fun t h => p.parser_steady.backtrack_eq h⟩
  · rwa [Reading.outcome_injective (h.symm.trans hrun)]
  · rw [hrun, hread.unique h]
  · rw [hrun] at h
    cases reading <;> cases h

/-- Letters, each with a sign before it or without one. Where the last sign has no
letter behind it, the repetition ends before that sign. -/
theorem outcome_iff_reads_signed :
    let signed := sequence (literal ['-']) (satisfy Char.isAlpha)
    let term := orElse (satisfy Char.isAlpha) signed
    (many term).CommitFree ∧ (many term).Productive ∧
      Reads (many term) ['a', '-', 'b', '-'] (.success
        (.cons (.text ['a']) (.cons (.pair (.text ['-']) (.text ['b'])) .nil)) ['-']) := by
  intro signed term
  have hterm : Advancing (term.parser : Parser Unit Capture) :=
    ((advancing_satisfy _).map _).orElse (advancing_literal_sequence (by decide) _)
  have hfree : (many term).CommitFree := ⟨trivial, trivial, trivial⟩
  have hprod : (many term).Productive := ⟨hterm, trivial, trivial, trivial⟩
  refine ⟨hfree, hprod, ?_⟩
  exact ((outcome_iff_reads (many term) hfree hprod ⟨_, ()⟩).2.1 _).1 (by decide +kernel)

end Pattern

end Propositional.Parsing
