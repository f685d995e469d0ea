import Mathlib.Data.List.Basic
import Mathlib.Logic.Relation
import Propositional.Proofs.Parsing.Productive

/-!
# Cuts

A `Run` is a pattern and the stream it is run on. `Calls` says which runs a run
makes of the parts of its pattern, and `Executes` which runs it is made of
altogether. A cut is passed on by every run that executes it
(`isCut_of_executes`), and it comes from nowhere but a commitment whose body
backtracked (`exists_executes_givesUp`). `Disciplined` collects what this and
the text that is left say of one run, and `runs_disciplined` what it comes to
for several runs in a row: each begins where the ones before it stopped
(`getElem?_runs`), and the text they consumed and the text they left are the text
they were given (`flatten_pieces`).
-/

namespace Propositional.Parsing

variable {σ α β : Type}

namespace Outcome

def IsCut (o : Outcome σ α) : Prop :=
  ∃ t, o = .cut t

theorem isCut_map {f : α → β} {o : Outcome σ α} : (o.map f).IsCut ↔ o.IsCut := by
  cases o <;> simp [IsCut, map]

end Outcome

/-- A repetition of `p` from `s` runs `p` on `t`: on `s` itself, and on what
each success leaves. -/
inductive Tries (p : Parser σ α) : Stream σ → Stream σ → Prop
  | first (s : Stream σ) : Tries p s s
  | again {s t u : Stream σ} {a : α} : p s = .ok a t → Tries p t u → Tries p s u

/-- A repetition is cut where one of the runs of its body is. -/
theorem Tries.many_isCut {p : Parser σ α} {s t : Stream σ} (h : Tries p s t)
    (ht : (p t).IsCut) : (many p s).IsCut := by
  induction h with
  | first s =>
    obtain ⟨u, hu⟩ := ht
    exact ⟨u, many_cut hu⟩
  | @again s t _ _ hs _ ih =>
    by_cases hlt : t.rest.length < s.rest.length
    · rw [many_ok hs hlt]
      exact Outcome.isCut_map.2 (ih ht)
    · exact ⟨t, many_stuck hs hlt⟩

/-- A repetition that advances is cut only where one of the runs of its body is. -/
theorem Advancing.exists_tries {p : Parser σ α} (hp : Advancing p) {s : Stream σ}
    (h : (many p s).IsCut) : ∃ t, Tries p s t ∧ (p t).IsCut := by
  cases hs : p s with
  | cut t => exact ⟨s, .first s, t, hs⟩
  | backtrack t =>
    obtain ⟨u, hu⟩ := h
    rw [many_backtrack hs] at hu
    cases hu
  | ok a t =>
    have hlt := hp hs
    rw [hp.many_ok hs] at h
    obtain ⟨u, htu, hu⟩ := exists_tries hp (Outcome.isCut_map.1 h)
    exact ⟨u, .again hs htu, hu⟩
termination_by s.rest.length

namespace Pattern

/-- A pattern and the stream that its parser is run on. -/
structure Run (σ : Type) where
  pattern : Pattern
  start : Stream σ

namespace Run

def outcome (r : Run σ) : Outcome σ Capture :=
  r.pattern.parser r.start

abbrev IsCut (r : Run σ) : Prop :=
  r.outcome.IsCut

/-- The run of a part that a run makes. -/
inductive Calls : Run σ → Run σ → Prop
  | first {p q s} : Calls ⟨orElse p q, s⟩ ⟨p, s⟩
  | second {p q s t} : p.parser s = .backtrack t → Calls ⟨orElse p q, s⟩ ⟨q, t.rewind s.rest⟩
  | head {p q s} : Calls ⟨sequence p q, s⟩ ⟨p, s⟩
  | tail {p q s capture t} : p.parser s = .ok capture t → Calls ⟨sequence p q, s⟩ ⟨q, t⟩
  | round {p s t} : Tries p.parser s t → Calls ⟨many p, s⟩ ⟨p, t⟩
  | inside {p s} : Calls ⟨commit p, s⟩ ⟨p, s⟩

/-- The run itself, the runs that it calls, those that they call, and so on. -/
abbrev Executes : Run σ → Run σ → Prop :=
  Relation.ReflTransGen Calls

/-- A commitment whose body backtracks. -/
def GivesUp (r : Run σ) : Prop :=
  ∃ body t, r.pattern = commit body ∧ body.parser r.start = .backtrack t

/-! ## Where a cut goes -/

theorem isCut_of_calls {r q : Run σ} (h : Calls r q) (hq : q.IsCut) : r.IsCut := by
  cases h with
  | first =>
    obtain ⟨u, hu⟩ := hq
    exact ⟨u, orElse_cut hu⟩
  | second hs =>
    obtain ⟨u, hu⟩ := hq
    exact ⟨u, (orElse_backtrack hs).trans hu⟩
  | head =>
    obtain ⟨u, hu⟩ := hq
    exact ⟨_, map_eq_cut_iff.2 (sequence_cut hu)⟩
  | tail hs =>
    obtain ⟨u, hu⟩ := hq
    exact ⟨_, map_eq_cut_iff.2 (sequence_ok_cut hs hu)⟩
  | round ht => exact Outcome.isCut_map.2 (ht.many_isCut hq)
  | inside =>
    obtain ⟨u, hu⟩ := hq
    exact ⟨u, commit_cut hu⟩

/-- No run turns the cut of a run that it executes into anything else. -/
theorem isCut_of_executes {r q : Run σ} (h : Executes r q) (hq : q.IsCut) : r.IsCut := by
  induction h using Relation.ReflTransGen.head_induction_on with
  | refl => exact hq
  | head hcalls _ ih => exact isCut_of_calls hcalls ih

theorem GivesUp.isCut {r : Run σ} (h : r.GivesUp) : r.IsCut := by
  obtain ⟨body, t, hr, hbody⟩ := h
  rw [IsCut, outcome, hr]
  exact ⟨t, commit_backtrack hbody⟩

/-! ## Where a cut comes from -/

/-- A run that is cut either gives up itself or calls a run that is cut. -/
theorem IsCut.calls {p : Pattern} (hp : p.Productive) {s : Stream σ} (h : IsCut ⟨p, s⟩) :
    GivesUp ⟨p, s⟩ ∨ ∃ q, Calls ⟨p, s⟩ q ∧ q.IsCut := by
  obtain ⟨u, hu⟩ := h
  cases p with
  | literal token => exact absurd (map_eq_cut_iff.1 hu) literal_ne_cut
  | satisfy accept => exact absurd (map_eq_cut_iff.1 hu) satisfy_ne_cut
  | orElse p q =>
    cases hs : p.parser s with
    | ok capture t => cases (orElse_ok hs).symm.trans hu
    | cut t => exact .inr ⟨_, .first, t, hs⟩
    | backtrack t => exact .inr ⟨_, .second hs, u, (orElse_backtrack hs).symm.trans hu⟩
  | sequence p q =>
    obtain ⟨t, ht⟩ | ⟨capture, t, v, hs, ht⟩ := sequence_eq_cut (map_eq_cut_iff.1 hu)
    · exact .inr ⟨_, .head, t, ht⟩
    · exact .inr ⟨_, .tail hs, v, ht⟩
  | many body =>
    obtain ⟨t, hst, ht⟩ := hp.1.parser.exists_tries ⟨u, map_eq_cut_iff.1 hu⟩
    exact .inr ⟨_, .round hst, ht⟩
  | commit body =>
    cases hs : body.parser s with
    | ok capture t => cases (commit_ok hs).symm.trans hu
    | cut t => exact .inr ⟨_, .inside, t, hs⟩
    | backtrack t => exact .inl ⟨body, t, rfl, hs⟩

theorem Calls.productive {r q : Run σ} (h : Calls r q) (hr : r.pattern.Productive) :
    q.pattern.Productive := by
  cases h with
  | first => exact hr.1
  | second => exact hr.2
  | head => exact hr.1
  | tail => exact hr.2
  | round => exact hr.2
  | inside => exact hr

theorem Calls.sizeOf_lt {r q : Run σ} (h : Calls r q) : sizeOf q.pattern < sizeOf r.pattern := by
  cases h <;> simp only [orElse.sizeOf_spec, sequence.sizeOf_spec, many.sizeOf_spec,
    commit.sizeOf_spec] <;> omega

/-- A run that is cut executes one that gives up: no cut comes without a commitment. -/
theorem exists_executes_givesUp {r : Run σ} (hr : r.pattern.Productive) (h : r.IsCut) :
    ∃ q, Executes r q ∧ q.GivesUp := by
  obtain hgives | ⟨q, hcalls, hq⟩ := IsCut.calls hr h
  · exact ⟨r, .refl, hgives⟩
  · have hsmaller := hcalls.sizeOf_lt
    obtain ⟨u, hexec, hu⟩ := exists_executes_givesUp (hcalls.productive hr) hq
    exact ⟨u, .head hcalls hexec, hu⟩
termination_by sizeOf r.pattern

/-! ## Runs under discipline -/

/-- What holds of the outcome of a run: where it leaves the text, and when it is cut. -/
structure Disciplined (r : Run σ) : Prop where
  /-- However the run ends, it leaves an end of its text. -/
  rest_suffix : r.outcome.left.rest <:+ r.start.rest
  /-- A run that backtracks leaves all that it was given. -/
  backtrack_left : ∀ t, r.outcome = .backtrack t → t = r.start
  /-- A sequence that is executed and fails, by a cut or not, leaves its text. -/
  sequence_rest : ∀ p q s, Executes r ⟨sequence p q, s⟩ →
    (∃ capture t, outcome ⟨sequence p q, s⟩ = .ok capture t) ∨
      (outcome ⟨sequence p q, s⟩).left.rest = s.rest
  /-- A cut of a run that is executed is not turned into anything else. -/
  isCut_of_executes : ∀ q, Executes r q → q.IsCut → r.IsCut
  /-- A cut comes from a commitment that is executed and whose body backtracks. -/
  isCut_iff : r.IsCut ↔ ∃ q, Executes r q ∧ q.GivesUp

theorem sequence_ok_or_rest (p q : Pattern) (s : Stream σ) :
    (∃ capture t, outcome ⟨sequence p q, s⟩ = .ok capture t) ∨
      (outcome ⟨sequence p q, s⟩).left.rest = s.rest := by
  have hleft : (outcome ⟨sequence p q, s⟩).left =
      (Parsing.sequence p.parser q.parser s).left := Outcome.left_map _ _
  rw [hleft]
  refine (Parsing.sequence_rest s).imp_left ?_
  rintro ⟨captures, t, h⟩
  exact ⟨_, t, map_eq_ok_iff.2 ⟨captures, h, rfl⟩⟩

theorem disciplined {r : Run σ} (hr : r.pattern.Productive) : Disciplined r where
  rest_suffix := r.pattern.parser_leavesSuffix r.start
  backtrack_left _ h := r.pattern.parser_steady.backtrack_eq h
  sequence_rest p q s _ := sequence_ok_or_rest p q s
  isCut_of_executes _ := isCut_of_executes
  isCut_iff := ⟨exists_executes_givesUp hr,
    fun ⟨_, hexec, hgives⟩ => isCut_of_executes hexec hgives.isCut⟩

end Run

/-! ## Runs in a row -/

/-- The text that each run consumed, the first of them from `s`. -/
def pieces (s : Stream σ) : List (Outcome σ Capture) → List (List Char)
  | [] => []
  | o :: outcomes =>
    s.rest.take (s.rest.length - o.left.rest.length) :: pieces o.left outcomes

/-- The stream that the last run leaves. -/
def leftBy (s : Stream σ) (outcomes : List (Outcome σ Capture)) : Stream σ :=
  outcomes.foldl (fun _ o => o.left) s

/-- There is one outcome for each pattern, also after a failure, and it is the outcome of a run
from the stream that the runs before it leave. -/
theorem getElem?_runs (patterns : List Pattern) (s : Stream σ) (k : Nat) :
    (runs patterns s)[k]? =
      patterns[k]?.map fun p => Run.outcome ⟨p, leftBy s ((runs patterns s).take k)⟩ := by
  induction patterns generalizing s k with
  | nil => rfl
  | cons p patterns ih =>
    cases k with
    | zero => rfl
    | succ k =>
      rw [runs, List.getElem?_cons_succ, List.getElem?_cons_succ, ih]
      rfl

theorem length_runs (patterns : List Pattern) (s : Stream σ) :
    (runs patterns s).length = patterns.length := by
  induction patterns generalizing s with
  | nil => rfl
  | cons p patterns ih => rw [runs, List.length_cons, List.length_cons, ih]

/-- The texts that runs consume and the text that they leave are the text they were given. -/
theorem flatten_pieces (patterns : List Pattern) (s : Stream σ) :
    (pieces s (runs patterns s)).flatten ++ (leftBy s (runs patterns s)).rest = s.rest := by
  induction patterns generalizing s with
  | nil => rfl
  | cons p patterns ih =>
    have hleft := List.suffix_iff_eq_drop.1 (p.parser_leavesSuffix s)
    rw [runs, pieces, List.flatten_cons, List.append_assoc]
    calc s.rest.take _ ++ _ = s.rest.take _ ++ (p.parser s).left.rest :=
          congrArg (_ ++ ·) (ih (p.parser s).left)
      _ = s.rest.take _ ++ s.rest.drop _ := congrArg (_ ++ ·) hleft
      _ = s.rest := List.take_append_drop ..

/-- Productive patterns run under discipline, each of them on any stream. In a row
each of them is run once, on the stream that those before it leave, whether they
failed or not, and together they consume and leave the text that they are given. -/
theorem runs_disciplined (patterns : List Pattern) (h : ∀ p ∈ patterns, p.Productive)
    (s : Stream σ) :
    (∀ p ∈ patterns, ∀ t : Stream σ, Run.Disciplined ⟨p, t⟩) ∧
      (runs patterns s).length = patterns.length ∧
      (∀ (k : Nat) (p : Pattern), patterns[k]? = some p →
        (runs patterns s)[k]? = some (p.parser (leftBy s ((runs patterns s).take k)))) ∧
      (pieces s (runs patterns s)).flatten ++ (leftBy s (runs patterns s)).rest = s.rest := by
  refine ⟨fun p hp _ => Run.disciplined (h p hp), length_runs patterns s, fun k p hp => ?_,
    flatten_pieces patterns s⟩
  rw [getElem?_runs, hp]
  rfl

/-- Signed letters, where a sign without a letter is a cut, and then a sign: of `-a-1` the
repetition consumes `-a`, and the sequence that is cut gives back its sign, which the run
behind it reads. -/
theorem runs_disciplined_signed :
    let signed := sequence (literal ['-']) (commit (satisfy Char.isAlpha))
    let patterns := [many signed, literal ['-']]
    let s : Stream Unit := ⟨['-', 'a', '-', '1'], ()⟩
    (∀ p ∈ patterns, p.Productive) ∧
      runs patterns s = [.cut ⟨['-', '1'], ()⟩, .ok (.text ['-']) ⟨['1'], ()⟩] ∧
      (∃ q, Run.Executes ⟨many signed, s⟩ q ∧ q.GivesUp) ∧
      pieces s (runs patterns s) = [['-', 'a'], ['-']] ∧
      (leftBy s (runs patterns s)).rest = ['1'] := by
  intro signed patterns s
  have hadvancing : Advancing (signed.parser : Parser Unit Capture) :=
    advancing_literal_sequence (by decide) _
  have hprod : ∀ p ∈ patterns, p.Productive :=
    List.forall_mem_cons.2 ⟨⟨hadvancing, trivial, trivial⟩, List.forall_mem_singleton.2 trivial⟩
  obtain ⟨hdisciplined, hlength, hruns, -⟩ := runs_disciplined patterns hprod s
  have hcut : (many signed).parser s = .cut ⟨['-', '1'], ()⟩ := by decide +kernel
  have houtcomes : runs patterns s =
      [.cut ⟨['-', '1'], ()⟩, .ok (.text ['-']) ⟨['1'], ()⟩] := by
    obtain ⟨first, second, hlist⟩ := List.length_eq_two.1 hlength
    rw [hlist] at hruns ⊢
    obtain rfl : first = .cut ⟨['-', '1'], ()⟩ := (Option.some.inj (hruns 0 _ rfl)).trans hcut
    obtain rfl : second = .ok (.text ['-']) ⟨['1'], ()⟩ := Option.some.inj (hruns 1 _ rfl)
    rfl
  have hcommits := (hdisciplined _ List.mem_cons_self s).isCut_iff.1 ⟨_, hcut⟩
  rw [houtcomes]
  exact ⟨hprod, rfl, hcommits, rfl, rfl⟩

end Pattern

end Propositional.Parsing
