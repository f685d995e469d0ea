import Propositional.Proofs.Parsing.Outcomes

/-!
# Steady parsers

A `Steady` parser that succeeds leaves the state it was given, and one that
backtracks leaves all that it was given; of a cut nothing is asked. The
combinators keep parsers steady, and so does recursion (`Steady.recursive`).
`Steady.orElse_eq_ok` and `Steady.many_induction` are how such parsers are
looked into.
-/

namespace Propositional.Parsing

variable {σ α β : Type}

/-- An outcome of a run from `s` that changed no state if it is a success, and
nothing at all if it asks for another try. -/
def Outcome.SteadyFrom (s : Stream σ) : Outcome σ α → Prop
  | ok _ t => t.state = s.state
  | backtrack t => t = s
  | cut _ => True

/-- A run that succeeds does not change the state, and one that backtracks changes nothing. -/
def Steady (p : Parser σ α) : Prop :=
  ∀ s, (p s).SteadyFrom s

variable {p q : Parser σ α} {r : Parser σ β}

theorem Steady.state_eq (hp : Steady p) {s t : Stream σ} {a : α} (h : p s = .ok a t) :
    t.state = s.state := by
  have hs := hp s
  rwa [h] at hs

theorem Steady.backtrack_eq (hp : Steady p) {s t : Stream σ} (h : p s = .backtrack t) :
    t = s := by
  have hs := hp s
  rwa [h] at hs

theorem Outcome.SteadyFrom.map {s : Stream σ} {o : Outcome σ α} (f : α → β)
    (h : o.SteadyFrom s) : (o.map f).SteadyFrom s := by
  cases o <;> exact h

theorem steady_literal (token : List Char) : Steady (literal token : Parser σ _) := by
  intro s
  obtain ⟨rest, -, hs⟩ | hs := literal_cases token s <;> rw [hs] <;> rfl

theorem steady_satisfy (accept : Char → Bool) : Steady (satisfy accept : Parser σ _) := by
  rintro ⟨_ | ⟨c, rest⟩, state⟩
  · rfl
  · simp only [satisfy]
    split <;> rfl

theorem Steady.map (f : α → β) (hp : Steady p) : Steady (map f p) :=
  fun s => (hp s).map f

/-- A choice succeeds by one of its two parsers on the stream it was given. -/
theorem Steady.orElse_eq_ok (hp : Steady p) {s t : Stream σ} {a : α}
    (h : orElse p q s = .ok a t) : p s = .ok a t ∨ q s = .ok a t := by
  cases hs : p s with
  | ok b u => rw [orElse_ok hs] at h; exact .inl h
  | cut u => rw [orElse_cut hs] at h; cases h
  | backtrack u =>
    rw [orElse_backtrack hs, hp.backtrack_eq hs] at h
    exact .inr h

theorem Steady.orElse (hp : Steady p) (hq : Steady q) : Steady (orElse p q) := by
  intro s
  cases hs : p s with
  | ok a t => rw [orElse_ok hs]; exact hp.state_eq hs
  | cut t => rw [orElse_cut hs]; trivial
  | backtrack t =>
    rw [orElse_backtrack hs, hp.backtrack_eq hs]
    exact hq s

theorem Steady.sequence (hp : Steady p) (hr : Steady r) : Steady (sequence p r) := by
  intro s
  cases hs : p s with
  | cut t => rw [sequence_cut hs]; trivial
  | backtrack t => rw [sequence_backtrack hs, hp.backtrack_eq hs]; rfl
  | ok a t =>
    have ht := hp.state_eq hs
    cases hu : r t with
    | ok b u => rw [sequence_ok hs hu]; exact (hr.state_eq hu).trans ht
    | cut u => rw [sequence_ok_cut hs hu]; trivial
    | backtrack u =>
      rw [sequence_ok_backtrack hs hu, hr.backtrack_eq hu, Stream.rewind, ht]
      rfl

/-- What holds where a repetition ends, and carries over from behind a run of
its body to before it, holds of every success of the repetition. -/
theorem Steady.many_induction (hp : Steady p) {motive : Stream σ → List α → Stream σ → Prop}
    (hend : ∀ s, motive s [] s)
    (hstep : ∀ s a t as u, p s = .ok a t → motive t as u → motive s (a :: as) u)
    {s u : Stream σ} {as : List α} (h : many p s = .ok as u) : motive s as u := by
  cases hs : p s with
  | cut t => rw [many_cut hs] at h; cases h
  | backtrack t =>
    rw [many_backtrack hs, hp.backtrack_eq hs] at h
    cases h
    exact hend s
  | ok a t =>
    by_cases ht : t.rest.length < s.rest.length
    · rw [many_ok hs ht] at h
      obtain ⟨as, has, rfl⟩ := map_eq_ok_iff.1 h
      exact hstep s a t as u hs (many_induction hp hend hstep has)
    · rw [many_stuck hs ht] at h
      cases h
termination_by s.rest.length

theorem Steady.many (hp : Steady p) : Steady (many p) := by
  intro s
  cases hs : p s with
  | cut t => rw [many_cut hs]; trivial
  | backtrack t => rw [many_backtrack hs, hp.backtrack_eq hs]; rfl
  | ok a t =>
    by_cases ht : t.rest.length < s.rest.length
    · have hm := Steady.many hp t
      rw [many_ok hs ht]
      cases h : Parsing.many p t with
      | ok as u => rw [h] at hm; exact hm.trans (hp.state_eq hs)
      | cut u => trivial
      | backtrack u => exact absurd h many_ne_backtrack
    · rw [many_stuck hs ht]
      trivial
termination_by s => s.rest.length

theorem Steady.commit (hp : Steady p) : Steady (commit p) := by
  intro s
  cases hs : p s with
  | ok a t => rw [commit_ok hs]; exact hp.state_eq hs
  | backtrack t => rw [commit_backtrack hs]; trivial
  | cut t => rw [commit_cut hs]; trivial

theorem Steady.recursive {body : Parser σ α → Parser σ α}
    (h : ∀ p, Steady p → Steady (body p)) : Steady (recursive body) :=
  recursive_induction (motive := fun s o => o.SteadyFrom s) (fun _ => trivial) h

end Propositional.Parsing
