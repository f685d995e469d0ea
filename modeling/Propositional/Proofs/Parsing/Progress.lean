import Propositional.Proofs.Parsing.Steady

/-!
# What a run consumes

A run reads from the front: it `LeavesSuffix` of the text it was given, however
it ends. A parser is `Advancing` if it never succeeds without having read a
character; a choice is if both its parsers are (`Advancing.orElse`), and a
sequence if its first one is (`Advancing.sequence_left`). In a repetition of an
advancing parser no success ends the repetition (`Advancing.many_ok`).
-/

namespace Propositional.Parsing

variable {σ α β : Type}

/-- However it ends, a run leaves an end of the text it was given. -/
def LeavesSuffix (p : Parser σ α) : Prop :=
  ∀ s, (p s).left.rest <:+ s.rest

/-- A run that succeeds has read a character. -/
def Advancing (p : Parser σ α) : Prop :=
  ∀ ⦃s a t⦄, p s = .ok a t → t.rest.length < s.rest.length

/-! ## Leaving an end of the text -/

theorem leavesSuffix_literal (token : List Char) : LeavesSuffix (literal token : Parser σ _) := by
  intro s
  obtain ⟨rest, hs, h⟩ | h := literal_cases token s <;> rw [h]
  · rw [hs]
    exact List.suffix_append token rest
  · exact List.suffix_refl _

theorem leavesSuffix_satisfy (accept : Char → Bool) :
    LeavesSuffix (satisfy accept : Parser σ _) := by
  rintro ⟨_ | ⟨c, rest⟩, state⟩
  · exact List.suffix_refl _
  · simp only [satisfy]
    cases accept c with
    | false => exact List.suffix_refl _
    | true => exact List.suffix_cons c rest

section

variable {p q : Parser σ α} {r : Parser σ β}

theorem LeavesSuffix.of_ok (hp : LeavesSuffix p) {s t : Stream σ} {a : α} (h : p s = .ok a t) :
    t.rest <:+ s.rest := by
  have hs := hp s
  rwa [h] at hs

theorem LeavesSuffix.of_cut (hp : LeavesSuffix p) {s t : Stream σ} (h : p s = .cut t) :
    t.rest <:+ s.rest := by
  have hs := hp s
  rwa [h] at hs

theorem LeavesSuffix.map (f : α → β) (hp : LeavesSuffix p) : LeavesSuffix (map f p) := by
  intro s
  rw [Parsing.map, Outcome.left_map]
  exact hp s

theorem LeavesSuffix.orElse (hp : LeavesSuffix p) (hq : LeavesSuffix q) :
    LeavesSuffix (orElse p q) := by
  intro s
  cases hs : p s with
  | ok a t => rw [orElse_ok hs]; exact hp.of_ok hs
  | cut t => rw [orElse_cut hs]; exact hp.of_cut hs
  | backtrack t => rw [orElse_backtrack hs]; exact hq (t.rewind s.rest)

/-- Unless it succeeds, a sequence leaves the text that it started on. -/
theorem sequence_rest (s : Stream σ) :
    (∃ ab t, sequence p r s = .ok ab t) ∨ (sequence p r s).left.rest = s.rest := by
  cases hs : p s with
  | backtrack t => rw [sequence_backtrack hs]; exact .inr rfl
  | cut t => rw [sequence_cut hs]; exact .inr rfl
  | ok a t =>
    cases ht : r t with
    | ok b u => exact .inl ⟨_, _, sequence_ok hs ht⟩
    | backtrack u => rw [sequence_ok_backtrack hs ht]; exact .inr rfl
    | cut u => rw [sequence_ok_cut hs ht]; exact .inr rfl

theorem LeavesSuffix.sequence (hp : LeavesSuffix p) (hr : LeavesSuffix r) :
    LeavesSuffix (sequence p r) := by
  intro s
  obtain ⟨ab, u, h⟩ | h := sequence_rest (p := p) (r := r) s
  · obtain ⟨t, hs, ht⟩ := sequence_eq_ok_iff.1 h
    rw [h]
    exact (hr.of_ok ht).trans (hp.of_ok hs)
  · exact ⟨[], h⟩

theorem LeavesSuffix.many (hp : LeavesSuffix p) : LeavesSuffix (many p) := by
  intro s
  cases hs : p s with
  | backtrack t => rw [many_backtrack hs]; exact List.suffix_refl _
  | cut t => rw [many_cut hs]; exact hp.of_cut hs
  | ok a t =>
    by_cases ht : t.rest.length < s.rest.length
    · rw [many_ok hs ht, Outcome.left_map]
      exact (LeavesSuffix.many hp t).trans (hp.of_ok hs)
    · rw [many_stuck hs ht]
      exact hp.of_ok hs
termination_by s => s.rest.length

theorem LeavesSuffix.commit (hp : LeavesSuffix p) : LeavesSuffix (commit p) := by
  intro s
  have hleft := hp s
  cases hs : p s with
  | ok a t => rw [commit_ok hs]; exact hp.of_ok hs
  | cut t => rw [commit_cut hs]; exact hp.of_cut hs
  | backtrack t =>
    rw [hs] at hleft
    rw [commit_backtrack hs]
    exact hleft

theorem LeavesSuffix.recursive {body : Parser σ α → Parser σ α}
    (h : ∀ p, LeavesSuffix p → LeavesSuffix (body p)) : LeavesSuffix (recursive body) :=
  recursive_induction (motive := fun s o => o.left.rest <:+ s.rest)
    (fun _ => List.suffix_refl _) h

theorem LeavesSuffix.nonGrowing (hp : LeavesSuffix p) : NonGrowing p :=
  fun s => (hp s).length_le

/-! ## Reading a character -/

theorem advancing_literal {token : List Char} (h : token ≠ []) :
    Advancing (literal token : Parser σ _) := by
  intro s value t hs
  obtain ⟨-, rfl⟩ := literal_eq_ok_iff.1 hs
  have := List.length_pos_iff.2 h
  rw [List.length_append]
  omega

theorem advancing_satisfy (accept : Char → Bool) : Advancing (satisfy accept : Parser σ _) := by
  intro s c t hs
  obtain ⟨-, rfl⟩ := satisfy_eq_ok_iff.1 hs
  exact Nat.lt_succ_self _

theorem Advancing.map (f : α → β) (hp : Advancing p) : Advancing (map f p) := by
  intro s b t hs
  obtain ⟨a, ha, -⟩ := map_eq_ok_iff.1 hs
  exact hp ha

theorem Advancing.orElse (hp : Advancing p) (hq : Advancing q) : Advancing (orElse p q) := by
  intro s a t h
  cases hs : p s with
  | ok b u => rw [orElse_ok hs] at h; cases h; exact hp hs
  | cut u => rw [orElse_cut hs] at h; cases h
  | backtrack u =>
    rw [orElse_backtrack hs] at h
    have ht := hq h
    exact ht

theorem Advancing.sequence_left (hp : Advancing p) (hr : NonGrowing r) :
    Advancing (sequence p r) := by
  intro s ab u h
  obtain ⟨t, hs, ht⟩ := sequence_eq_ok_iff.1 h
  have hst := hp hs
  have htu := hr t
  rw [ht] at htu
  exact Nat.lt_of_le_of_lt htu hst

/-! ## Repetition of an advancing parser -/

theorem Advancing.many_ok (hp : Advancing p) {s t : Stream σ} {a : α} (h : p s = .ok a t) :
    many p s = (many p t).map (a :: ·) :=
  Parsing.many_ok h (hp h)

end

end Propositional.Parsing
