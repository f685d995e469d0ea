import Propositional.Parsing.Recursion

/-!
# Outcomes of the combinators

When each combinator succeeds, and what it then leaves (`map_eq_ok_iff`,
`sequence_eq_ok_iff`, `literal_eq_ok_iff`), and what it does once the outcomes
of its parts are known (`orElse_ok`, `orElse_backtrack`, `sequence_ok`,
`sequence_backtrack`, `sequence_cut`, `many_ok`, `many_stuck`, `many_backtrack`,
`many_cut`, `commit_ok`, `commit_backtrack`, `commit_cut`).
-/

namespace Propositional.Parsing

variable {σ α β : Type}

@[simp]
theorem Stream.rewind_rest (s : Stream σ) : s.rewind s.rest = s := rfl

@[simp]
theorem Outcome.map_map (f : α → β) {γ : Type} (g : β → γ) (o : Outcome σ α) :
    (o.map f).map g = o.map (g ∘ f) := by
  cases o <;> rfl

/-! ## Single parsers -/

theorem literal_append (token rest : List Char) (state : σ) :
    literal token ⟨token ++ rest, state⟩ = .ok token ⟨rest, state⟩ := by
  have h : dropToken token (token ++ rest) = some rest := dropToken_eq_some_iff.2 rfl
  simp [literal, h, Stream.rewind]

theorem literal_backtrack {token : List Char} {s : Stream σ} (h : ∀ rest, s.rest ≠ token ++ rest) :
    literal token s = .backtrack s := by
  obtain ⟨rest, hs, -⟩ | hs := literal_cases token s
  · exact absurd hs (h rest)
  · exact hs

theorem literal_eq_ok_iff {token value : List Char} {s t : Stream σ} :
    literal token s = .ok value t ↔ value = token ∧ s = ⟨token ++ t.rest, t.state⟩ := by
  constructor
  · intro h
    obtain ⟨rest, hs, ho⟩ | hb := literal_cases token s
    · rw [ho, Outcome.ok.injEq] at h
      obtain ⟨rfl, rfl⟩ := h
      exact ⟨rfl, by rw [Stream.rewind, ← hs]⟩
    · rw [hb] at h
      cases h
  · rintro ⟨rfl, rfl⟩
    exact literal_append _ _ _

theorem literal_ne_cut {token : List Char} {s t : Stream σ} : literal token s ≠ .cut t := by
  intro h
  obtain ⟨rest, -, ho⟩ | hb := literal_cases token s
  · rw [ho] at h; cases h
  · rw [hb] at h; cases h

theorem satisfy_eq_ok_iff {accept : Char → Bool} {s t : Stream σ} {c : Char} :
    satisfy accept s = .ok c t ↔ accept c ∧ s = ⟨c :: t.rest, t.state⟩ := by
  obtain ⟨_ | ⟨d, rest⟩, state⟩ := s
  · simp [satisfy]
  · constructor
    · intro h
      cases hd : accept d <;> simp only [satisfy, hd] at h <;> cases h
      exact ⟨hd, rfl⟩
    · rintro ⟨hc, h⟩
      cases h
      simp only [satisfy, hc]
      rfl

theorem satisfy_ne_cut {accept : Char → Bool} {s t : Stream σ} : satisfy accept s ≠ .cut t := by
  obtain ⟨_ | ⟨c, rest⟩, state⟩ := s
  · simp [satisfy]
  · cases h : accept c <;> simp [satisfy, h]

theorem map_eq_ok_iff {f : α → β} {p : Parser σ α} {s t : Stream σ} {b : β} :
    map f p s = .ok b t ↔ ∃ a, p s = .ok a t ∧ f a = b := by
  rw [map]
  cases p s with
  | ok v left =>
    simp only [Outcome.map, Outcome.ok.injEq]
    exact ⟨fun ⟨hb, ht⟩ => ⟨v, ⟨rfl, ht⟩, hb⟩, fun ⟨_, ⟨hv, ht⟩, hb⟩ => ⟨hv ▸ hb, ht⟩⟩
  | backtrack left => simp [Outcome.map]
  | cut left => simp [Outcome.map]

theorem map_eq_cut_iff {f : α → β} {p : Parser σ α} {s t : Stream σ} :
    map f p s = .cut t ↔ p s = .cut t := by
  rw [map]
  cases p s <;> simp [Outcome.map]

/-! ## Choice -/

variable {p q : Parser σ α} {s t u : Stream σ} {a : α}

theorem orElse_ok (h : p s = .ok a t) : orElse p q s = .ok a t := by
  rw [orElse, h]

theorem orElse_cut (h : p s = .cut t) : orElse p q s = .cut t := by
  rw [orElse, h]

theorem orElse_backtrack (h : p s = .backtrack t) : orElse p q s = q (t.rewind s.rest) := by
  rw [orElse, h]

/-! ## Sequence -/

variable {r : Parser σ β} {b : β}

theorem sequence_ok (h : p s = .ok a t) (h' : r t = .ok b u) :
    sequence p r s = .ok (a, b) u := by
  rw [sequence, h]
  simp only [h']

theorem sequence_backtrack (h : p s = .backtrack t) :
    sequence p r s = .backtrack (t.rewind s.rest) := by
  rw [sequence, h]

theorem sequence_cut (h : p s = .cut t) : sequence p r s = .cut (t.rewind s.rest) := by
  rw [sequence, h]

theorem sequence_ok_backtrack (h : p s = .ok a t) (h' : r t = .backtrack u) :
    sequence p r s = .backtrack (u.rewind s.rest) := by
  rw [sequence, h]
  simp only [h']

theorem sequence_ok_cut (h : p s = .ok a t) (h' : r t = .cut u) :
    sequence p r s = .cut (u.rewind s.rest) := by
  rw [sequence, h]
  simp only [h']

theorem sequence_eq_ok_iff {ab : α × β} :
    sequence p r s = .ok ab u ↔ ∃ t, p s = .ok ab.1 t ∧ r t = .ok ab.2 u := by
  constructor
  · intro h
    cases hp : p s with
    | backtrack t => rw [sequence_backtrack hp] at h; cases h
    | cut t => rw [sequence_cut hp] at h; cases h
    | ok a t =>
      cases hr : r t with
      | backtrack u => rw [sequence_ok_backtrack hp hr] at h; cases h
      | cut u => rw [sequence_ok_cut hp hr] at h; cases h
      | ok b u =>
        rw [sequence_ok hp hr, Outcome.ok.injEq] at h
        obtain ⟨rfl, rfl⟩ := h
        exact ⟨t, rfl, hr⟩
  · rintro ⟨t, hp, hr⟩
    exact sequence_ok hp hr

/-- A sequence is cut where one of its two parsers is. -/
theorem sequence_eq_cut (h : sequence p r s = .cut u) :
    (∃ t, p s = .cut t) ∨ ∃ a t v, p s = .ok a t ∧ r t = .cut v := by
  cases hp : p s with
  | backtrack t => rw [sequence_backtrack hp] at h; cases h
  | cut t => exact .inl ⟨t, rfl⟩
  | ok a t =>
    cases hr : r t with
    | ok b v => rw [sequence_ok hp hr] at h; cases h
    | backtrack v => rw [sequence_ok_backtrack hp hr] at h; cases h
    | cut v => exact .inr ⟨a, t, v, rfl, hr⟩

/-! ## Repetition -/

theorem many_backtrack (h : p s = .backtrack t) : many p s = .ok [] (t.rewind s.rest) := by
  rw [many, h]

theorem many_cut (h : p s = .cut t) : many p s = .cut t := by
  rw [many, h]

theorem many_ok (h : p s = .ok a t) (ht : t.rest.length < s.rest.length) :
    many p s = (many p t).map (a :: ·) := by
  rw [many, h]
  exact dif_pos ht

theorem many_stuck (h : p s = .ok a t) (ht : ¬ t.rest.length < s.rest.length) :
    many p s = .cut t := by
  rw [many, h]
  exact dif_neg ht

/-- A repetition succeeds with what there is where its body asks for another try. -/
theorem many_ne_backtrack {s t : Stream σ} : many p s ≠ .backtrack t := by
  intro h
  cases hs : p s with
  | cut u => rw [many_cut hs] at h; cases h
  | backtrack u => rw [many_backtrack hs] at h; cases h
  | ok a u =>
    by_cases hu : u.rest.length < s.rest.length
    · rw [many_ok hs hu] at h
      cases hm : many p u with
      | ok as v => rw [hm] at h; cases h
      | cut v => rw [hm] at h; cases h
      | backtrack v => exact many_ne_backtrack hm
    · rw [many_stuck hs hu] at h
      cases h
termination_by s.rest.length

/-! ## Commitment -/

theorem commit_ok (h : p s = .ok a t) : commit p s = .ok a t := by
  rw [commit, h]

theorem commit_backtrack (h : p s = .backtrack t) : commit p s = .cut t := by
  rw [commit, h]

theorem commit_cut (h : p s = .cut t) : commit p s = .cut t := by
  rw [commit, h]

end Propositional.Parsing
