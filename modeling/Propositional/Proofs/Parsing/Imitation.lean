import Propositional.Proofs.Parsing.Outcomes

/-!
# Parsers that run alike

A parser `Imitates` another if, on the same text, it ends as the other does,
with the same value and the same text left, unless it is cut. The two may keep
states of different kinds, and of the states nothing is asked. The combinators
keep imitation, and so does recursion (`Imitates.recursive`).
-/

namespace Propositional.Parsing

variable {σ τ α β : Type}

/-- The outcomes agree in all but the states, or the first is a cut. -/
inductive Outcome.Imitates : Outcome σ α → Outcome τ α → Prop
  | ok {a s t} : s.rest = t.rest → Imitates (.ok a s) (.ok a t)
  | backtrack {s t} : s.rest = t.rest → Imitates (.backtrack s) (.backtrack t)
  | cut {s o} : Imitates (.cut s) o

/-- Unless it is cut, `p` runs as `q` does on the same text. -/
def Imitates (p : Parser σ α) (q : Parser τ α) : Prop :=
  ∀ s t, s.rest = t.rest → (p s).Imitates (q t)

variable {p : Parser σ α} {q : Parser τ α} {p' : Parser σ β} {q' : Parser τ β}

theorem Imitates.ok (h : Imitates p q) {s u : Stream σ} {t : Stream τ} {a : α}
    (hst : s.rest = t.rest) (hs : p s = .ok a u) : ∃ v, q t = .ok a v ∧ u.rest = v.rest := by
  have ho := h s t hst
  rw [hs] at ho
  cases hq : q t <;> rw [hq] at ho <;> cases ho
  exact ⟨_, rfl, ‹_›⟩

theorem Imitates.backtrack (h : Imitates p q) {s u : Stream σ} {t : Stream τ}
    (hst : s.rest = t.rest) (hs : p s = .backtrack u) :
    ∃ v, q t = .backtrack v ∧ u.rest = v.rest := by
  have ho := h s t hst
  rw [hs] at ho
  cases hq : q t <;> rw [hq] at ho <;> cases ho
  exact ⟨_, rfl, ‹_›⟩

/-! ## Single parsers -/

theorem imitates_literal (token : List Char) :
    Imitates (literal token : Parser σ _) (literal token : Parser τ _) := by
  intro s t hst
  simp only [literal, hst]
  cases dropToken token t.rest with
  | none => exact .backtrack hst
  | some rest => exact .ok rfl

theorem imitates_satisfy (accept : Char → Bool) :
    Imitates (satisfy accept : Parser σ _) (satisfy accept : Parser τ _) := by
  rintro ⟨text, state⟩ ⟨_, state'⟩ rfl
  cases text with
  | nil => exact .backtrack rfl
  | cons c rest =>
    simp only [satisfy]
    cases accept c with
    | false => exact .backtrack rfl
    | true => exact .ok rfl

/-! ## Combinators -/

theorem Outcome.Imitates.map (f : α → β) {o : Outcome σ α} {o' : Outcome τ α}
    (h : o.Imitates o') : (o.map f).Imitates (o'.map f) := by
  cases h with
  | ok hr => exact .ok hr
  | backtrack hr => exact .backtrack hr
  | cut => exact .cut

theorem Outcome.Imitates.mapState (f : σ → σ) (g : τ → τ) {o : Outcome σ α} {o' : Outcome τ α}
    (h : o.Imitates o') : (o.mapState f).Imitates (o'.mapState g) := by
  cases h with
  | ok hr => exact .ok hr
  | backtrack hr => exact .backtrack hr
  | cut => exact .cut

theorem Imitates.map (f : α → β) (h : Imitates p q) : Imitates (map f p) (map f q) :=
  fun s t hst => (h s t hst).map f

theorem Imitates.orElse {r : Parser σ α} {r' : Parser τ α} (h : Imitates p q)
    (h' : Imitates r r') : Imitates (orElse p r) (orElse q r') := by
  intro s t hst
  cases hs : p s with
  | cut u => rw [orElse_cut hs]; exact .cut
  | ok a u =>
    obtain ⟨v, ht, huv⟩ := h.ok hst hs
    rw [orElse_ok hs, orElse_ok ht]
    exact .ok huv
  | backtrack u =>
    obtain ⟨v, ht, -⟩ := h.backtrack hst hs
    rw [orElse_backtrack hs, orElse_backtrack ht]
    exact h' _ _ hst

theorem Imitates.sequence (h : Imitates p q) (h' : Imitates p' q') :
    Imitates (sequence p p') (sequence q q') := by
  intro s t hst
  cases hs : p s with
  | cut u => rw [sequence_cut hs]; exact .cut
  | backtrack u =>
    obtain ⟨v, ht, -⟩ := h.backtrack hst hs
    rw [sequence_backtrack hs, sequence_backtrack ht]
    exact .backtrack hst
  | ok a u =>
    obtain ⟨v, ht, huv⟩ := h.ok hst hs
    cases hu : p' u with
    | cut w => rw [sequence_ok_cut hs hu]; exact .cut
    | backtrack w =>
      obtain ⟨x, hv, -⟩ := h'.backtrack huv hu
      rw [sequence_ok_backtrack hs hu, sequence_ok_backtrack ht hv]
      exact .backtrack hst
    | ok b w =>
      obtain ⟨x, hv, hwx⟩ := h'.ok huv hu
      rw [sequence_ok hs hu, sequence_ok ht hv]
      exact .ok hwx

theorem Imitates.many (h : Imitates p q) : Imitates (many p) (many q) := by
  intro s t hst
  cases hs : p s with
  | cut u => rw [many_cut hs]; exact .cut
  | backtrack u =>
    obtain ⟨v, ht, -⟩ := h.backtrack hst hs
    rw [many_backtrack hs, many_backtrack ht]
    exact .ok hst
  | ok a u =>
    obtain ⟨v, ht, huv⟩ := h.ok hst hs
    by_cases hu : u.rest.length < s.rest.length
    · rw [many_ok hs hu, many_ok ht (huv ▸ hst ▸ hu)]
      exact (Imitates.many h u v huv).map _
    · rw [many_stuck hs hu]
      exact .cut
termination_by s => s.rest.length

theorem Imitates.commit (h : Imitates p q) : Imitates (commit p) (commit q) := by
  intro s t hst
  cases hs : p s with
  | cut u => rw [commit_cut hs]; exact .cut
  | backtrack u => rw [commit_backtrack hs]; exact .cut
  | ok a u =>
    obtain ⟨v, ht, huv⟩ := h.ok hst hs
    rw [commit_ok hs, commit_ok ht]
    exact .ok huv

/-- Two recursive parsers run alike if their bodies do on parsers that run alike. -/
theorem Imitates.recursive {body : Parser σ α → Parser σ α} {body' : Parser τ α → Parser τ α}
    (h : ∀ p q, Imitates p q → Imitates (body p) (body' q)) :
    Imitates (recursive body) (recursive body') := by
  intro s t hst
  rw [recursive_eq_below, recursive_eq_below]
  refine h _ _ (fun u v huv => ?_) s t hst
  simp only [below]
  by_cases hu : u.rest.length < s.rest.length
  · rw [if_pos hu, if_pos (huv ▸ hst ▸ hu)]
    exact Imitates.recursive h u v huv
  · rw [if_neg hu]
    exact .cut
termination_by s => s.rest.length

end Propositional.Parsing
