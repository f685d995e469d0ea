import Mathlib.Logic.Equiv.Prod
import Propositional.Proofs.Parsing.Cuts

/-!
# The algebra of choice and sequence

Choice is associative (`orElse_assoc`), and so is sequence, up to how the pairs nest
(`sequence_assoc`). A sequence that ends in a choice is a choice of two sequences, which
have their first part in common (`sequence_orElse`), provided that what the parts note in
the state before they ask for another try is not seen when they are run again: they
keep their state (`KeepsState`). All parsers of a plain text do, since there is no state to
note anything in (`keepsState_unit`).

The laws are equations between parsers: on every stream both sides end in the same way,
with the same value, and leave the same.
-/

namespace Propositional.Parsing

variable {σ α β γ : Type}

/-! ## Choice -/

/-- However a choice of three is grouped, each parser is run where the first of them was,
once those before it asked for another try. -/
theorem orElse_assoc (p q r : Parser σ α) :
    orElse (orElse p q) r = orElse p (orElse q r) := by
  funext s
  cases hs : p s with
  | ok a t => rw [orElse_ok (orElse_ok hs), orElse_ok hs]
  | cut t => rw [orElse_cut (orElse_cut hs), orElse_cut hs]
  | backtrack t =>
    -- What `q` is run on is the same on both sides; the rest of `s` is its rest, too.
    have hpq : orElse p q s = q (t.rewind s.rest) := orElse_backtrack hs
    rw [orElse_backtrack hs]
    cases ht : q (t.rewind s.rest) with
    | ok a u => rw [orElse_ok (hpq.trans ht), orElse_ok ht]
    | cut u => rw [orElse_cut (hpq.trans ht), orElse_cut ht]
    | backtrack u =>
      rw [orElse_backtrack (hpq.trans ht), orElse_backtrack ht]
      rfl

/-! ## Sequence -/

/-- However a sequence of three is grouped, a failure of any of them leaves the text that
the first of them was given. -/
theorem sequence_assoc (p : Parser σ α) (q : Parser σ β) (r : Parser σ γ) :
    map (Equiv.prodAssoc α β γ) (sequence (sequence p q) r) = sequence p (sequence q r) := by
  funext s
  rw [map]
  cases hs : p s with
  | backtrack t => rw [sequence_backtrack (sequence_backtrack hs), sequence_backtrack hs]; rfl
  | cut t => rw [sequence_cut (sequence_cut hs), sequence_cut hs]; rfl
  | ok a t =>
    cases ht : q t with
    | backtrack u =>
      rw [sequence_backtrack (sequence_ok_backtrack hs ht),
        sequence_ok_backtrack hs (sequence_backtrack ht)]
      rfl
    | cut u =>
      rw [sequence_cut (sequence_ok_cut hs ht), sequence_ok_cut hs (sequence_cut ht)]
      rfl
    | ok b u =>
      have hpq : sequence p q s = .ok (a, b) u := sequence_ok hs ht
      cases hu : r u with
      | ok c v => rw [sequence_ok hpq hu, sequence_ok hs (sequence_ok ht hu)]; rfl
      | backtrack v =>
        rw [sequence_ok_backtrack hpq hu, sequence_ok_backtrack hs (sequence_ok_backtrack ht hu)]
        rfl
      | cut v =>
        rw [sequence_ok_cut hpq hu, sequence_ok_cut hs (sequence_ok_cut ht hu)]
        rfl

/-! ## Sequence over choice -/

/-- A run that is not cut leaves the state that it was given. -/
def KeepsState (p : Parser σ α) : Prop :=
  ∀ s, (p s).IsCut ∨ (p s).left.state = s.state

/-- Beside a plain text there is no state. -/
theorem keepsState_unit (p : Parser Unit α) : KeepsState p :=
  fun _ => .inr rfl

theorem KeepsState.of_ok {p : Parser σ α} (hp : KeepsState p) {s t : Stream σ} {a : α}
    (h : p s = .ok a t) : t.state = s.state := by
  obtain ⟨u, hu⟩ | hs := hp s
  · rw [h] at hu; cases hu
  · rwa [h] at hs

theorem KeepsState.of_backtrack {p : Parser σ α} (hp : KeepsState p) {s t : Stream σ}
    (h : p s = .backtrack t) : t.rewind s.rest = s := by
  obtain ⟨u, hu⟩ | hs := hp s
  · rw [h] at hu; cases hu
  · rw [h] at hs
    rw [Stream.rewind, show t.state = s.state from hs]

/-- After `p`, to choose between `q` and `r` is to choose between two sequences: where `q`
asks for another try, `p` is run again, and on the stream of before. -/
theorem sequence_orElse {p : Parser σ α} {q : Parser σ β} (hp : KeepsState p)
    (hq : KeepsState q) (r : Parser σ β) :
    sequence p (orElse q r) = orElse (sequence p q) (sequence p r) := by
  funext s
  cases hs : p s with
  | cut t => rw [sequence_cut hs, orElse_cut (sequence_cut hs)]
  | backtrack t =>
    have hpq : sequence p q s = .backtrack (t.rewind s.rest) := sequence_backtrack hs
    rw [sequence_backtrack hs, orElse_backtrack hpq, hp.of_backtrack hs, Stream.rewind_rest,
      sequence_backtrack hs, hp.of_backtrack hs]
  | ok a t =>
    cases ht : q t with
    | ok b u => rw [sequence_ok hs (orElse_ok ht), orElse_ok (sequence_ok hs ht)]
    | cut u => rw [sequence_ok_cut hs (orElse_cut ht), orElse_cut (sequence_ok_cut hs ht)]
    | backtrack u =>
      have hqr : orElse q r t = r t := by rw [orElse_backtrack ht, hq.of_backtrack ht]
      have hu : (u.rewind s.rest).rewind s.rest = s := by
        rw [Stream.rewind, Stream.rewind, show u.state = s.state from ?_]
        rw [← hp.of_ok hs, ← congrArg Stream.state (hq.of_backtrack ht)]
        rfl
      rw [orElse_backtrack (sequence_ok_backtrack hs ht), hu]
      simp only [sequence, hs, hqr]

-- What `p` notes must be kept from a second run of it: here `p` counts its runs, and `r`
-- asks how many there were.
example :
    let p : Parser Nat Unit := fun s => .ok () { s with state := s.state + 1 }
    let r : Parser Nat Unit := fun s => if s.state = 1 then .ok () s else .backtrack s
    sequence p (orElse .backtrack r) ⟨[], 0⟩ ≠
      orElse (sequence p .backtrack) (sequence p r) ⟨[], 0⟩ := by
  decide

/-- Choice and sequence are associative, and sequence distributes over a choice behind it,
whatever the parsers of a plain text are: they may cut, and may leave anything where they
fail. -/
theorem choice_and_sequence_laws :
    (∀ {α : Type} (p q r : Parser Unit α),
      orElse (orElse p q) r = orElse p (orElse q r)) ∧
    (∀ {α β γ : Type} (p : Parser Unit α) (q : Parser Unit β) (r : Parser Unit γ),
      map (Equiv.prodAssoc α β γ) (sequence (sequence p q) r) = sequence p (sequence q r)) ∧
    ∀ {α β : Type} (p : Parser Unit α) (q r : Parser Unit β),
      sequence p (orElse q r) = orElse (sequence p q) (sequence p r) :=
  ⟨orElse_assoc, sequence_assoc,
    fun p q r => sequence_orElse (keepsState_unit p) (keepsState_unit q) r⟩

end Propositional.Parsing
