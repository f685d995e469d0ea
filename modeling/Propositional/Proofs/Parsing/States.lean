import Propositional.Proofs.Parsing.Outcomes

/-!
# What runs do to the state

Two things that can be said of the state beside the text. `Projects f p q`: the parser
`q`, whose state is what `f` makes of the state of `p`, runs as `p` does. And `Moves R p`:
however a run of `p` ends, `R` relates the state it was given to the state it leaves. The
combinators and recursion keep the first, and they keep the second for every `R` that is
reflexive and transitive, since a parser that is tried again gets the state that the one
before it left.
-/

namespace Propositional.Parsing

variable {σ τ α β : Type}

/-! ## Another kind of state -/

/-- The same text, with what `f` makes of the state. -/
def Stream.onState (f : σ → τ) (s : Stream σ) : Stream τ :=
  ⟨s.rest, f s.state⟩

namespace Outcome

/-- The same outcome, with what `f` makes of the state that is left. -/
def onState (f : σ → τ) : Outcome σ α → Outcome τ α
  | ok a s => ok a (s.onState f)
  | backtrack s => backtrack (s.onState f)
  | cut s => cut (s.onState f)

variable {f : σ → τ}

theorem left_onState (o : Outcome σ α) : (o.onState f).left = o.left.onState f := by
  cases o <;> rfl

theorem onState_map (g : α → β) (o : Outcome σ α) :
    (o.map g).onState f = (o.onState f).map g := by
  cases o <;> rfl

theorem onState_mapState {g : σ → σ} {g' : τ → τ} (h : ∀ a, f (g a) = g' (f a))
    (o : Outcome σ α) : (o.mapState g).onState f = (o.onState f).mapState g' := by
  cases o <;> simp [mapState, onState, Stream.onState, h]

theorem state_mapState (g : σ → σ) (o : Outcome σ α) :
    (o.mapState g).left.state = g o.left.state := by
  cases o <;> rfl

end Outcome

/-- On what `f` makes of the states, `q` runs as `p` does. -/
def Projects (f : σ → τ) (p : Parser σ α) (q : Parser τ α) : Prop :=
  ∀ s, (p s).onState f = q (s.onState f)

section

variable {f : σ → τ} {p : Parser σ α} {q : Parser τ α} {p' : Parser σ β} {q' : Parser τ β}

theorem Projects.of_eq (h : Projects f p q) {s : Stream σ} {o : Outcome σ α} (hs : p s = o) :
    q (s.onState f) = o.onState f := by
  rw [← h s, hs]

theorem projects_literal (token : List Char) : Projects f (literal token) (literal token) := by
  intro s
  simp only [literal, Stream.onState]
  cases dropToken token s.rest <;> rfl

theorem projects_satisfy (accept : Char → Bool) : Projects f (satisfy accept) (satisfy accept) := by
  rintro ⟨_ | ⟨c, rest⟩, state⟩
  · rfl
  · simp only [satisfy, Stream.onState]
    cases accept c <;> rfl

theorem Projects.map (g : α → β) (h : Projects f p q) : Projects f (map g p) (map g q) := by
  intro s
  rw [Parsing.map, Parsing.map, Outcome.onState_map, h s]

theorem Projects.orElse {r : Parser σ α} {r' : Parser τ α} (h : Projects f p q)
    (h' : Projects f r r') : Projects f (orElse p r) (orElse q r') := by
  intro s
  cases hs : p s with
  | ok a t => rw [orElse_ok hs, orElse_ok (h.of_eq hs)]; rfl
  | cut t => rw [orElse_cut hs, orElse_cut (h.of_eq hs)]; rfl
  | backtrack t =>
    rw [orElse_backtrack hs, orElse_backtrack (h.of_eq hs)]
    exact h' _

theorem Projects.sequence (h : Projects f p q) (h' : Projects f p' q') :
    Projects f (sequence p p') (sequence q q') := by
  intro s
  cases hs : p s with
  | backtrack t => rw [sequence_backtrack hs, sequence_backtrack (h.of_eq hs)]; rfl
  | cut t => rw [sequence_cut hs, sequence_cut (h.of_eq hs)]; rfl
  | ok a t =>
    cases ht : p' t with
    | ok b u => rw [sequence_ok hs ht, sequence_ok (h.of_eq hs) (h'.of_eq ht)]; rfl
    | backtrack u =>
      rw [sequence_ok_backtrack hs ht, sequence_ok_backtrack (h.of_eq hs) (h'.of_eq ht)]
      rfl
    | cut u => rw [sequence_ok_cut hs ht, sequence_ok_cut (h.of_eq hs) (h'.of_eq ht)]; rfl

theorem Projects.many (h : Projects f p q) : Projects f (many p) (many q) := by
  intro s
  cases hs : p s with
  | backtrack t => rw [many_backtrack hs, many_backtrack (h.of_eq hs)]; rfl
  | cut t => rw [many_cut hs, many_cut (h.of_eq hs)]; rfl
  | ok a t =>
    by_cases ht : t.rest.length < s.rest.length
    · rw [many_ok hs ht, many_ok (h.of_eq hs) ht, Outcome.onState_map, Projects.many h t]
    · rw [many_stuck hs ht, many_stuck (h.of_eq hs) ht]
      rfl
termination_by s => s.rest.length

/-- A recursive parser runs as another does if their bodies do on parsers that do. -/
theorem Projects.recursive {body : Parser σ α → Parser σ α} {body' : Parser τ α → Parser τ α}
    (h : ∀ p q, Projects f p q → Projects f (body p) (body' q)) :
    Projects f (recursive body) (recursive body') := by
  intro s
  rw [recursive_eq_below, recursive_eq_below]
  refine h _ _ (fun t => ?_) s
  simp only [below, show (t.onState f).rest = t.rest from rfl,
    show (s.onState f).rest = s.rest from rfl]
  by_cases ht : t.rest.length < s.rest.length
  · rw [if_pos ht, if_pos ht]
    exact Projects.recursive h t
  · rw [if_neg ht, if_neg ht]
    rfl
termination_by s => s.rest.length

end

/-! ## From the state that is given to the state that is left -/

/-- However a run ends, `R` relates the state it was given to the state it leaves. -/
def Moves (R : σ → σ → Prop) (p : Parser σ α) : Prop :=
  ∀ s, R s.state (p s).left.state

section

variable {R : σ → σ → Prop} (hrefl : ∀ a, R a a) (htrans : ∀ {a b c}, R a b → R b c → R a c)
variable {p q : Parser σ α} {r : Parser σ β}

theorem Moves.of_eq (hp : Moves R p) {s : Stream σ} {o : Outcome σ α} (h : p s = o) :
    R s.state o.left.state :=
  h ▸ hp s

theorem Moves.map (f : α → β) (hp : Moves R p) : Moves R (map f p) := by
  intro s
  rw [Parsing.map, Outcome.left_map]
  exact hp s

include hrefl in
theorem moves_literal (token : List Char) : Moves R (literal token) := by
  intro s
  obtain ⟨rest, -, hs⟩ | hs := literal_cases token s <;> rw [hs] <;> exact hrefl s.state

include hrefl in
theorem moves_satisfy (accept : Char → Bool) : Moves R (satisfy accept) := by
  rintro ⟨_ | ⟨c, rest⟩, state⟩
  · exact hrefl state
  · simp only [satisfy]
    cases accept c <;> exact hrefl state

include htrans in
theorem Moves.orElse (hp : Moves R p) (hq : Moves R q) : Moves R (orElse p q) := by
  intro s
  cases hs : p s with
  | ok a t => rw [orElse_ok hs]; exact hp.of_eq hs
  | cut t => rw [orElse_cut hs]; exact hp.of_eq hs
  | backtrack t =>
    rw [orElse_backtrack hs]
    exact htrans (hp.of_eq hs) (hq (t.rewind s.rest))

include htrans in
theorem Moves.sequence (hp : Moves R p) (hr : Moves R r) : Moves R (sequence p r) := by
  intro s
  cases hs : p s with
  | backtrack t => rw [sequence_backtrack hs]; exact hp.of_eq hs
  | cut t => rw [sequence_cut hs]; exact hp.of_eq hs
  | ok a t =>
    have hst : R s.state t.state := hp.of_eq hs
    cases ht : r t with
    | ok b u => rw [sequence_ok hs ht]; exact htrans hst (hr.of_eq ht)
    | backtrack u => rw [sequence_ok_backtrack hs ht]; exact htrans hst (hr.of_eq ht)
    | cut u => rw [sequence_ok_cut hs ht]; exact htrans hst (hr.of_eq ht)

include htrans in
theorem Moves.many (hp : Moves R p) : Moves R (many p) := by
  intro s
  cases hs : p s with
  | backtrack t => rw [many_backtrack hs]; exact hp.of_eq hs
  | cut t => rw [many_cut hs]; exact hp.of_eq hs
  | ok a t =>
    have hst : R s.state t.state := hp.of_eq hs
    by_cases ht : t.rest.length < s.rest.length
    · rw [many_ok hs ht, Outcome.left_map]
      exact htrans hst (Moves.many hp t)
    · rw [many_stuck hs ht]
      exact hst
termination_by s => s.rest.length

include hrefl in
theorem Moves.recursive {body : Parser σ α → Parser σ α}
    (h : ∀ p, Moves R p → Moves R (body p)) : Moves R (recursive body) :=
  recursive_induction (motive := fun s o => R s.state o.left.state) (fun s => hrefl s.state) h

end

end Propositional.Parsing
