/-!
# Parsers with ordered choice

A parser runs on a stream: the characters still to be read, and a state that
parsers keep beside them. A run ends in one of three ways (`Outcome`): with a
value, with a failure after which another parser may be tried (`backtrack`), or
with one that ends the whole run (`cut`). Each of the three says what is left.

A parser that is tried again sees the characters of before (`Stream.rewind`)
but not the state of before: what a parser notes in the state outlives its
failure.

The combinators are those of the package `winnow`; what is assumed of it is said at
each of them.

`many` and `recursive` end because what is left gets shorter: `many` stops
where a run of its body consumed nothing, and a `recursive` parser may call
itself only after a character has been consumed.
-/

namespace Propositional.Parsing

variable {σ α β : Type}

/-- The characters still to be read and the state that parsers keep beside them. -/
structure Stream (σ : Type) where
  rest : List Char
  state : σ
deriving DecidableEq

/-- The stream with `chars` to be read again; the state stays as it is. -/
def Stream.rewind (s : Stream σ) (chars : List Char) : Stream σ :=
  { s with rest := chars }

/-- How a run ends, and the stream it leaves. -/
inductive Outcome (σ α : Type) where
  /-- The run produced `value`. -/
  | ok (value : α) (left : Stream σ)
  /-- The run failed, and another parser may be tried. -/
  | backtrack (left : Stream σ)
  /-- The run failed, and no other parser is tried. -/
  | cut (left : Stream σ)
deriving DecidableEq

namespace Outcome

/-- The stream that a run leaves, however it ended. -/
def left : Outcome σ α → Stream σ
  | ok _ s | backtrack s | cut s => s

/-- Changes the value, if there is one. -/
def map (f : α → β) : Outcome σ α → Outcome σ β
  | ok a s => ok (f a) s
  | backtrack s => backtrack s
  | cut s => cut s

/-- Changes the state that the run leaves. -/
def mapState (f : σ → σ) : Outcome σ α → Outcome σ α
  | ok a s => ok a { s with state := f s.state }
  | backtrack s => backtrack { s with state := f s.state }
  | cut s => cut { s with state := f s.state }

end Outcome

/-- A parser takes a stream to the outcome of its run. -/
abbrev Parser (σ α : Type) := Stream σ → Outcome σ α

/-- The text behind `token`, if the text starts with it. -/
def dropToken : (token text : List Char) → Option (List Char)
  | [], text => some text
  | _ :: _, [] => none
  | c :: token, d :: text => if c = d then dropToken token text else none

theorem dropToken_eq_some_iff {token text rest : List Char} :
    dropToken token text = some rest ↔ text = token ++ rest := by
  induction token generalizing text with
  | nil => simp [dropToken]
  | cons c token ih =>
    cases text with
    | nil => simp [dropToken]
    | cons d text =>
      by_cases h : c = d
      · simp [dropToken, h, ih]
      · simp [dropToken, h, Ne.symm h]

/-- Reads exactly `token`. Assumed of `literal` in `winnow`: where the text does not start with
`token`, it asks for another try and leaves the text as it is. -/
def literal (token : List Char) : Parser σ (List Char) := fun s =>
  match dropToken token s.rest with
  | some rest => .ok token (s.rewind rest)
  | none => .backtrack s

/-- Reads one character that `accept` holds of. Assumed of `one_of` in `winnow`: otherwise, and at
the end of the text, it asks for another try and leaves the text as it is. -/
def satisfy (accept : Char → Bool) : Parser σ Char := fun s =>
  match s.rest with
  | c :: rest => if accept c then .ok c (s.rewind rest) else .backtrack s
  | [] => .backtrack s

/-- Runs `p` and changes its value. -/
def map (f : α → β) (p : Parser σ α) : Parser σ β := fun s => (p s).map f

/-- Runs `first`, and `second` from the same place if `first` asks for another try. Assumed of
`alt` in `winnow`: it puts back the text then, and not the state, and it passes on a cut with
what the cut left. -/
def orElse (first second : Parser σ α) : Parser σ α := fun s =>
  match first s with
  | .ok a t => .ok a t
  | .backtrack t => second (t.rewind s.rest)
  | .cut t => .cut t

/-- Runs `first`, then `second` on what it left. Whichever of them fails, and
however, what is left is the text that the sequence started on. Assumed of the
checkpoints of `winnow`: they hold the text and not the state. -/
def sequence (first : Parser σ α) (second : Parser σ β) : Parser σ (α × β) := fun s =>
  match first s with
  | .ok a t =>
    match second t with
    | .ok b u => .ok (a, b) u
    | .backtrack u => .backtrack (u.rewind s.rest)
    | .cut u => .cut (u.rewind s.rest)
  | .backtrack t => .backtrack (t.rewind s.rest)
  | .cut t => .cut (t.rewind s.rest)

/-- Runs `p` as often as it succeeds, and collects the values. The last,
failing try consumes nothing. A cut of `p` is a cut here, and so is a success
of `p` that consumed nothing: the repetition would never end. All of this is
assumed of `repeat` in `winnow`, which in the last case stops the program instead
if it is built with its assertions. -/
def many (p : Parser σ α) : Parser σ (List α) := fun s =>
  match p s with
  | .ok a t =>
    if _shorter : t.rest.length < s.rest.length then (many p t).map (a :: ·) else .cut t
  | .backtrack t => .ok [] (t.rewind s.rest)
  | .cut t => .cut t
termination_by s => s.rest.length

/-- Runs `p` and allows no other try if it fails. Assumed of `winnow`: to make a failure a cut
changes neither the text nor the state that it left. -/
def commit (p : Parser σ α) : Parser σ α := fun s =>
  match p s with
  | .ok a t => .ok a t
  | .backtrack t => .cut t
  | .cut t => .cut t

/-- The parser that `body` describes in terms of itself. It may run itself only
on less text than it was given; such a run on the same text would never end,
and is a cut. -/
def recursive (body : Parser σ α → Parser σ α) : Parser σ α := fun s =>
  body (fun t => if _shorter : t.rest.length < s.rest.length then recursive body t else .cut t) s
termination_by s => s.rest.length

end Propositional.Parsing
