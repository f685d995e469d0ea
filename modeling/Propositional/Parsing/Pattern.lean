import Propositional.Parsing.Parser

/-!
# Parser expressions

A `Pattern` is a parser written down as data: the combinators of
`Propositional.Parsing.Parser`, each run of which captures the text it read in
the shape of the expression (`Capture`). `Pattern.parser` is the parser that an
expression stands for, and `Pattern.runs` runs several of them on one stream,
each on what the one before left.
-/

namespace Propositional.Parsing

/-- What a pattern captures. -/
inductive Capture where
  /-- The characters that were read. -/
  | text (chars : List Char)
  /-- The two captures of a sequence. -/
  | pair (first second : Capture)
  /-- The captures of a repetition that has none. -/
  | nil
  /-- The first capture of a repetition and those after it. -/
  | cons (first rest : Capture)
deriving DecidableEq

/-- The captures of a repetition. -/
def Capture.ofList (captures : List Capture) : Capture :=
  captures.foldr cons nil

/-- An expression built from the parser combinators. -/
inductive Pattern where
  /-- Exactly the characters `token`. -/
  | literal (token : List Char)
  /-- One character that `accept` holds of. -/
  | satisfy (accept : Char → Bool)
  /-- `first`, or `second` where `first` asks for another try. -/
  | orElse (first second : Pattern)
  /-- `first`, then `second`. -/
  | sequence (first second : Pattern)
  /-- `body` as often as it succeeds. -/
  | many (body : Pattern)
  /-- `body`, after whose failure nothing else is tried. -/
  | commit (body : Pattern)

namespace Pattern

variable {σ : Type}

/-- The parser that a pattern stands for. -/
def parser : Pattern → Parser σ Capture
  | literal token => map Capture.text (Parsing.literal token)
  | satisfy accept => map (fun c => Capture.text [c]) (Parsing.satisfy accept)
  | orElse first second => Parsing.orElse first.parser second.parser
  | sequence first second =>
    map (fun values => Capture.pair values.1 values.2) (Parsing.sequence first.parser second.parser)
  | many body => map Capture.ofList (Parsing.many body.parser)
  | commit body => Parsing.commit body.parser

/-- The outcomes of `patterns` run in turn. Each runs on the stream that the
one before left, also after a failure. -/
def runs : List Pattern → Stream σ → List (Outcome σ Capture)
  | [], _ => []
  | pattern :: patterns, s =>
    let outcome := pattern.parser s
    outcome :: runs patterns outcome.left

end Pattern

end Propositional.Parsing
