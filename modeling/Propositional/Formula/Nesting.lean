import Propositional.Parsing.Parser
import Propositional.Text.Bytes

/-!
# Guarded nesting

A formula nests where the operand of an opening parenthesis or of a negation
sign begins. A `Guard` decides there, from the text still to be read and a
state of its own, whether the parser may go on into the operand
(`Guard.nested`). `Guard.unlimited` always lets it; `Guard.atMost limit` counts
the open operands and refuses one too many by a cut, having noted in the state
where it did. The state is no part of what a parser that is tried again gets
back, so the note stays.
-/

namespace Propositional

open Parsing

/-- What is to be done where an operand begins and where it ends. -/
structure Guard (σ : Type) where
  /-- The state of a parser that has read nothing. -/
  start : σ
  /-- The state inside an operand that begins the given text, or the state that
  is left where it is refused. -/
  enter : List Char → σ → Except σ σ
  /-- The state behind an operand, from that inside. -/
  leave : σ → σ
  /-- How many bytes of text were left where an operand was refused, if one was. -/
  refusedAt : σ → Option Nat

namespace Guard

variable {σ α : Type}

/-- Reads an operand by `p` if the guard lets it, and cuts if not. However the
run of `p` ends, the operand is left again. -/
def nested (guard : Guard σ) (p : Parser σ α) : Parser σ α := fun s =>
  match guard.enter s.rest s.state with
  | .ok state => (p { s with state }).mapState guard.leave
  | .error state => .cut { s with state }

/-- The guard that refuses nothing. -/
def unlimited : Guard Unit where
  start := ()
  enter _ _ := .ok ()
  leave _ := ()
  refusedAt _ := none

end Guard

/-- The open operands, and where one too many was refused. -/
structure Nesting where
  /-- The number of parentheses and negation signs that are open. -/
  depth : Nat
  /-- The number of bytes left to be read where an operand was refused. -/
  refusedAt : Option Nat
deriving DecidableEq

/-- The guard that lets no more than `limit` operands be open at once. -/
def Guard.atMost (limit : Nat) : Guard Nesting where
  start := ⟨0, none⟩
  enter text nesting :=
    if nesting.depth = limit then .error { nesting with refusedAt := some (Text.byteLength text) }
    else .ok { nesting with depth := nesting.depth + 1 }
  leave nesting := { nesting with depth := nesting.depth - 1 }
  refusedAt := Nesting.refusedAt

end Propositional
