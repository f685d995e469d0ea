/-!
# Log records

A `Logged` computation leaves records behind, of which a `Filter` says which
are kept. `Logged.collect` runs it under a filter and gives the records that
were kept in order; `Logged.value` runs it for its value alone.
-/

namespace Propositional.Log

/-- How important a record is. -/
inductive Level where
  | error
  | warn
  | info
  | debug
  | trace
deriving DecidableEq

namespace Level

/-- The rank of a level: the lower, the more important. -/
def rank : Level → Nat
  | error => 1
  | warn => 2
  | info => 3
  | debug => 4
  | trace => 5

/-- The name of a level. -/
def name : Level → String
  | error => "ERROR"
  | warn => "WARN"
  | info => "INFO"
  | debug => "DEBUG"
  | trace => "TRACE"

/-- All levels, the most important first. -/
def all : List Level := [error, warn, info, debug, trace]

end Level

/-- A record: how important it is, what part of the program it comes from, and what it says. -/
structure Record where
  level : Level
  target : String
  message : String
deriving DecidableEq

/-- Whether records of a level and a target are kept. -/
abbrev Filter := Level → String → Bool

/-- Keeps no record. -/
def Filter.none : Filter := fun _ _ => false

/-- Keeps the records that are at least as important as `level`. -/
def Filter.upTo (level : Level) : Filter := fun l _ => l.rank ≤ level.rank

/-- A computation that leaves log records. -/
abbrev Logged := ReaderT Filter (StateM (Array Record))

/-- Leaves a record, whose message is made only if it is kept. -/
def record (level : Level) (target : String) (message : Unit → String) : Logged Unit := do
  let keep ← read
  if keep level target then modify fun records => records.push ⟨level, target, message ()⟩

namespace Logged

variable {ε α : Type}

/-- A result that is already there, as the end of a computation that leaves records. -/
def ofExcept (result : Except ε α) : ExceptT ε Logged α :=
  ExceptT.mk (pure result)

/-- The value of a computation and the records of it that `keep` keeps. -/
def collect (keep : Filter) (m : Logged α) : α × List Record :=
  let (value, records) := (m keep).run #[]
  (value, records.toList)

/-- The value of a computation. -/
def value (m : Logged α) : α :=
  (m.collect Filter.none).1

end Logged

end Propositional.Log
