/-!
# Assignments

The assignments of `n` variables are the lists of `n` truth values. They are
counted in binary: assignment `i` holds the digits of `i`, the most significant
one first (`Assignment.ofIndex`). Indices are words of 64 bits, so `n` is less
than 64.
-/

namespace Propositional

/-- One truth value per variable, by position. -/
abbrev Assignment := List Bool

namespace Assignment

/-- The number of assignments of `n` variables. -/
def count (n : Nat) : UInt64 :=
  1 <<< n.toUInt64

/-- The binary digit of `index` that counts `2 ^ place`. -/
def digitAt (index : UInt64) (place : Nat) : Bool :=
  (index >>> place.toUInt64) &&& 1 == 1

/-- The assignment of `n` variables at `index`: its last `n` binary digits, the
most significant one first. -/
def ofIndex (n : Nat) (index : UInt64) : Assignment :=
  (List.range n).map fun position => digitAt index (n - 1 - position)

/-- The first `k` assignments of `n` variables, or all if there are fewer. -/
def first (n k : Nat) : List Assignment :=
  (List.range (min k (count n).toNat)).map fun index => ofIndex n index.toUInt64

/-- All assignments of `n` variables in counting order, so that the first
variable changes slowest. -/
def all (n : Nat) : List Assignment :=
  (List.range (count n).toNat).map fun index => ofIndex n index.toUInt64

theorem first_eq_take (n k : Nat) : first n k = (all n).take k := by
  rw [first, all, ← List.map_take, List.take_range]

end Assignment

end Propositional
