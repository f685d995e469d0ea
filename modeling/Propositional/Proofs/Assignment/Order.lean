import Mathlib.Data.Bool.Basic
import Propositional.Proofs.Assignment

/-!
# Assignments in order

Of two assignments of as many variables, the one that comes first in lexicographic order, with
false before true, is the one that stands for the smaller number (`lt_iff_value_lt`). So the
assignments of `n` variables are counted in lexicographic order (`pairwise_lt_all`), and since
each of them is the digits of one number below `2 ^ n` (`getElem?_all_eq_some_iff`), each is there
once (`count_all`).

`InWords` says that none of this depends on words being longer than 64 bits: wherever the places
of the digits are computed in words, no subtraction borrows, no shift is by the length of a word
or more, and what comes out is what numbers without a bound would give.
-/

namespace Propositional.Assignment

/-! ## The lexicographic order -/

theorem lt_iff_value_lt {a b : Assignment} (h : a.length = b.length) :
    a < b ↔ value a < value b := by
  induction a generalizing b with
  | nil =>
    obtain rfl := List.length_eq_zero_iff.1 h.symm
    simp [value]
  | cons x a ih =>
    cases b with
    | nil => cases h
    | cons y b =>
      have hlen : a.length = b.length := Nat.succ.inj h
      have ha : value a < 2 ^ b.length := hlen ▸ value_lt a
      have hb := value_lt b
      rw [List.cons_lt_cons_iff, ih hlen, value, value, hlen]
      -- The first digit outweighs all the others.
      cases x <;> cases y <;> simp [Bool.lt_iff] <;> omega

theorem length_of_mem_all {n : Nat} (h : n < 64) {bits : Assignment} (hb : bits ∈ all n) :
    bits.length = n := by
  rw [all_eq_digits h] at hb
  obtain ⟨i, -, rfl⟩ := List.mem_map.1 hb
  exact length_digits n i

theorem length_all {n : Nat} (h : n < 64) : (all n).length = 2 ^ n := by
  rw [all_eq_digits h, List.length_map, List.length_range]

/-- At an index stands the assignment whose number is the index. -/
theorem getElem?_all_eq_some_iff {n i : Nat} (h : n < 64) {bits : Assignment} :
    (all n)[i]? = some bits ↔ bits.length = n ∧ value bits = i := by
  constructor
  · intro hi
    obtain ⟨hlt, -⟩ := List.getElem?_eq_some_iff.1 hi
    rw [length_all h] at hlt
    rw [all_eq_digits h, List.getElem?_map, List.getElem?_range hlt, Option.map_some,
      Option.some.injEq] at hi
    subst hi
    exact ⟨length_digits n i, by rw [value_digits, Nat.mod_eq_of_lt hlt]⟩
  · rintro ⟨rfl, rfl⟩
    rw [all_eq_digits h, List.getElem?_map, List.getElem?_range (value_lt bits), Option.map_some,
      digits_value]

theorem pairwise_lt_all {n : Nat} (h : n < 64) : (all n).Pairwise (· < ·) := by
  rw [all_eq_digits h, List.pairwise_map]
  refine List.pairwise_lt_range.imp_of_mem fun {i j} hi hj hij => ?_
  rw [lt_iff_value_lt (by rw [length_digits, length_digits]), value_digits, value_digits,
    Nat.mod_eq_of_lt (List.mem_range.1 hi), Nat.mod_eq_of_lt (List.mem_range.1 hj)]
  exact hij

theorem mem_all_iff {n : Nat} (h : n < 64) {bits : Assignment} :
    bits ∈ all n ↔ bits.length = n :=
  ⟨length_of_mem_all h, fun hb =>
    List.mem_of_getElem? ((getElem?_all_eq_some_iff h).2 ⟨hb, rfl⟩)⟩

theorem nodup_all {n : Nat} (h : n < 64) : (all n).Nodup := by
  refine (pairwise_lt_all h).imp fun hlt => ?_
  rintro rfl
  exact List.lt_irrefl _ hlt

/-- Every assignment of `n` variables is there once, and nothing else is there. -/
theorem count_all {n : Nat} (h : n < 64) (bits : Assignment) :
    (all n).count bits = if bits.length = n then 1 else 0 := by
  simp only [(nodup_all h).count, mem_all_iff h]

/-- The assignments of `n` variables in the order in which they are counted. -/
structure Counted (n : Nat) : Prop where
  length_eq : (all n).length = 2 ^ n
  /-- At index `i` stands the one list of `n` truth values whose binary number is `i`. -/
  getElem?_eq_some_iff : ∀ i bits, (all n)[i]? = some bits ↔ bits.length = n ∧ value bits = i
  /-- Every list of `n` truth values is there once. -/
  count_eq : ∀ bits, (all n).count bits = if bits.length = n then 1 else 0
  /-- They are in strictly ascending lexicographic order. -/
  increasing : (all n).Pairwise (· < ·)
  /-- If fewer are asked for, they are the first of them. -/
  first_eq : ∀ k, first n k = (all n).take k

theorem counted {n : Nat} (h : n < 64) : Counted n where
  length_eq := length_all h
  getElem?_eq_some_iff := fun _ _ => getElem?_all_eq_some_iff h
  count_eq := count_all h
  increasing := pairwise_lt_all h
  first_eq := first_eq_take n

/-! ## Words -/

/-- The place of the digit at `position` among `n`, computed in words. -/
def wordPlace (n position : Nat) : UInt64 :=
  n.toUInt64 - 1 - position.toUInt64

/-- The computation of the assignments of `n` variables in words of 64 bits. -/
structure InWords (n : Nat) : Prop where
  /-- Their number is a shift by less than the length of a word, and no digit of it is lost. -/
  shift_lt : n.toUInt64 < 64
  toNat_count : (1 <<< n.toUInt64 : UInt64).toNat = 2 ^ n
  /-- Neither of the subtractions for the place of a digit borrows. -/
  one_le : ∀ position < n, 1 ≤ n.toUInt64
  position_le : ∀ position < n, position.toUInt64 ≤ n.toUInt64 - 1
  toNat_wordPlace : ∀ position < n, (wordPlace n position).toNat + position + 1 = n
  /-- The shift to a digit is by less than the length of a word, and gives the quotient. -/
  wordPlace_lt : ∀ position < n, wordPlace n position < 64
  toNat_shiftRight : ∀ position < n, ∀ i < 2 ^ n,
    (i.toUInt64 >>> wordPlace n position).toNat = i / 2 ^ (n - 1 - position)
  /-- An assignment consists of the digits at these places. -/
  ofIndex_eq : ∀ i : UInt64, ofIndex n i =
    (List.range n).map fun position => (i >>> wordPlace n position) &&& 1 == 1

section

variable {n position : Nat} (h : n < 64) (hp : position < n)

include h hp

theorem one_le_toUInt64 : 1 ≤ n.toUInt64 := by
  rw [UInt64.le_iff_toNat_le, toNat_toUInt64 (by omega), UInt64.toNat_one]
  omega

theorem toNat_toUInt64_sub_one : (n.toUInt64 - 1).toNat = n - 1 := by
  rw [UInt64.toNat_sub_of_le _ _ (one_le_toUInt64 h hp), toNat_toUInt64 (by omega),
    UInt64.toNat_one]

theorem toUInt64_le_sub_one : position.toUInt64 ≤ n.toUInt64 - 1 := by
  rw [UInt64.le_iff_toNat_le, toNat_toUInt64_sub_one h hp, toNat_toUInt64 (by omega)]
  omega

theorem toNat_wordPlace : (wordPlace n position).toNat = n - 1 - position := by
  rw [wordPlace, UInt64.toNat_sub_of_le _ _ (toUInt64_le_sub_one h hp),
    toNat_toUInt64_sub_one h hp, toNat_toUInt64 (by omega)]

theorem wordPlace_eq : wordPlace n position = (n - 1 - position).toUInt64 := by
  rw [← UInt64.toNat_inj, toNat_wordPlace h hp, toNat_toUInt64 (by omega)]

theorem toNat_shiftRight_wordPlace {i : Nat} (hi : i < 2 ^ n) :
    (i.toUInt64 >>> wordPlace n position).toNat = i / 2 ^ (n - 1 - position) := by
  rw [UInt64.toNat_shiftRight, toNat_wordPlace h hp,
    toNat_toUInt64 (Nat.lt_trans hi (two_pow_lt h)), Nat.mod_eq_of_lt (by omega),
    Nat.shiftRight_eq_div_pow]

end

theorem inWords {n : Nat} (h : n < 64) : InWords n where
  shift_lt := by
    rw [UInt64.lt_iff_toNat_lt, toNat_toUInt64 (by omega)]
    exact h
  toNat_count := toNat_count h
  one_le _ hp := one_le_toUInt64 h hp
  position_le _ hp := toUInt64_le_sub_one h hp
  toNat_wordPlace position hp := by
    rw [Assignment.toNat_wordPlace h hp]
    omega
  wordPlace_lt position hp := by
    rw [UInt64.lt_iff_toNat_lt, Assignment.toNat_wordPlace h hp]
    show n - 1 - position < 64
    omega
  toNat_shiftRight _ hp _ hi := toNat_shiftRight_wordPlace h hp hi
  ofIndex_eq i := by
    refine List.map_congr_left fun position hp => ?_
    rw [digitAt, wordPlace_eq h (List.mem_range.1 hp)]

/-- Up to 63 variables, the assignments are the `2 ^ n` lists of `n` truth values, each once and
in lexicographic order: the one at an index is the only one whose binary number is the index. All
that is computed in words of 64 bits for it stays in their range. -/
theorem all_counted_in_words {n : Nat} (h : n < 64) : Counted n ∧ InWords n :=
  ⟨counted h, inWords h⟩

/-- Of 63 variables, the last assignment makes all of them true, and its first digit is at the
highest place that is used. -/
theorem all_counted_in_words_last :
    63 < 64 ∧ (all 63)[2 ^ 63 - 1]? = some (List.replicate 63 true) ∧
      (all 63).count (List.replicate 63 true) = 1 ∧
      (wordPlace 63 0).toNat + 0 + 1 = 63 ∧
      ((2 ^ 63 - 1).toUInt64 >>> wordPlace 63 0).toNat = 1 := by
  have hlt : 63 < 64 := by decide
  obtain ⟨hcounted, hwords⟩ := all_counted_in_words hlt
  refine ⟨hlt, (hcounted.getElem?_eq_some_iff _ _).2 ⟨by simp, by decide⟩, ?_,
    hwords.toNat_wordPlace 0 (by decide), ?_⟩
  · rw [hcounted.count_eq, if_pos (by simp)]
  · rw [hwords.toNat_shiftRight 0 (by decide) (2 ^ 63 - 1) (by decide)]
    decide

example : all 2 = [[false, false], [false, true], [true, false], [true, true]] := by decide

end Propositional.Assignment
