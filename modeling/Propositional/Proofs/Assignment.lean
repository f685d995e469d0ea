import Mathlib.Algebra.Group.Nat.Defs
import Propositional.Assignment

/-!
# Assignments as binary numbers

`digits n i` are the last `n` binary digits of `i`, the most significant first,
and `value` is the number that digits stand for; below `2 ^ n` the two undo each
other (`value_digits`, `digits_value`). The words of 64 bits in which
assignments are counted hold all there is to hold as long as `n` is less than
64, so that the assignments are the digits of the numbers below `2 ^ n`, in
order (`all_eq_digits`).
-/

namespace Propositional.Assignment

/-- The last `n` binary digits of `i`, the most significant first. -/
def digits : Nat → Nat → Assignment
  | 0, _ => []
  | n + 1, i => i.testBit n :: digits n i

/-- The number whose binary digits are given, the most significant first. -/
def value : Assignment → Nat
  | [] => 0
  | b :: digits => 2 ^ digits.length * b.toNat + value digits

theorem length_digits (n i : Nat) : (digits n i).length = n := by
  induction n with
  | zero => rfl
  | succ n ih => rw [digits, List.length_cons, ih]

theorem getElem_digits {n i k : Nat} (h : k < (digits n i).length) :
    (digits n i)[k] = i.testBit (n - 1 - k) := by
  induction n generalizing k with
  | zero => cases h
  | succ n ih =>
    cases k with
    | zero => rfl
    | succ k =>
      simp only [digits, List.getElem_cons_succ, ih]
      congr 1
      omega

theorem value_lt (bits : Assignment) : value bits < 2 ^ bits.length := by
  induction bits with
  | nil => decide
  | cons b bits ih =>
    have hb := Bool.toNat_le b
    rw [value, List.length_cons, Nat.pow_succ]
    rcases Nat.lt_or_ge b.toNat 1 with h | h
    · rw [show b.toNat = 0 by omega]
      omega
    · rw [show b.toNat = 1 by omega]
      omega

theorem value_digits (n i : Nat) : value (digits n i) = i % 2 ^ n := by
  induction n with
  | zero => simp [digits, value, Nat.mod_one]
  | succ n ih =>
    rw [digits, value, ih, length_digits, Nat.mod_pow_succ, Nat.toNat_testBit, Nat.add_comm]

/-- The digits depend on the last of the binary digits only. -/
theorem digits_congr {n i j : Nat} (h : ∀ k < n, i.testBit k = j.testBit k) :
    digits n i = digits n j := by
  induction n with
  | zero => rfl
  | succ n ih =>
    rw [digits, digits, h n (Nat.lt_succ_self n), ih fun k hk => h k (Nat.lt_succ_of_lt hk)]

theorem digits_value (bits : Assignment) : digits bits.length (value bits) = bits := by
  induction bits with
  | nil => rfl
  | cons b bits ih =>
    have hv := value_lt bits
    have htop : (2 ^ bits.length * b.toNat + value bits).testBit bits.length = b := by
      rw [Nat.testBit_two_pow_mul_add _ hv, if_neg (Nat.lt_irrefl _), Nat.sub_self]
      cases b <;> rfl
    have hrest : digits bits.length (2 ^ bits.length * b.toNat + value bits) =
        digits bits.length (value bits) :=
      digits_congr fun k hk => by rw [Nat.testBit_two_pow_mul_add _ hv, if_pos hk]
    rw [List.length_cons, value, digits, htop, hrest, ih]

/-- Below `2 ^ n` a number is the only one with its digits. -/
theorem digits_eq_iff {n i : Nat} (hi : i < 2 ^ n) {bits : Assignment} (hb : bits.length = n) :
    digits n i = bits ↔ i = value bits := by
  constructor
  · rintro rfl
    rw [value_digits, Nat.mod_eq_of_lt hi]
  · rintro rfl
    rw [← hb]
    exact digits_value bits

/-! ## Words -/

theorem toNat_toUInt64 {i : Nat} (h : i < 2 ^ 64) : i.toUInt64.toNat = i :=
  Nat.mod_eq_of_lt h

theorem two_pow_lt {n : Nat} (h : n < 64) : 2 ^ n < 2 ^ 64 :=
  Nat.pow_lt_pow_right (by decide) h

theorem toNat_count {n : Nat} (h : n < 64) : (count n).toNat = 2 ^ n := by
  rw [count, UInt64.toNat_shiftLeft, toNat_toUInt64 (by omega), Nat.mod_eq_of_lt h,
    UInt64.toNat_one, Nat.one_shiftLeft, Nat.mod_eq_of_lt (two_pow_lt h)]

theorem digitAt_eq_testBit {i place : Nat} (hi : i < 2 ^ 64) (hp : place < 64) :
    digitAt i.toUInt64 place = i.testBit place := by
  have hw : ((i.toUInt64 >>> place.toUInt64) &&& 1).toNat = (i.testBit place).toNat := by
    rw [UInt64.toNat_and, UInt64.toNat_shiftRight, toNat_toUInt64 hi, toNat_toUInt64 (by omega),
      Nat.mod_eq_of_lt hp, UInt64.toNat_one, Nat.toNat_testBit, Nat.and_one_is_mod,
      Nat.shiftRight_eq_div_pow]
  rw [digitAt, Bool.eq_iff_iff, beq_iff_eq, ← UInt64.toNat_inj, hw]
  cases i.testBit place <;> decide

theorem ofIndex_eq_digits {n i : Nat} (h : n < 64) (hi : i < 2 ^ n) :
    ofIndex n i.toUInt64 = digits n i := by
  apply List.ext_getElem
  · rw [ofIndex, List.length_map, List.length_range, length_digits]
  · intro k hk _
    rw [ofIndex, List.length_map, List.length_range] at hk
    simp only [ofIndex, List.getElem_map, List.getElem_range, getElem_digits]
    exact digitAt_eq_testBit (Nat.lt_trans hi (two_pow_lt h)) (by omega)

/-- The assignments are the digits of the numbers below `2 ^ n`, in order. -/
theorem all_eq_digits {n : Nat} (h : n < 64) : all n = (List.range (2 ^ n)).map (digits n) := by
  rw [all, toNat_count h]
  exact List.map_congr_left fun i hi => ofIndex_eq_digits h (List.mem_range.1 hi)

end Propositional.Assignment
