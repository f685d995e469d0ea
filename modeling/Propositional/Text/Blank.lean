/-!
# Blank characters

`isBlank` is the Unicode property `White_Space`, and `strip` removes the
characters that have it.
-/

namespace Propositional.Text

/-- The characters with the property `White_Space`, as ranges from a first to a last code point. -/
def blankRanges : List (Nat × Nat) :=
  [(0x0009, 0x000D), (0x0020, 0x0020), (0x0085, 0x0085), (0x00A0, 0x00A0), (0x1680, 0x1680),
    (0x2000, 0x200A), (0x2028, 0x2029), (0x202F, 0x202F), (0x205F, 0x205F), (0x3000, 0x3000)]

/-- Whether `c` is white space. -/
def isBlank (c : Char) : Bool :=
  blankRanges.any fun range => range.1 ≤ c.toNat && c.toNat ≤ range.2

/-- The characters that are not white space, in order. -/
def strip (chars : List Char) : List Char :=
  chars.filter fun c => !isBlank c

/-- The code points of the letters of ASCII. -/
theorem toNat_of_isAlpha {c : Char} (h : c.isAlpha) :
    65 ≤ c.toNat ∧ c.toNat ≤ 90 ∨ 97 ≤ c.toNat ∧ c.toNat ≤ 122 := by
  rcases Bool.or_eq_true_iff.1 h with h | h
  · obtain ⟨h₁, h₂⟩ : c.val ≥ 'A'.val ∧ c.val ≤ 'Z'.val := of_decide_eq_true h
    exact .inl ⟨UInt32.le_iff_toNat_le.1 h₁, UInt32.le_iff_toNat_le.1 h₂⟩
  · obtain ⟨h₁, h₂⟩ := Bool.and_eq_true_iff.1 h
    exact .inr ⟨UInt32.le_iff_toNat_le.1 (of_decide_eq_true h₁),
      UInt32.le_iff_toNat_le.1 (of_decide_eq_true h₂)⟩

/-- The letters of ASCII are no white space. -/
theorem isBlank_eq_false_of_isAlpha {c : Char} (h : c.isAlpha) : isBlank c = false := by
  have hc := toNat_of_isAlpha h
  simp only [isBlank, blankRanges, List.any_cons, List.any_nil, Bool.or_eq_false_iff,
    Bool.and_eq_false_iff, decide_eq_false_iff_not, and_true]
  omega

theorem strip_append (s t : List Char) : strip (s ++ t) = strip s ++ strip t :=
  List.filter_append ..

end Propositional.Text
