/-!
# Texts measured in bytes

A place in a text can be given by the number of bytes behind it. The text from
there on is `suffixOfBytes`; `suffixOfBytes_append` says that it is found
wherever the bytes begin with a character.
-/

namespace Propositional.Text

/-- The number of bytes of a text in UTF-8. -/
def byteLength : List Char → Nat
  | [] => 0
  | c :: chars => c.utf8Size + byteLength chars

/-- The text behind the first `bytes` bytes, if a character ends there. -/
def dropBytes : Nat → List Char → Option (List Char)
  | 0, chars => some chars
  | _ + 1, [] => none
  | bytes + 1, c :: chars =>
    if c.utf8Size ≤ bytes + 1 then dropBytes (bytes + 1 - c.utf8Size) chars else none

/-- The end of a text that takes up the given number of bytes, if there is one. -/
def suffixOfBytes (bytes : Nat) (text : List Char) : Option (List Char) :=
  if bytes ≤ byteLength text then dropBytes (byteLength text - bytes) text else none

theorem byteLength_append (s t : List Char) :
    byteLength (s ++ t) = byteLength s + byteLength t := by
  induction s with
  | nil => simp [byteLength]
  | cons c s ih => simp [byteLength, ih, Nat.add_assoc]

theorem dropBytes_append (s t : List Char) : dropBytes (byteLength s) (s ++ t) = some t := by
  induction s with
  | nil => cases t <;> rfl
  | cons c s ih =>
    obtain ⟨n, hn⟩ := Nat.exists_eq_succ_of_ne_zero (Nat.ne_of_gt c.utf8Size_pos)
    have hlen : byteLength (c :: s) = n + byteLength s + 1 := by
      simp only [byteLength, hn]
      omega
    have hle : n + 1 ≤ n + byteLength s + 1 := by omega
    have hsub : n + byteLength s + 1 - (n + 1) = byteLength s := by omega
    rw [hlen, List.cons_append, dropBytes, hn, if_pos hle, hsub, ih]

/-- Of a text in two parts, the second is the end that has its length. -/
theorem suffixOfBytes_append (s t : List Char) :
    suffixOfBytes (byteLength t) (s ++ t) = some t := by
  have hle : byteLength t ≤ byteLength (s ++ t) := by
    rw [byteLength_append]
    omega
  have hsub : byteLength (s ++ t) - byteLength t = byteLength s := by
    rw [byteLength_append]
    omega
  rw [suffixOfBytes, if_pos hle, hsub, dropBytes_append]

end Propositional.Text
