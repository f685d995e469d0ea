import Mathlib.Data.List.Induction
import Propositional.Text.Style

/-!
# Columns of text

A line of `cells` has two blanks between two of them. The width of a line and the places of
its columns come from the widths of the cells alone (`length_aligned`, `columnStart`): a
cell stands where its column starts (`getElem?_aligned_cell`), and behind every cell but the
last are the blanks (`getElem?_aligned_gap`). So lines whose cells have the same widths have
the same columns. A character in the middle of a cell has its place there
(`getElem?_centered`).
-/

namespace Propositional.Text

/-- The sum of the widths. -/
def total (widths : List Nat) : Nat :=
  widths.foldr (· + ·) 0

/-- Where column `j` starts: behind the columns before it, and two blanks for each of them. -/
def columnStart (widths : List Nat) (j : Nat) : Nat :=
  total (widths.take j) + 2 * j

/-- The cells of a line with two blanks between them. -/
def aligned (cells : List (List Char)) : List Char :=
  [' ', ' '].intercalate cells

/-- The widths of the cells. -/
abbrev widthsOf (cells : List (List Char)) : List Nat :=
  cells.map List.length

theorem total_cons (width : Nat) (widths : List Nat) :
    total (width :: widths) = width + total widths := rfl

theorem columnStart_succ (width : Nat) (widths : List Nat) (j : Nat) :
    columnStart (width :: widths) (j + 1) = width + 2 + columnStart widths j := by
  simp only [columnStart, List.take_succ_cons, total_cons]
  omega

theorem aligned_cons (cell next : List Char) (cells : List (List Char)) :
    aligned (cell :: next :: cells) = cell ++ (' ' :: ' ' :: aligned (next :: cells)) := by
  rw [aligned, List.intercalate_cons_cons, List.append_assoc]
  rfl

theorem length_aligned (cells : List (List Char)) :
    (aligned cells).length = total (widthsOf cells) + 2 * (cells.length - 1) := by
  induction cells using List.twoStepInduction with
  | nil => rfl
  | singleton cell => simp [aligned, total]
  | cons_cons cell next cells _ ih =>
    have htotal : total (widthsOf (cell :: next :: cells)) =
        cell.length + total (widthsOf (next :: cells)) := rfl
    rw [aligned_cons, List.length_append, List.length_cons, List.length_cons, ih, htotal]
    simp only [List.length_cons]
    omega

/-- From the start of a column on, a line is the line of the further cells. -/
theorem drop_aligned {cells : List (List Char)} {j : Nat} (h : j < cells.length) :
    (aligned cells).drop (columnStart (widthsOf cells) j) = aligned (cells.drop j) := by
  induction j generalizing cells with
  | zero => rfl
  | succ j ih =>
    cases cells with
    | nil => simp at h
    | cons cell cells =>
      cases cells with
      | nil => simp at h
      | cons next cells =>
        rw [widthsOf, List.map_cons, columnStart_succ, aligned_cons, Nat.add_assoc,
          List.drop_length_add_append, Nat.add_comm 2, List.drop_succ_cons, List.drop_succ_cons]
        exact ih (Nat.lt_of_succ_lt_succ h)

section

variable {cells : List (List Char)} {cell : List Char} {i j : Nat}

theorem getElem?_aligned (h : j < cells.length) (i : Nat) :
    (aligned cells)[columnStart (widthsOf cells) j + i]? = (aligned (cells.drop j))[i]? := by
  rw [← drop_aligned h, List.getElem?_drop]

/-- In its column stands the cell. -/
theorem getElem?_aligned_cell (hc : cells[j]? = some cell) (hi : i < cell.length) :
    (aligned cells)[columnStart (widthsOf cells) j + i]? = cell[i]? := by
  obtain ⟨hj, rfl⟩ := List.getElem?_eq_some_iff.1 hc
  rw [getElem?_aligned hj, List.drop_eq_getElem_cons hj]
  cases cells.drop (j + 1) with
  | nil => rw [aligned, List.intercalate_singleton]
  | cons next rest => rw [aligned_cons, List.getElem?_append_left hi]

/-- Behind a cell that is not the last are two blanks. -/
theorem getElem?_aligned_gap (hc : cells[j]? = some cell) (hj : j + 1 < cells.length)
    (hi : i < 2) :
    (aligned cells)[columnStart (widthsOf cells) j + (cell.length + i)]? = some ' ' := by
  obtain ⟨hlt, rfl⟩ := List.getElem?_eq_some_iff.1 hc
  rw [getElem?_aligned hlt, List.drop_eq_getElem_cons hlt, List.drop_eq_getElem_cons hj,
    aligned_cons, List.getElem?_append_right (Nat.le_add_right _ _), Nat.add_sub_cancel_left]
  obtain rfl | rfl : i = 0 ∨ i = 1 := by omega
  · rfl
  · rfl

end

/-! ## Centred characters -/

variable {c : Char} {text : String} {width : Nat}

theorem toList_centered (h : text.toList = [c]) :
    (centered width text).toList =
      List.replicate ((width - 1) / 2) ' ' ++
        c :: List.replicate (width - 1 - (width - 1) / 2) ' ' := by
  have hlength : text.length = 1 := by rw [← String.length_toList, h]; rfl
  simp [centered, hlength, h]

theorem length_centered (h : text.toList = [c]) (hw : 0 < width) :
    (centered width text).toList.length = width := by
  rw [toList_centered h, List.length_append, List.length_cons, List.length_replicate,
    List.length_replicate]
  omega

/-- A character in the middle has blanks around it. -/
theorem getElem?_centered (h : text.toList = [c]) {i : Nat} (hi : i < width) :
    (centered width text).toList[i]? = some (if i = (width - 1) / 2 then c else ' ') := by
  rw [toList_centered h]
  rcases Nat.lt_trichotomy i ((width - 1) / 2) with hlt | rfl | hgt
  · rw [List.getElem?_append_left (by rwa [List.length_replicate]), if_neg (Nat.ne_of_lt hlt),
      List.getElem?_replicate_of_lt hlt]
  · rw [List.getElem?_append_right (by simp), List.length_replicate, Nat.sub_self, if_pos rfl]
    rfl
  · obtain ⟨k, rfl⟩ : ∃ k, i = (width - 1) / 2 + (k + 1) :=
      ⟨i - (width - 1) / 2 - 1, by omega⟩
    rw [List.getElem?_append_right (by rw [List.length_replicate]; omega), List.length_replicate,
      Nat.add_sub_cancel_left, List.getElem?_cons_succ, if_neg (by omega),
      List.getElem?_replicate_of_lt (by omega)]

end Propositional.Text
