/-!
# Texts in lines

`unlines` writes lines one after another and ends each by a line feed; `linesOf` finds
them again (`linesOf_unlines`). Both this and the reading of separated cells come from
splitting at the ends of parts that are free of what ends them
(`splitOn_flatMap_concat`).
-/

namespace Propositional.Text

/-- Parts that do not have the separator in them are found again by splitting at it. -/
theorem splitOn_flatMap_concat {x : Char} {parts : List (List Char)}
    (h : ∀ part ∈ parts, x ∉ part) :
    (parts.flatMap (· ++ [x])).splitOn x = parts ++ [[]] := by
  induction parts with
  | nil => exact List.splitOn_nil x
  | cons part parts ih =>
    obtain ⟨hpart, hparts⟩ := List.forall_mem_cons.1 h
    rw [List.flatMap_cons, List.append_assoc, List.singleton_append,
      List.splitOn_append_cons_self_of_not_mem hpart, ih hparts, List.cons_append]

/-- The lines, each ended by a line feed. -/
def unlines (lines : List String) : String :=
  String.join (lines.map (· ++ "\n"))

/-- The lines of a text: what stands before each of its line feeds. -/
def linesOf (text : String) : List String :=
  ((text.toList.splitOn '\n').dropLast).map String.ofList

theorem toList_unlines (lines : List String) :
    (unlines lines).toList = (lines.map String.toList).flatMap (· ++ ['\n']) := by
  rw [unlines, String.toList_join, List.flatMap_map, List.flatMap_map]
  exact congrArg (lines.flatMap ·) (funext fun line => String.toList_append)

/-- Lines without line feeds are found again. -/
theorem linesOf_unlines {lines : List String} (h : ∀ line ∈ lines, '\n' ∉ line.toList) :
    linesOf (unlines lines) = lines := by
  rw [linesOf, toList_unlines, splitOn_flatMap_concat (List.forall_mem_map.2 h),
    List.dropLast_concat, List.map_map]
  simp [Function.comp_def]

end Propositional.Text
