import Propositional.Proofs.Text.Lines
import Propositional.Proofs.TruthTable.Labels
import Propositional.TruthTable.Markdown

/-!
# Reading a table back from its Markdown

The Markdown of a table is a text of lines (`markdown_eq_unlines`), and a line is a bar
and then cells with a bar behind each (`toList_barred`). So the lines are found by
splitting the text at its line feeds, and the cells by splitting a line at its bars
(`cellsOf_barred`), as long as no cell has a character of the two in it (`FitsCell`).
Then `readMarkdown` finds the header and the rows again (`readMarkdown_markdown`). The
labels of the table of a text have neither bars nor blanks (`plainHeader_semantic`).
-/

namespace Propositional.TruthTable

open Text (linesOf unlines linesOf_unlines splitOn_flatMap_concat)

/-! ## Lines -/

/-- The text can stand in a cell: there are neither bars nor line feeds in it. -/
def FitsCell (text : String) : Prop :=
  '|' ∉ text.toList ∧ '\n' ∉ text.toList

instance (text : String) : Decidable (FitsCell text) :=
  inferInstanceAs (Decidable (_ ∧ _))

/-- A line of cells, without the line feed that ends it. -/
def barred (cells : List String) : String :=
  String.join (cells.map ("|" ++ ·)) ++ "|"

theorem markdownLine_eq (cells : List String) : markdownLine cells = barred cells ++ "\n" := by
  rw [markdownLine, barred, String.append_assoc]
  rfl

/-- The bars before the cells are one before them all and one behind each. -/
theorem toList_barred (cells : List String) :
    (barred cells).toList = '|' :: (cells.map String.toList).flatMap (· ++ ['|']) := by
  rw [barred, String.toList_append, String.toList_join]
  induction cells with
  | nil => rfl
  | cons cell cells ih =>
    rw [List.map_cons, List.flatMap_cons, List.append_assoc, ih, String.toList_append,
      List.map_cons, List.flatMap_cons]
    simp

theorem barred_ne_empty (cells : List String) : barred cells ≠ "" := by
  intro h
  have hchars := toList_barred cells
  rw [h] at hchars
  cases hchars

theorem not_mem_barred {cells : List String} (h : ∀ cell ∈ cells, FitsCell cell) :
    '\n' ∉ (barred cells).toList := by
  rw [toList_barred, List.mem_cons, List.mem_flatMap]
  rintro (hbar | ⟨chars, hchars, hmem⟩)
  · exact absurd hbar (by decide)
  · obtain ⟨cell, hcell, rfl⟩ := List.mem_map.1 hchars
    rcases List.mem_append.1 hmem with hmem | hmem
    · exact (h cell hcell).2 hmem
    · exact absurd (List.mem_singleton.1 hmem) (by decide)

/-- The cells of a line: what stands between two of its bars. -/
def cellsOf (line : String) : List String :=
  ((line.toList.splitOn '|').tail.dropLast).map String.ofList

/-- Cells are found again. -/
theorem cellsOf_barred {cells : List String} (h : ∀ cell ∈ cells, FitsCell cell) :
    cellsOf (barred cells) = cells := by
  have hbars : ∀ cell ∈ cells, '|' ∉ cell.toList := fun cell hcell => (h cell hcell).1
  have hsplit : (barred cells).toList.splitOn '|' = [] :: (cells.map String.toList ++ [[]]) := by
    rw [toList_barred, ← splitOn_flatMap_concat (List.forall_mem_map.2 hbars)]
    exact List.splitOn_append_cons_self_of_not_mem List.not_mem_nil _
  rw [cellsOf, hsplit, List.tail_cons, List.dropLast_concat, List.map_map]
  simp [Function.comp_def]

/-! ## Tables -/

/-- There are neither bars nor line feeds in the labels. -/
def PlainHeader (table : TruthTable) : Prop :=
  ∀ label ∈ table.header, FitsCell label

/-- The lines of the Markdown of a table. -/
def markdownLines (table : TruthTable) : List String :=
  barred table.header :: barred (table.header.map fun _ => ":-:") ::
    table.rows.map fun row => barred (row.map Text.digit)

theorem markdown_eq_unlines (table : TruthTable) :
    table.markdown = unlines table.markdownLines := by
  have hrows : (table.rows.map fun row => markdownLine (row.map Text.digit)) =
      (table.rows.map fun row => barred (row.map Text.digit)).map (· ++ "\n") := by
    rw [List.map_map]
    exact List.map_congr_left fun row _ => markdownLine_eq _
  rw [markdown, markdownLine_eq, markdownLine_eq, hrows, unlines, markdownLines, List.map_cons,
    List.map_cons, String.join_cons, String.join_cons, String.append_assoc]

theorem fitsCell_alignment (header : List String) :
    ∀ cell ∈ header.map fun _ => ":-:", FitsCell cell :=
  List.forall_mem_map.2 fun _ _ => by decide

theorem fitsCell_digits (row : List Bool) : ∀ cell ∈ row.map Text.digit, FitsCell cell :=
  List.forall_mem_map.2 fun value _ => by cases value <;> decide

variable {table : TruthTable}

theorem linesOf_markdown (h : table.PlainHeader) :
    linesOf table.markdown = table.markdownLines := by
  rw [markdown_eq_unlines, linesOf_unlines]
  refine List.forall_mem_cons.2 ⟨not_mem_barred h, List.forall_mem_cons.2
    ⟨not_mem_barred (fitsCell_alignment _), ?_⟩⟩
  exact List.forall_mem_map.2 fun row _ => not_mem_barred (fitsCell_digits row)

theorem cellsOf_alignment (header : List String) :
    cellsOf (barred (header.map fun _ => ":-:")) = List.replicate header.length ":-:" := by
  rw [cellsOf_barred (fitsCell_alignment header), List.map_const']

/-- The truth values of a line of digits. -/
def valuesOf (line : String) : List Bool :=
  (cellsOf line).map (· == "1")

theorem valuesOf_barred (row : List Bool) : valuesOf (barred (row.map Text.digit)) = row := by
  have hvalue : ((· == "1") ∘ Text.digit) = id := by
    funext value
    cases value <;> decide
  rw [valuesOf, cellsOf_barred (fitsCell_digits row), List.map_map, hvalue, List.map_id]

/-- The header and the rows of the table that a text is the Markdown of. -/
def readMarkdown (text : String) : List String × List (List Bool) :=
  (((linesOf text).head?.map cellsOf).getD [], ((linesOf text).drop 2).map valuesOf)

theorem readMarkdown_markdown (h : table.PlainHeader) :
    readMarkdown table.markdown = (table.header, table.rows) := by
  have hrow : valuesOf ∘ (fun row => barred (row.map Text.digit)) = id := funext valuesOf_barred
  have hrows : (table.rows.map fun row => barred (row.map Text.digit)).map valuesOf =
      table.rows := by
    rw [List.map_map, hrow, List.map_id]
  rw [readMarkdown, linesOf_markdown h, markdownLines, List.head?_cons, Option.map_some,
    Option.getD_some, cellsOf_barred h]
  exact Prod.ext rfl hrows

/-- There are neither bars nor blanks in the labels of the table of a text. -/
theorem plain_of_mem_header {p : Formula} (h : p.Lettered) {label : String}
    (hlabel : label ∈ (semantic p).header) :
    ∀ c ∈ label.toList, c ≠ '|' ∧ Text.isBlank c = false := by
  obtain ⟨q, hq, rfl⟩ := List.mem_map.1 hlabel
  exact (h.of_mem_columns hq).text_plain

theorem plainHeader_semantic {p : Formula} (h : p.Lettered) : (semantic p).PlainHeader := by
  intro label hlabel
  have hplain := plain_of_mem_header h hlabel
  refine ⟨fun hbar => (hplain '|' hbar).1 rfl, fun hfeed => ?_⟩
  have hblank := (hplain '\n' hfeed).2
  exact absurd hblank (by decide)

/-- What the Markdown of a table says. -/
structure ReadsBack (table : TruthTable) : Prop where
  read_eq : readMarkdown table.markdown = (table.header, table.rows)
  /-- No other header and no other rows have the same Markdown. -/
  eq_of_markdown_eq : ∀ other : TruthTable, other.PlainHeader → other.markdown = table.markdown →
    other.header = table.header ∧ other.rows = table.rows
  /-- Every line is ended by a line feed. -/
  unlines_eq : unlines (linesOf table.markdown) = table.markdown
  length_lines : (linesOf table.markdown).length = table.rows.length + 2
  line_ne_empty : ∀ line ∈ linesOf table.markdown, line ≠ ""
  /-- The second line aligns the columns, one cell for each label. -/
  alignment : (linesOf table.markdown)[1]?.map cellsOf =
    some (List.replicate table.header.length ":-:")

theorem PlainHeader.readsBack (h : table.PlainHeader) : table.ReadsBack where
  read_eq := readMarkdown_markdown h
  eq_of_markdown_eq other hother heq := by
    have hread := readMarkdown_markdown hother
    rw [heq, readMarkdown_markdown h, Prod.mk.injEq] at hread
    exact ⟨hread.1.symm, hread.2.symm⟩
  unlines_eq := by rw [linesOf_markdown h, markdown_eq_unlines]
  length_lines := by
    rw [linesOf_markdown h, markdownLines, List.length_cons, List.length_cons, List.length_map]
  line_ne_empty := by
    rw [linesOf_markdown h]
    refine List.forall_mem_cons.2 ⟨barred_ne_empty _, List.forall_mem_cons.2
      ⟨barred_ne_empty _, ?_⟩⟩
    exact List.forall_mem_map.2 fun row _ => barred_ne_empty _
  alignment := by
    rw [linesOf_markdown h]
    exact congrArg some (cellsOf_alignment table.header)

/-- The header and the rows of a table can be read back from its Markdown, if there are
neither bars nor line feeds in the labels. In the labels of the table of a text there are
not even blanks. -/
theorem markdown_faithful :
    (∀ table : TruthTable, table.PlainHeader → table.ReadsBack) ∧
      ∀ (source : String) (p : Formula), Formula.parse source = .ok p →
        ∃ table, ofFormula p = .ok table ∧ table.PlainHeader ∧
          ∀ label ∈ table.header, ∀ c ∈ label.toList, c ≠ '|' ∧ Text.isBlank c = false := by
  refine ⟨fun _ => PlainHeader.readsBack, fun source p hp => ?_⟩
  have hletters := Formula.lettered_of_parse hp
  exact ⟨semantic p, ofFormula_eq hletters.length_vars_lt, plainHeader_semantic hletters,
    fun _ => plain_of_mem_header hletters⟩

/-- No label and an empty one are told apart, and so are rows of unequal length. -/
theorem markdown_faithful_ragged :
    let table : TruthTable := ⟨[], [], [""], [[true, false], []]⟩
    table.PlainHeader ∧ table.markdown = "||\n|:-:|\n|1|0|\n|\n" ∧
      readMarkdown "||\n|:-:|\n|1|0|\n|\n" = ([""], [[true, false], []]) ∧
      ∀ other : TruthTable, other.header = [] → other.markdown ≠ table.markdown := by
  intro table
  have hplain : table.PlainHeader := by
    intro label hlabel
    rw [List.mem_singleton.1 hlabel]
    decide
  have htext : table.markdown = "||\n|:-:|\n|1|0|\n|\n" := by decide +kernel
  have hread := markdown_faithful.1 table hplain
  refine ⟨hplain, htext, htext ▸ hread.read_eq, fun other hother heq => ?_⟩
  have hheader := (hread.eq_of_markdown_eq other (by rw [PlainHeader, hother]; nofun) heq).1
  rw [hother] at hheader
  cases hheader

end Propositional.TruthTable
