import Propositional.Proofs.Text.Columns
import Propositional.Proofs.Text.Lines
import Propositional.Proofs.Text.Style
import Propositional.Proofs.TruthTable.Labels
import Propositional.TruthTable.Plain

/-!
# Reading a table back from a terminal

Styled or not, what is seen of a table for a terminal is a text of lines
(`FitsGrid.shows_plain`, `plain_eq_unlines`), and every line is a line of cells that are as wide
as the labels (`widthsOf_rowCells`). So the columns are the same in all lines: a label
stands in its column, and in the lines below it a digit in the middle of the column, with
blanks around it. For this the labels must have no blanks and no escape characters in them,
and must not be empty, and every row must have a cell for each label (`FitsGrid`), which
holds of the table of a text (`fitsGrid_semantic`).

`Grid` states what is where; `readPlain` finds the header and the rows again.
-/

namespace Propositional.TruthTable

open Grammar Text

/-- The label can head a column: it is there, and has neither blanks, line feeds nor escape
characters in it. -/
structure FitsColumn (label : String) : Prop where
  ne_empty : label ≠ ""
  no_blank : ' ' ∉ label.toList
  no_feed : '\n' ∉ label.toList
  no_escape : escapeChar ∉ label.toList

/-- The table can be shown in columns. -/
structure FitsGrid (table : TruthTable) : Prop where
  label : ∀ label ∈ table.header, FitsColumn label
  length_row : ∀ row ∈ table.rows, row.length = table.header.length

/-- The widths of the columns. -/
def widths (table : TruthTable) : List Nat :=
  table.header.map String.length

/-- The character for a truth value. -/
def digitChar (value : Bool) : Char :=
  if value then '1' else '0'

theorem toList_digit (value : Bool) : (digit value).toList = [digitChar value] := by
  cases value <;> rfl

/-! ## Lines of cells -/

/-- The cells of the line of a row. -/
def rowCells (widths : List Nat) (row : List Bool) : List (List Char) :=
  List.zipWith (fun value width => (centered width (digit value)).toList) row widths

/-- The line of a row. -/
def rowLine (widths : List Nat) (row : List Bool) : String :=
  String.ofList (aligned (rowCells widths row))

/-- The line of the labels. -/
def headerLine (table : TruthTable) : String :=
  String.ofList (aligned (table.header.map String.toList))

/-- The lines of a table for a terminal, as they are seen. -/
def plainLines (table : TruthTable) : List String :=
  table.headerLine :: table.rows.map (rowLine table.widths)

theorem toList_intercalate_blanks (cells : List String) :
    ("  ".intercalate cells).toList = aligned (cells.map String.toList) :=
  String.toList_intercalate

theorem plainLine_eq (cells : List String) :
    plainLine cells = String.ofList (aligned (cells.map String.toList)) ++ "\n" := by
  rw [plainLine, ← toList_intercalate_blanks, String.ofList_toList]

theorem plainLine_row (widths : List Nat) (row : List Bool) :
    plainLine (List.zipWith (plainCell false) row widths) = rowLine widths row ++ "\n" := by
  rw [plainLine_eq, List.map_zipWith]
  rfl

theorem plain_eq_unlines (table : TruthTable) :
    table.plain false = unlines table.plainLines := by
  have hheader : table.header.map (styled false [.bold]) = table.header := List.map_id _
  have hrows : (table.rows.map fun row =>
      plainLine (List.zipWith (plainCell false) row (table.header.map String.length))) =
      (table.rows.map (rowLine table.widths)).map (· ++ "\n") := by
    rw [List.map_map]
    exact List.map_congr_left fun row _ => plainLine_row _ row
  rw [plain, hheader, plainLine_eq, hrows, unlines, plainLines, List.map_cons, String.join_cons]
  rfl

/-! ## What is seen -/

theorem shows_plainLine {α : Type} {f g : α → String} {as : List α}
    (h : ∀ a ∈ as, Shows (f a) (g a)) :
    Shows (plainLine (as.map f)) (plainLine (as.map g)) :=
  (shows_intercalate (by decide) h).append (shows_self (by decide))

theorem not_mem_centered {x : Char} (hx : x ≠ ' ') {text : String} (h : x ∉ text.toList)
    (width : Nat) : x ∉ (centered width text).toList := by
  simp [centered, hx, h]

theorem shows_plainCell (styling value : Bool) (width : Nat) :
    Shows (plainCell styling value width) (plainCell false value width) := by
  refine shows_styled styling _ (not_mem_centered (by decide) ?_ width)
  cases value <;> decide

/-- Styling makes no difference to what is seen. -/
theorem FitsGrid.shows_plain {table : TruthTable} (h : table.FitsGrid) (styling : Bool) :
    Shows (table.plain styling) (table.plain false) := by
  refine (shows_plainLine fun label hlabel => ?_).append (shows_join fun row _ => ?_)
  · exact shows_styled styling _ (h.label label hlabel).no_escape
  · rw [← List.map_uncurry_zip_eq_zipWith, ← List.map_uncurry_zip_eq_zipWith]
    exact shows_plainLine fun cell _ => shows_plainCell styling cell.1 cell.2

/-! ## Columns -/

variable {table : TruthTable} {row : List Bool}

theorem widthsOf_header (table : TruthTable) :
    widthsOf (table.header.map String.toList) = table.widths := by
  rw [widthsOf, List.map_map, widths]
  exact List.map_congr_left fun label _ => String.length_toList

theorem getElem?_widths {j : Nat} {label : String} (h : table.header[j]? = some label) :
    table.widths[j]? = some label.length := by
  rw [widths, List.getElem?_map, h, Option.map_some]

theorem FitsColumn.length_pos {label : String} (h : FitsColumn label) : 0 < label.length := by
  rw [← String.length_toList, List.length_pos_iff]
  intro hnil
  exact h.ne_empty (String.toList_eq_nil_iff.1 hnil)

theorem FitsGrid.width_pos (h : table.FitsGrid) : ∀ width ∈ table.widths, 0 < width :=
  List.forall_mem_map.2 fun label hlabel => (h.label label hlabel).length_pos

theorem FitsGrid.length_widths (h : table.FitsGrid) (hrow : row ∈ table.rows) :
    row.length = table.widths.length := by
  rw [widths, List.length_map]
  exact h.length_row row hrow

theorem length_rowCells {widths : List Nat} (h : row.length = widths.length) :
    (rowCells widths row).length = widths.length := by
  rw [rowCells, List.length_zipWith, h, Nat.min_self]

theorem getElem?_rowCells {widths : List Nat} {j : Nat} {value : Bool} {width : Nat}
    (hv : row[j]? = some value) (hw : widths[j]? = some width) :
    (rowCells widths row)[j]? = some (centered width (digit value)).toList := by
  rw [rowCells, List.getElem?_zipWith, hv, hw]

/-- The cells of a row are as wide as the columns. -/
theorem widthsOf_rowCells {widths : List Nat} (hlength : row.length = widths.length)
    (hpos : ∀ width ∈ widths, 0 < width) : widthsOf (rowCells widths row) = widths := by
  refine List.ext_getElem (by rw [List.length_map, length_rowCells hlength]) fun j hj hw => ?_
  have hv : row[j]? = some row[j] := List.getElem?_eq_getElem (hlength ▸ hw)
  have hcell := getElem?_rowCells hv (List.getElem?_eq_getElem hw)
  rw [List.length_map] at hj
  rw [List.getElem?_eq_getElem hj, Option.some_inj] at hcell
  rw [List.getElem_map, hcell]
  exact length_centered (toList_digit _) (hpos _ (List.getElem_mem hw))

/-! ## Reading -/

/-- The words of a line: what stands between blanks. -/
def wordsOf (line : String) : List String :=
  ((line.toList.splitOn ' ').filter (· ≠ [])).map String.ofList

/-- The truth values of a line: what stands in it besides blanks. -/
def digitsOf (line : String) : List Bool :=
  (line.toList.filter (· ≠ ' ')).map (· == '1')

/-- The header and the rows of the table that a text shows. -/
def readPlain (text : String) : List String × List (List Bool) :=
  (((linesOf text).head?.map wordsOf).getD [], (linesOf text).tail.map digitsOf)

theorem splitOn_aligned {words : List (List Char)}
    (h : ∀ word ∈ words, word ≠ [] ∧ ' ' ∉ word) :
    ((aligned words).splitOn ' ').filter (· ≠ []) = words := by
  induction words using List.twoStepInduction with
  | nil => rfl
  | singleton word =>
    obtain ⟨hne, hblank⟩ := h word (List.mem_singleton_self word)
    rw [aligned, List.intercalate_singleton, List.splitOn_eq_singleton hblank]
    simp [hne]
  | cons_cons word next words _ ih =>
    obtain ⟨⟨hne, hblank⟩, hwords⟩ := List.forall_mem_cons.1 h
    have hgap : (' ' :: aligned (next :: words)).splitOn ' ' =
        [] :: (aligned (next :: words)).splitOn ' ' :=
      List.splitOn_append_cons_self_of_not_mem List.not_mem_nil _
    rw [aligned_cons, List.splitOn_append_cons_self_of_not_mem hblank, hgap,
      List.filter_cons_of_pos (by simpa using hne), List.filter_cons_of_neg (by simp),
      ih next hwords]

theorem FitsGrid.wordsOf_headerLine (h : table.FitsGrid) :
    wordsOf table.headerLine = table.header := by
  have hwords : ∀ word ∈ table.header.map String.toList, word ≠ [] ∧ ' ' ∉ word := by
    refine List.forall_mem_map.2 fun label hlabel => ?_
    have hfits := h.label label hlabel
    exact ⟨fun hnil => hfits.ne_empty (String.toList_eq_nil_iff.1 hnil), hfits.no_blank⟩
  rw [wordsOf, headerLine, String.toList_ofList, splitOn_aligned hwords, List.map_map]
  simp [Function.comp_def]

theorem filter_aligned (cells : List (List Char)) :
    (aligned cells).filter (· ≠ ' ') = cells.flatMap fun cell => cell.filter (· ≠ ' ') := by
  induction cells using List.twoStepInduction with
  | nil => rfl
  | singleton cell => simp [aligned]
  | cons_cons cell next cells _ ih =>
    rw [aligned_cons, List.filter_append, List.flatMap_cons, ← ih next]
    simp

theorem filter_centered (value : Bool) (width : Nat) :
    (centered width (digit value)).toList.filter (· ≠ ' ') = [digitChar value] := by
  rw [toList_centered (toList_digit value)]
  cases value <;> simp [digitChar]

theorem digitsOf_rowLine {widths : List Nat} (h : row.length = widths.length) :
    digitsOf (rowLine widths row) = row := by
  rw [digitsOf, rowLine, String.toList_ofList, filter_aligned, rowCells]
  induction row generalizing widths with
  | nil => rfl
  | cons value row ih =>
    cases widths with
    | nil => cases h
    | cons width widths =>
      rw [List.zipWith_cons_cons, List.flatMap_cons, filter_centered, List.map_append,
        ih (Nat.succ.inj h)]
      cases value <;> rfl

/-! ## The grid -/

/-- The text shows the table in columns as wide as the labels, with two blanks between. -/
structure Grid (table : TruthTable) (text : String) : Prop where
  /-- Every line is ended by a line feed. -/
  unlines_eq : unlines (linesOf text) = text
  /-- There is a line for the labels, and one for each row. -/
  length_lines : (linesOf text).length = 1 + table.rows.length
  /-- The lines are as long as the columns are wide, with the blanks between them. -/
  length_line : ∀ line ∈ linesOf text,
    line.length = total table.widths + 2 * (table.header.length - 1)
  /-- In the first line, the labels stand in their columns. -/
  label_char : ∀ line, (linesOf text)[0]? = some line →
    ∀ (j : Nat) (label : String), table.header[j]? = some label →
      ∀ i < label.length, line.toList[columnStart table.widths j + i]? = label.toList[i]?
  /-- In the line of a row, the digit of a cell stands in the middle of its column, and
  there are blanks around it. -/
  cell_char : ∀ (k : Nat) (row : List Bool) (line : String), table.rows[k]? = some row →
    (linesOf text)[k + 1]? = some line →
      ∀ (j : Nat) (value : Bool) (label : String), row[j]? = some value →
        table.header[j]? = some label → ∀ i < label.length,
          line.toList[columnStart table.widths j + i]? =
            some (if i = (label.length - 1) / 2 then digitChar value else ' ')
  /-- Two blanks are behind every column but the last. -/
  gap_char : ∀ line ∈ linesOf text, ∀ (j : Nat) (label : String),
    table.header[j]? = some label → j + 1 < table.header.length → ∀ i < 2,
      line.toList[columnStart table.widths j + (label.length + i)]? = some ' '
  read_eq : readPlain text = (table.header, table.rows)

theorem not_mem_aligned {x : Char} (hx : x ≠ ' ') {cells : List (List Char)}
    (h : ∀ cell ∈ cells, x ∉ cell) : x ∉ aligned cells :=
  not_mem_intercalate (by simp [hx]) h

theorem not_mem_rowLine (widths : List Nat) (row : List Bool) :
    '\n' ∉ (rowLine widths row).toList := by
  rw [rowLine, String.toList_ofList, rowCells, ← List.map_uncurry_zip_eq_zipWith]
  refine not_mem_aligned (by decide) (List.forall_mem_map.2 fun cell _ => ?_)
  refine not_mem_centered (by decide) ?_ cell.2
  cases cell.1 <;> decide

theorem FitsGrid.linesOf_plain (h : table.FitsGrid) :
    linesOf (table.plain false) = table.plainLines := by
  rw [plain_eq_unlines, linesOf_unlines]
  refine List.forall_mem_cons.2 ⟨?_, List.forall_mem_map.2 fun row _ => not_mem_rowLine _ row⟩
  rw [headerLine, String.toList_ofList]
  exact not_mem_aligned (by decide)
    (List.forall_mem_map.2 fun label hlabel => (h.label label hlabel).no_feed)

/-- Every line is made of cells that are as wide as the labels. -/
theorem FitsGrid.exists_cells (h : table.FitsGrid) {line : String}
    (hline : line ∈ table.plainLines) :
    ∃ cells : List (List Char), line.toList = aligned cells ∧ widthsOf cells = table.widths := by
  rw [plainLines, List.mem_cons, List.mem_map] at hline
  obtain rfl | ⟨row, hrow, rfl⟩ := hline
  · exact ⟨_, String.toList_ofList, widthsOf_header table⟩
  · exact ⟨_, String.toList_ofList, widthsOf_rowCells (h.length_widths hrow) h.width_pos⟩

theorem length_eq_of_widthsOf {cells : List (List Char)} (h : widthsOf cells = table.widths) :
    cells.length = table.header.length := by
  have hlength := congrArg List.length h
  rwa [List.length_map, widths, List.length_map] at hlength

theorem FitsGrid.grid (h : table.FitsGrid) : table.Grid (table.plain false) where
  unlines_eq := by rw [h.linesOf_plain, plain_eq_unlines]
  length_lines := by
    rw [h.linesOf_plain, plainLines, List.length_cons, List.length_map, Nat.add_comm]
  length_line := by
    rw [h.linesOf_plain]
    intro line hline
    obtain ⟨cells, hcells, hwidths⟩ := h.exists_cells hline
    rw [← String.length_toList, hcells, length_aligned, hwidths, length_eq_of_widthsOf hwidths]
  label_char := by
    rw [h.linesOf_plain]
    intro line hline j label hlabel i hi
    obtain rfl : table.headerLine = line := Option.some_inj.1 hline
    rw [headerLine, String.toList_ofList, ← widthsOf_header]
    refine getElem?_aligned_cell ?_ (by rwa [String.length_toList])
    rw [List.getElem?_map, hlabel]
    rfl
  cell_char := by
    rw [h.linesOf_plain]
    intro k row line hrow hline j value label hvalue hlabel i hi
    rw [plainLines, List.getElem?_cons_succ, List.getElem?_map, hrow] at hline
    obtain rfl : rowLine table.widths row = line := Option.some_inj.1 hline
    have hcell := getElem?_rowCells hvalue (getElem?_widths hlabel)
    have hwidths := widthsOf_rowCells (h.length_widths (List.mem_of_getElem? hrow)) h.width_pos
    have hlength := length_centered (toList_digit value) (Nat.zero_lt_of_lt hi)
    have hchar := getElem?_aligned_cell hcell (Nat.lt_of_lt_of_eq hi hlength.symm)
    rw [hwidths] at hchar
    rw [rowLine, String.toList_ofList, hchar]
    exact getElem?_centered (toList_digit value) hi
  gap_char := by
    rw [h.linesOf_plain]
    intro line hline j label hlabel hj i hi
    obtain ⟨cells, hcells, hwidths⟩ := h.exists_cells hline
    have hwidth := getElem?_widths hlabel
    rw [← hwidths, List.getElem?_map, Option.map_eq_some_iff] at hwidth
    obtain ⟨cell, hcell, hlength⟩ := hwidth
    rw [hcells, ← hwidths, ← hlength]
    exact getElem?_aligned_gap hcell (by rwa [length_eq_of_widthsOf hwidths]) hi
  read_eq := by
    rw [readPlain, h.linesOf_plain, plainLines, List.head?_cons, Option.map_some,
      Option.getD_some, h.wordsOf_headerLine, List.tail_cons, List.map_map]
    refine Prod.ext rfl ((List.map_congr_left fun row hrow => ?_).trans (List.map_id _))
    exact digitsOf_rowLine (h.length_widths hrow)

/-! ## The table of a text -/

theorem fitsColumn_text {p : Formula} (h : p.Lettered) : FitsColumn p.text where
  ne_empty := h.text_ne_empty
  no_blank := h.not_mem_text (by decide) (by decide)
  no_feed := h.not_mem_text (by decide) (by decide)
  no_escape := h.not_mem_text (by decide) (by decide)

theorem fitsGrid_semantic {p : Formula} (h : p.Lettered) : (semantic p).FitsGrid where
  label := List.forall_mem_map.2 fun _ hq => fitsColumn_text (h.of_mem_columns hq)
  length_row row hrow := ((tabulates_semantic p).length_row row hrow).2

theorem columns_ne_nil (p : Formula) : p.columns ≠ [] := by
  intro hnil
  have hlast := p.getLast?_columns
  rw [hnil] at hlast
  cases hlast

/-- The table of a text is shown in columns that are as wide as their labels, and the same
is seen of it when it is styled. -/
theorem plain_grid {source : String} {p : Formula} (h : Formula.parse source = .ok p) :
    ∃ table, ofFormula p = .ok table ∧
      table.columns ≠ [] ∧ table.header.length = table.columns.length ∧
      (∀ row ∈ table.rows, row.length = table.columns.length) ∧
      (∀ styling, unstyled (table.plain styling) = table.plain false) ∧
      table.Grid (table.plain false) := by
  have hletters := Formula.lettered_of_parse h
  have hgrid := fitsGrid_semantic hletters
  refine ⟨semantic p, ofFormula_eq hletters.length_vars_lt, columns_ne_nil p, List.length_map _,
    fun row hrow => ?_, fun styling => ?_, hgrid.grid⟩
  · exact ((tabulates_semantic p).length_row row hrow).1
  · exact (hgrid.shows_plain styling).unstyled_eq

/-- The column of `(a=>b)` is six characters wide, and its digits stand at the third. -/
theorem plain_grid_implication :
    let p := Formula.binary .implication (.var 'a') (.var 'b')
    let text := "a  b  (a=>b)\n0  0    1   \n0  1    1   \n1  0    0   \n1  1    1   \n"
    Formula.parse "a => b" = .ok p ∧ ∃ table, ofFormula p = .ok table ∧
      table.plain false = text ∧ table.plain true ≠ text ∧ unstyled (table.plain true) = text ∧
      readPlain text = (["a", "b", "(a=>b)"],
        [[false, false, true], [false, true, true], [true, false, false], [true, true, true]]) := by
  intro p text
  have hp : Formula.parse "a => b" = .ok p := by
    have hlinks : Links ['=', '>', 'b'] [(.implication, .var 'b')] 0 :=
      @Links.cons .implication ['b'] [] _ _ _ _ (.letter rfl) .nil
    exact Formula.parse_eq_ok_iff.2 ⟨0, by decide, .chain (.letter rfl) hlinks⟩
  obtain ⟨table, htable, -, -, -, hseen, hgrid⟩ := plain_grid hp
  obtain rfl : table = semantic p :=
    Except.ok.inj (htable.symm.trans (ofFormula_eq (by decide)))
  have hcolumns := Formula.columns_eq p
  have hplain : (semantic p).plain false = text := by
    simp only [semantic, hcolumns]
    decide +kernel
  have hstyled : (semantic p).plain true ≠ text := by
    simp only [semantic, hcolumns]
    decide +kernel
  have hread := hgrid.read_eq
  rw [hplain] at hread
  refine ⟨hp, semantic p, htable, hplain, hstyled, (hseen true).trans hplain, hread.trans ?_⟩
  simp only [semantic, hcolumns]
  decide +kernel

end Propositional.TruthTable
