import Propositional.Proofs.TruthTable.Markup

/-!
# Reading a table back from its HTML

The HTML of a table is the text of its `tokens` (`toList_html`). These are
nested (`nested_tokens`), and their tags are those of the rows, labels and cells
in order (`tags_tokens`). `readHtml` goes through them from the last to the
first and collects labels, cells and rows; it finds the header and the rows of
the table again (`readHtml_html`).
-/

namespace Propositional.Markup

open TruthTable (escape htmlLabel htmlCell htmlRow)

/-! ## Elements -/

/-- An element and what is in it. -/
def elementTokens (tag : Tag) (inner : List Token) : List Token :=
  .opening tag :: (inner ++ [.closing tag.element])

/-- The tag that opens an element, if the token is one. -/
def Token.tag? : Token → Option Tag
  | opening tag => some tag
  | closing _ | char _ => none

theorem textOf_append (tokens more : List Token) :
    textOf (tokens ++ more) = textOf tokens ++ textOf more :=
  List.flatMap_append ..

theorem textOf_flatten (parts : List (List Token)) :
    textOf parts.flatten = parts.flatMap textOf := by
  induction parts with
  | nil => rfl
  | cons part parts ih => rw [List.flatten_cons, textOf_append, ih, List.flatMap_cons]

theorem textOf_chars (chars : List Char) : textOf (chars.map .char) = chars := by
  rw [textOf, List.flatMap_map]
  exact List.flatMap_singleton' chars

theorem textOf_elementTokens (tag : Tag) (inner : List Token) :
    textOf (elementTokens tag inner) =
      Token.text (.opening tag) ++ (textOf inner ++ Token.text (.closing tag.element)) := by
  simp [elementTokens, textOf]

theorem Nested.elementTokens {tag : Tag} {inner : List Token} (h : Nested inner) :
    Nested (elementTokens tag inner) :=
  .element h .nil

theorem tags_chars (chars : List Char) : (chars.map Token.char).filterMap Token.tag? = [] := by
  simp [Token.tag?]

theorem tags_elementTokens (tag : Tag) (inner : List Token) :
    (elementTokens tag inner).filterMap Token.tag? = tag :: inner.filterMap Token.tag? := by
  simp [elementTokens, Token.tag?]

theorem tags_flatten (parts : List (List Token)) :
    parts.flatten.filterMap Token.tag? = parts.flatMap (List.filterMap Token.tag?) := by
  induction parts with
  | nil => rfl
  | cons part parts ih => rw [List.flatten_cons, List.filterMap_append, ih, List.flatMap_cons]

/-! ## The tokens of a table -/

def labelTokens (label : String) : List Token :=
  elementTokens .th ((escape label).toList.map .char)

def cellTokens (value : Bool) : List Token :=
  elementTokens (.td value) ((Text.digit value).toList.map .char)

def rowTokens (cells : List (List Token)) : List Token :=
  elementTokens .tr cells.flatten

/-- The tokens of the HTML of a table. -/
def tokens (table : TruthTable) : List Token :=
  elementTokens .table (rowTokens (table.header.map labelTokens) ++
    (table.rows.map fun row => rowTokens (row.map cellTokens)).flatten)

theorem toList_htmlLabel (label : String) :
    (htmlLabel label).toList = textOf (labelTokens label) := by
  rw [labelTokens, textOf_elementTokens, textOf_chars, htmlLabel, String.toList_append,
    String.toList_append, List.append_assoc]
  rfl

theorem toList_htmlCell (value : Bool) : (htmlCell value).toList = textOf (cellTokens value) := by
  cases value <;> decide +kernel

/-- A row is written cell by cell. -/
theorem toList_htmlRow {α : Type} {cell : α → String} {cellTokens : α → List Token}
    (h : ∀ a, (cell a).toList = textOf (cellTokens a)) (as : List α) :
    (htmlRow (as.map cell)).toList = textOf (rowTokens (as.map cellTokens)) := by
  have hcells : (as.map cell).flatMap String.toList = (as.map cellTokens).flatMap textOf := by
    rw [List.flatMap_map, List.flatMap_map]
    exact congrArg (as.flatMap ·) (funext h)
  rw [rowTokens, textOf_elementTokens, textOf_flatten, ← hcells, htmlRow, String.toList_append,
    String.toList_append, String.toList_join, List.append_assoc]
  rfl

theorem toList_html (table : TruthTable) : table.html.toList = textOf (tokens table) := by
  have hrows : (table.rows.map fun row => htmlRow (row.map htmlCell)).flatMap String.toList =
      (table.rows.map fun row => rowTokens (row.map cellTokens)).flatMap textOf := by
    rw [List.flatMap_map, List.flatMap_map]
    exact congrArg (table.rows.flatMap ·) (funext (toList_htmlRow toList_htmlCell))
  rw [tokens, textOf_elementTokens, textOf_append, textOf_flatten, ← hrows,
    ← toList_htmlRow toList_htmlLabel, TruthTable.html]
  simp only [String.toList_append, String.toList_join, List.append_assoc]
  rfl

theorem nested_labelTokens (label : String) : Nested (labelTokens label) :=
  (nested_chars fun _ => plain_of_mem_escape).elementTokens

theorem nested_cellTokens (value : Bool) : Nested (cellTokens value) := by
  refine (nested_chars (plain_of_all ?_)).elementTokens
  cases value <;> decide +kernel

theorem nested_rowTokens {cells : List (List Token)} (h : ∀ cell ∈ cells, Nested cell) :
    Nested (rowTokens cells) :=
  (Nested.flatten h).elementTokens

theorem nested_tokens (table : TruthTable) : Nested (tokens table) := by
  refine (Nested.append (nested_rowTokens ?_) (Nested.flatten ?_)).elementTokens
  · exact List.forall_mem_map.2 fun label _ => nested_labelTokens label
  · refine List.forall_mem_map.2 fun row _ => nested_rowTokens ?_
    exact List.forall_mem_map.2 fun value _ => nested_cellTokens value

theorem tags_labelTokens (label : String) :
    (labelTokens label).filterMap Token.tag? = [.th] := by
  rw [labelTokens, tags_elementTokens, tags_chars]

theorem tags_cellTokens (value : Bool) :
    (cellTokens value).filterMap Token.tag? = [.td value] := by
  rw [cellTokens, tags_elementTokens, tags_chars]

theorem tags_rowTokens {α : Type} {cellTokens : α → List Token} {tag : α → Tag}
    (h : ∀ a, (cellTokens a).filterMap Token.tag? = [tag a]) (as : List α) :
    (rowTokens (as.map cellTokens)).filterMap Token.tag? = .tr :: as.map tag := by
  rw [rowTokens, tags_elementTokens, tags_flatten, List.flatMap_map, funext h,
    List.map_eq_flatMap]

/-- The elements are opened in the order of the table: one row for the labels and
one for each of its rows, and in them one element for each label and each cell. -/
theorem tags_tokens (table : TruthTable) :
    (tokens table).filterMap Token.tag? =
      .table :: .tr :: ((table.header.map fun _ => .th) ++
        table.rows.flatMap fun row => .tr :: row.map .td) := by
  rw [tokens, tags_elementTokens, List.filterMap_append, tags_rowTokens tags_labelTokens,
    tags_flatten, List.flatMap_map, funext (tags_rowTokens tags_cellTokens), List.cons_append]

/-! ## Reading the tokens -/

/-- What has been read of a table, from its end. -/
structure Reader where
  /-- The characters up to the next tag. -/
  chars : List Char := []
  /-- The labels of the row that is being read. -/
  labels : List String := []
  /-- The cells of the row that is being read. -/
  cells : List Bool := []
  /-- The rows that have been read, each with its labels and its cells. -/
  rows : List (List String × List Bool) := []

namespace Reader

/-- Reads one more token, which stands before those that have been read. -/
def step : Token → Reader → Reader
  | .char c, r => { r with chars := c :: r.chars }
  | .closing _, r => { r with chars := [] }
  | .opening .th, r =>
    { r with chars := [], labels := String.ofList (unescape r.chars) :: r.labels }
  | .opening (.td value), r => { r with chars := [], cells := value :: r.cells }
  | .opening .tr, r => { rows := (r.labels, r.cells) :: r.rows }
  | .opening .table, r => r

/-- Reads several tokens. -/
def read (tokens : List Token) (r : Reader) : Reader :=
  tokens.foldr step r

variable {labels : List String} {cells : List Bool} {rows : List (List String × List Bool)}

theorem read_append (tokens more : List Token) (r : Reader) :
    read (tokens ++ more) r = read tokens (read more r) :=
  List.foldr_append

theorem read_chars (chars : List Char) (r : Reader) :
    read (chars.map .char) r = { r with chars := chars ++ r.chars } := by
  induction chars with
  | nil => rfl
  | cons c chars ih =>
    rw [List.map_cons, read, List.foldr_cons, ← read, ih]
    rfl

theorem read_elementTokens (tag : Tag) (inner : List Token) (r : Reader) :
    read (elementTokens tag inner) r =
      step (.opening tag) (read inner { r with chars := [] }) := by
  rw [elementTokens, read, List.foldr_cons, ← read, read_append]
  rfl

/-- In front of the rest of a row, an element is read as one label more. -/
theorem read_labelTokens (label : String) :
    read (labelTokens label) ⟨[], labels, cells, rows⟩ = ⟨[], label :: labels, cells, rows⟩ := by
  rw [labelTokens, read_elementTokens, read_chars, List.append_nil]
  simp only [step, unescape_escape]

theorem read_cellTokens (value : Bool) :
    read (cellTokens value) ⟨[], labels, cells, rows⟩ = ⟨[], labels, value :: cells, rows⟩ := by
  rw [cellTokens, read_elementTokens, read_chars]
  rfl

theorem read_labels (header : List String) :
    read (header.map labelTokens).flatten { rows } = { labels := header, rows } := by
  induction header with
  | nil => rfl
  | cons label header ih =>
    rw [List.map_cons, List.flatten_cons, read_append, ih, read_labelTokens]

theorem read_cells (row : List Bool) :
    read (row.map cellTokens).flatten { rows } = { cells := row, rows } := by
  induction row with
  | nil => rfl
  | cons value row ih =>
    rw [List.map_cons, List.flatten_cons, read_append, ih, read_cellTokens]

theorem read_header (header : List String) :
    read (rowTokens (header.map labelTokens)) { rows } = { rows := (header, []) :: rows } := by
  rw [rowTokens, read_elementTokens, read_labels]
  rfl

theorem read_row (row : List Bool) :
    read (rowTokens (row.map cellTokens)) { rows } = { rows := ([], row) :: rows } := by
  rw [rowTokens, read_elementTokens, read_cells]
  rfl

theorem read_rows (rows : List (List Bool)) :
    read (rows.map fun row => rowTokens (row.map cellTokens)).flatten {} =
      { rows := rows.map fun row => ([], row) } := by
  induction rows with
  | nil => rfl
  | cons row rows ih => rw [List.map_cons, List.flatten_cons, read_append, ih, read_row]; rfl

theorem read_tokens (table : TruthTable) :
    read (tokens table) {} =
      { rows := (table.header, []) :: table.rows.map fun row => ([], row) } := by
  rw [tokens, read_elementTokens, read_append, read_rows, read_header]
  rfl

end Reader

/-- The header and the rows of the table that a text is the HTML of. -/
def readHtml (html : String) : Option (List String × List (List Bool)) :=
  (scan none html.toList).bind fun tokens =>
    match (Reader.read tokens {}).rows with
    | [] => none
    | header :: rows => some (header.1, rows.map Prod.snd)

theorem readHtml_html (table : TruthTable) :
    readHtml table.html = some (table.header, table.rows) := by
  rw [readHtml, toList_html, scan_textOf (nested_tokens table).plain, Option.bind_some,
    Reader.read_tokens]
  simp [Function.comp_def]

end Propositional.Markup

namespace Propositional.TruthTable

open Markup

/-- The header and the rows of a table can be read back from its HTML, so that
tables with the same HTML have the same header and the same rows. The brackets
of the HTML are those of its tags, which are nested; one row is opened for the
labels and one for each row, and in them one element for each label and each
cell. -/
theorem html_faithful (table : TruthTable) :
    readHtml table.html = some (table.header, table.rows) ∧
      (∀ other : TruthTable, other.html = table.html →
        other.header = table.header ∧ other.rows = table.rows) ∧
      ∃ tokens : List Token, textOf tokens = table.html.toList ∧
        (∀ c, Token.char c ∈ tokens → c ≠ '<' ∧ c ≠ '>') ∧ Nested tokens ∧
        tokens.filterMap Token.tag? =
          .table :: .tr :: ((table.header.map fun _ => .th) ++
            table.rows.flatMap fun row => .tr :: row.map .td) := by
  refine ⟨readHtml_html table, fun other h => ?_, tokens table, (toList_html table).symm,
    (nested_tokens table).plain, nested_tokens table, tags_tokens table⟩
  have hread := readHtml_html other
  rw [h, readHtml_html, Option.some_inj, Prod.mk.injEq] at hread
  exact ⟨hread.1.symm, hread.2.symm⟩

/-- A label that is itself written as markup, an empty one, and rows of unequal length. -/
theorem html_faithful_markup :
    let table : TruthTable := ⟨[], [], ["</th>&lt;", ""], [[true, false], []]⟩
    table.html = "<table><tr><th>&lt;/th&gt;&amp;lt;</th><th></th></tr>" ++
        "<tr><td class='true'>1</td><td class='false'>0</td></tr><tr></tr></table>" ∧
      readHtml table.html = some (["</th>&lt;", ""], [[true, false], []]) ∧
      ∀ other : TruthTable, other.html = table.html → other.header = ["</th>&lt;", ""] := by
  intro table
  obtain ⟨hread, hother, -⟩ := html_faithful table
  exact ⟨by decide +kernel, hread, fun other h => (hother other h).1⟩

end Propositional.TruthTable
