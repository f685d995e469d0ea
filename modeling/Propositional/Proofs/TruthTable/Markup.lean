import Propositional.TruthTable.Html

/-!
# Reading markup

The markup of a table is a text of `Token`s: the tags of tables, rows, labels
and cells, and single characters. `scan` finds the tokens of a text again, if no
character between the tags is a bracket (`scan_textOf`). `Nested` says that
there is none, and that every element that is opened is closed, one inside the
other. Labels are escaped in three replacements one after another, which come to
what is done to each character by itself (`toList_escape`); `unescape` undoes
that in one pass.
-/

namespace Propositional.Markup

/-- The kinds of elements. -/
inductive Element where
  | table
  | tr
  | th
  | td
deriving DecidableEq

def Element.name : Element → List Char
  | table => ['t', 'a', 'b', 'l', 'e']
  | tr => ['t', 'r']
  | th => ['t', 'h']
  | td => ['t', 'd']

/-- What opens an element. A cell has a class, which is a truth value. -/
inductive Tag where
  | table
  | tr
  | th
  | td (value : Bool)
deriving DecidableEq

namespace Tag

/-- The element that a tag opens. -/
def element : Tag → Element
  | table => .table
  | tr => .tr
  | th => .th
  | td _ => .td

/-- What stands between the brackets of a tag. -/
def inner : Tag → List Char
  | td true => "td class='true'".toList
  | td false => "td class='false'".toList
  | tag => tag.element.name

end Tag

/-- A piece of markup. -/
inductive Token where
  | opening (tag : Tag)
  | closing (element : Element)
  | char (c : Char)
deriving DecidableEq

/-- The text of a token. -/
def Token.text : Token → List Char
  | opening tag => '<' :: (tag.inner ++ ['>'])
  | closing element => '<' :: ('/' :: element.name ++ ['>'])
  | char c => [c]

/-- The text of several tokens. -/
def textOf (tokens : List Token) : List Char :=
  tokens.flatMap Token.text

/-! ## Scanning -/

/-- All tags. -/
def tags : List Token :=
  [.opening .table, .opening .tr, .opening .th, .opening (.td true), .opening (.td false),
    .closing .table, .closing .tr, .closing .th, .closing .td]

/-- The tag with the given text. -/
def tagOfText? (text : List Char) : Option Token :=
  tags.find? fun tag => tag.text = text

/-- The tokens of a text. Inside a tag, `tag?` is what has been read of it, the
last character first. -/
def scan (tag? : Option (List Char)) : List Char → Option (List Token)
  | [] => if tag?.isNone then some [] else none
  | c :: chars =>
    match tag? with
    | none =>
      if c = '<' then scan (some ['<']) chars
      else if c = '>' then none
      else (scan none chars).map (.char c :: ·)
    | some tag =>
      if c = '>' then
        (tagOfText? ('>' :: tag).reverse).bind fun token => (scan none chars).map (token :: ·)
      else scan (some (c :: tag)) chars

/-- No bracket. -/
def Plain (c : Char) : Prop := c ≠ '<' ∧ c ≠ '>'

instance : DecidablePred Plain :=
  fun c => inferInstanceAs (Decidable (c ≠ '<' ∧ c ≠ '>'))

theorem plain_of_all {chars : List Char} (h : chars.all fun c => Plain c) :
    ∀ c ∈ chars, Plain c :=
  fun c hc => of_decide_eq_true (List.all_eq_true.1 h c hc)

theorem scan_char {c : Char} (h : Plain c) (rest : List Char) :
    scan none (c :: rest) = (scan none rest).map (.char c :: ·) := by
  rw [scan]
  simp only [h.1, h.2, if_false]

/-- A tag is read up to its closing bracket. -/
theorem scan_inside {inner : List Char} (h : '>' ∉ inner) (tag rest : List Char) :
    scan (some tag) (inner ++ '>' :: rest) =
      (tagOfText? (tag.reverse ++ (inner ++ ['>']))).bind fun token =>
        (scan none rest).map (token :: ·) := by
  induction inner generalizing tag with
  | nil => simp [scan]
  | cons c inner ih =>
    obtain ⟨hc, hinner⟩ := not_or.1 (mt List.mem_cons.2 h)
    rw [List.cons_append, scan]
    simp only [Ne.symm hc, if_false]
    rw [ih hinner]
    simp

theorem scan_tag {token : Token} {inner : List Char} (hinner : '>' ∉ inner)
    (htext : token.text = '<' :: (inner ++ ['>'])) (htag : tagOfText? token.text = some token)
    (rest : List Char) :
    scan none (token.text ++ rest) = (scan none rest).map (token :: ·) := by
  rw [htext] at htag
  have hinside := scan_inside hinner ['<'] rest
  rw [show ['<'].reverse ++ (inner ++ ['>']) = '<' :: (inner ++ ['>']) from rfl, htag,
    Option.bind_some] at hinside
  rw [htext, List.cons_append, List.append_assoc, List.singleton_append, scan]
  simpa only [if_true] using hinside

theorem scan_opening (tag : Tag) (rest : List Char) :
    scan none (Token.text (.opening tag) ++ rest) =
      (scan none rest).map (.opening tag :: ·) := by
  have hinner : '>' ∉ tag.inner := by
    rcases tag with _ | _ | _ | (_ | _) <;> decide +kernel
  have htag : tagOfText? (Token.text (.opening tag)) = some (.opening tag) := by
    rcases tag with _ | _ | _ | (_ | _) <;> decide +kernel
  exact scan_tag hinner rfl htag rest

theorem scan_closing (element : Element) (rest : List Char) :
    scan none (Token.text (.closing element) ++ rest) =
      (scan none rest).map (.closing element :: ·) := by
  have hinner : '>' ∉ '/' :: element.name := by
    cases element <;> decide
  have htag : tagOfText? (Token.text (.closing element)) = some (.closing element) := by
    cases element <;> decide +kernel
  exact scan_tag hinner rfl htag rest

/-- Tokens are found again in their text if no bracket is a token of its own. -/
theorem scan_textOf {tokens : List Token} (h : ∀ c, .char c ∈ tokens → Plain c) :
    scan none (textOf tokens) = some tokens := by
  induction tokens with
  | nil => rfl
  | cons token tokens ih =>
    have ih := ih fun c hc => h c (List.mem_cons_of_mem _ hc)
    rw [textOf, List.flatMap_cons]
    cases token with
    | opening tag =>
      rw [scan_opening]
      exact congrArg _ ih
    | closing element =>
      rw [scan_closing]
      exact congrArg _ ih
    | char c =>
      refine (scan_char (h c List.mem_cons_self) _).trans ?_
      exact congrArg _ ih

/-! ## Nesting -/

/-- Every element that is opened is closed again, and the elements that are
opened inside it are closed before it is. Nothing else has brackets. -/
inductive Nested : List Token → Prop
  | nil : Nested []
  | char {c tokens} : Plain c → Nested tokens → Nested (.char c :: tokens)
  | element {tag : Tag} {inner tokens} : Nested inner → Nested tokens →
      Nested (.opening tag :: (inner ++ .closing tag.element :: tokens))

theorem Nested.append {tokens more : List Token} (h : Nested tokens) (h' : Nested more) :
    Nested (tokens ++ more) := by
  induction h with
  | nil => exact h'
  | char hc _ ih => exact .char hc ih
  | @element tag inner _ hinner _ _ ih =>
    rw [List.cons_append, List.append_assoc]
    exact .element hinner ih

theorem Nested.flatten {parts : List (List Token)} (h : ∀ part ∈ parts, Nested part) :
    Nested parts.flatten := by
  induction parts with
  | nil => exact .nil
  | cons part parts ih =>
    obtain ⟨hpart, hparts⟩ := List.forall_mem_cons.1 h
    exact hpart.append (ih hparts)

theorem nested_chars {chars : List Char} (h : ∀ c ∈ chars, Plain c) :
    Nested (chars.map .char) := by
  induction chars with
  | nil => exact .nil
  | cons c chars ih =>
    obtain ⟨hc, hchars⟩ := List.forall_mem_cons.1 h
    exact .char hc (ih hchars)

theorem Nested.plain {tokens : List Token} (h : Nested tokens) :
    ∀ c, .char c ∈ tokens → Plain c := by
  induction h with
  | nil =>
    intro c hc
    cases hc
  | char hplain _ ih =>
    intro c hc
    obtain h | h := List.mem_cons.1 hc
    · cases h
      exact hplain
    · exact ih c h
  | element _ _ ihinner ih =>
    intro c hc
    simp only [List.mem_cons, List.mem_append, reduceCtorEq, false_or] at hc
    exact hc.elim (ihinner c) (ih c)

/-! ## Escaped labels -/

/-- A character as it is written in a label. -/
def escapeChar (c : Char) : List Char :=
  if c = '&' then ['&', 'a', 'm', 'p', ';']
  else if c = '<' then ['&', 'l', 't', ';']
  else if c = '>' then ['&', 'g', 't', ';']
  else [c]

/-- The characters that an escaped label stands for. -/
def unescape : List Char → List Char
  | '&' :: 'a' :: 'm' :: 'p' :: ';' :: rest => '&' :: unescape rest
  | '&' :: 'l' :: 't' :: ';' :: rest => '<' :: unescape rest
  | '&' :: 'g' :: 't' :: ';' :: rest => '>' :: unescape rest
  | c :: rest => c :: unescape rest
  | [] => []

/-- The replacements do not meet: what one of them brings in, the later ones leave alone. -/
theorem toList_escape (label : String) :
    (TruthTable.escape label).toList = label.toList.flatMap escapeChar := by
  simp only [TruthTable.escape, TruthTable.replaced, String.toList_ofList, List.flatMap_assoc]
  refine congrArg (label.toList.flatMap ·) (funext fun c => ?_)
  by_cases hamp : c = '&'
  · subst hamp
    decide +kernel
  by_cases hlt : c = '<'
  · subst hlt
    decide +kernel
  by_cases hgt : c = '>'
  · subst hgt
    decide +kernel
  simp only [escapeChar, hamp, hlt, hgt, if_false, List.flatMap_singleton]

theorem unescape_escapeChar (c : Char) (rest : List Char) :
    unescape (escapeChar c ++ rest) = c :: unescape rest := by
  by_cases hamp : c = '&'
  · subst hamp
    rfl
  by_cases hlt : c = '<'
  · subst hlt
    rfl
  by_cases hgt : c = '>'
  · subst hgt
    rfl
  simp [escapeChar, unescape, hamp, hlt, hgt]

theorem unescape_flatMap (chars : List Char) : unescape (chars.flatMap escapeChar) = chars := by
  induction chars with
  | nil => rfl
  | cons c chars ih => rw [List.flatMap_cons, unescape_escapeChar, ih]

theorem unescape_escape (label : String) :
    String.ofList (unescape (TruthTable.escape label).toList) = label := by
  rw [toList_escape, unescape_flatMap, String.ofList_toList]

/-- An escaped label has no brackets. -/
theorem plain_of_mem_escape {label : String} {c : Char}
    (h : c ∈ (TruthTable.escape label).toList) : Plain c := by
  rw [toList_escape] at h
  obtain ⟨d, -, hc⟩ := List.mem_flatMap.1 h
  have hamp : ∀ c ∈ ['&', 'a', 'm', 'p', ';'], Plain c := plain_of_all (by decide +kernel)
  have hlt : ∀ c ∈ ['&', 'l', 't', ';'], Plain c := plain_of_all (by decide +kernel)
  have hgt : ∀ c ∈ ['&', 'g', 't', ';'], Plain c := plain_of_all (by decide +kernel)
  rw [escapeChar] at hc
  split at hc
  · exact hamp c hc
  split at hc
  · exact hlt c hc
  split at hc
  · exact hgt c hc
  · rw [List.mem_singleton.1 hc]
    exact ⟨‹_›, ‹_›⟩

end Propositional.Markup
