import Propositional.Proofs.Formula.CanonicalText
import Propositional.Proofs.Formula.Parts

/-!
# The symbols of a text

Reading a text regroups its symbols and keeps them as they are: the formula that is
derived has the same letters, digits, negation signs and connectives in the same
order (`Formula.symbols`). This is shown for all scans at once that pass over
parentheses (`Scans`): of a text that is derived, a scan finds what the symbols of
the formula give (`Scans.expression`), and so it finds the same in the canonical text
of the formula (`Scans.eq_scan_text`). To leave the parentheses out is such a scan,
to look for letters is another, and so is to collect the symbols (`symbolsOf`).
-/

namespace Propositional

namespace Formula

/-- The symbols of a formula in the order in which they are written. -/
def symbols : Formula → List String
  | const b => [(const b).symbol]
  | var x => [(var x).symbol]
  | neg p => (neg p).symbol :: p.symbols
  | binary op l r => l.symbols ++ op.symbol :: r.symbols

/-- There is one symbol for every node. -/
theorem length_symbols (p : Formula) : p.symbols.length = p.nodes.length := by
  rw [nodes_eq_preorder]
  induction p with
  | const b => rfl
  | var x => rfl
  | neg p ih => rw [symbols, preorder, List.length_cons, List.length_cons, ih]
  | binary op l r ihl ihr =>
    simp only [symbols, preorder, List.length_append, List.length_cons, ihl, ihr]
    omega

theorem symbols_foldl (p : Formula) (links : List (Connective × Formula)) :
    (links.foldl (fun left link => binary link.1 left link.2) p).symbols =
      p.symbols ++ links.flatMap fun link => link.1.symbol :: link.2.symbols := by
  induction links generalizing p with
  | nil => simp
  | cons link links ih => rw [List.foldl_cons, ih]; simp [symbols]

end Formula

namespace Grammar

/-! ## Scans -/

/-- The symbols of the grammar, which has parentheses besides. -/
inductive Terminal : String → Prop
  | constant (b : Bool) : Terminal (Formula.const b).symbol
  | letter {x : Variable} : x.isAlpha → Terminal (Formula.var x).symbol
  | negation : Terminal "-"
  | connective (op : Connective) : Terminal op.symbol

/-- The scan goes through a text from left to right, passes over parentheses, and
takes what `take` says from each symbol. -/
structure Scans {α : Type} (scan : List Char → List α) (take : String → List α) : Prop where
  opening (rest : List Char) : scan ('(' :: rest) = scan rest
  closing (rest : List Char) : scan (')' :: rest) = scan rest
  symbol {s : String} (h : Terminal s) (rest : List Char) :
    scan (s.toList ++ rest) = take s ++ scan rest

variable {α : Type} {scan : List Char → List α} {take : String → List α}

mutual

/-- A scan takes from a primary what it takes from the symbols of its value. -/
theorem Scans.primary (hs : Scans scan take) : ∀ {text p n}, Primary text p n → ∀ rest,
    scan (text ++ rest) = p.symbols.flatMap take ++ scan rest
  | _, _, _, .parentheses h, rest => by
    rw [List.cons_append, hs.opening, List.append_assoc, hs.expression h, List.singleton_append,
      hs.closing]
  | _, _, _, @Primary.negation text _ _ h, rest => by
    have hsign : scan ('-' :: (text ++ rest)) = take "-" ++ scan (text ++ rest) :=
      hs.symbol .negation (text ++ rest)
    rw [List.cons_append, hsign, hs.primary h, Formula.symbols, List.flatMap_cons,
      List.append_assoc]
    rfl
  | _, _, _, .zero, rest => by
    simpa [Formula.symbols, Formula.symbol] using hs.symbol (.constant false) rest
  | _, _, _, .one, rest => by
    simpa [Formula.symbols, Formula.symbol] using hs.symbol (.constant true) rest
  | _, _, _, .letter hx, rest => by
    simpa [Formula.symbols, Formula.symbol] using hs.symbol (.letter hx) rest

theorem Scans.links (hs : Scans scan take) : ∀ {text links n}, Links text links n → ∀ rest,
    scan (text ++ rest) =
      (links.flatMap fun link => link.1.symbol :: link.2.symbols).flatMap take ++ scan rest
  | _, _, _, .nil, _ => rfl
  | _, _, _, @Links.cons op _ _ _ _ _ _ hp hl, rest => by
    rw [List.append_assoc, List.append_assoc, hs.symbol (.connective op), hs.primary hp,
      hs.links hl]
    simp

theorem Scans.expression (hs : Scans scan take) : ∀ {text p n}, Expression text p n → ∀ rest,
    scan (text ++ rest) = p.symbols.flatMap take ++ scan rest
  | _, _, _, .chain hp hl, rest => by
    rw [List.append_assoc, hs.primary hp, hs.links hl, Formula.symbols_foldl,
      List.flatMap_append, List.append_assoc]

end

/-- A scan finds in a text what it finds in the canonical text of its formula. -/
theorem Scans.eq_scan_text (hs : Scans scan take) {text : List Char} {p : Formula} {n : Nat}
    (h : Expression text p n) : scan text = scan p.text.toList := by
  have htext := hs.expression h []
  have hcanonical := hs.primary h.lettered.primary_text []
  rw [List.append_nil] at htext hcanonical
  rw [htext, hcanonical]

/-- To keep some characters and no parentheses is a scan. -/
theorem scans_filter {keep : Char → Bool} (hopening : keep '(' = false)
    (hclosing : keep ')' = false) : Scans (List.filter keep) fun s => s.toList.filter keep where
  opening rest := by rw [List.filter_cons_of_neg (by simp [hopening])]
  closing rest := by rw [List.filter_cons_of_neg (by simp [hclosing])]
  symbol _ rest := List.filter_append ..

/-! ## Parentheses, letters and symbols -/

/-- Whether the character is a parenthesis. -/
def isParenthesis (c : Char) : Bool :=
  c == '(' || c == ')'

/-- Whether the character is a symbol by itself: a letter, a digit, a negation sign
or a connective of one character. -/
def isSymbol (c : Char) : Bool :=
  c.isAlphanum || c == '-' || c == '*' || c == '+'

/-- The symbols in a text from left to right: its letters, digits and negation
signs, and its connectives, of which `=>` has two characters. -/
def symbolsOf : List Char → List String
  | [] => []
  | '=' :: '>' :: rest => "=>" :: symbolsOf rest
  | c :: rest => if isSymbol c then String.singleton c :: symbolsOf rest else symbolsOf rest

theorem symbolsOf_cons {c : Char} (h : c ≠ '=') (rest : List Char) :
    symbolsOf (c :: rest) =
      if isSymbol c then String.singleton c :: symbolsOf rest else symbolsOf rest := by
  rw [symbolsOf]
  rintro _ rfl
  exact absurd rfl h

theorem symbolsOf_cons_symbol {c : Char} (h : isSymbol c) (rest : List Char) :
    symbolsOf (c :: rest) = String.singleton c :: symbolsOf rest := by
  rw [symbolsOf_cons, if_pos h]
  rintro rfl
  cases h

theorem scans_symbolsOf : Scans symbolsOf fun s => [s] where
  opening rest := by rw [symbolsOf_cons (by decide)]; rfl
  closing rest := by rw [symbolsOf_cons (by decide)]; rfl
  symbol h rest := by
    cases h with
    | constant b => cases b <;> exact symbolsOf_cons_symbol rfl rest
    | @letter x hx =>
      have hsymbol : isSymbol x := by simp [isSymbol, Char.isAlphanum, hx]
      simpa [Formula.symbol] using symbolsOf_cons_symbol hsymbol rest
    | negation => exact symbolsOf_cons_symbol rfl rest
    | connective op =>
      cases op with
      | implication => rfl
      | _ => exact symbolsOf_cons_symbol rfl rest

/-- The letters of a text that is derived are the variables, as they occur. -/
theorem flatMap_filter_symbols {p : Formula} (h : p.Lettered) :
    (p.symbols.flatMap fun s => s.toList.filter Char.isAlpha) = p.occurrences := by
  induction p with
  | const b => cases b <;> rfl
  | var x =>
    have hx : x.isAlpha := h x List.mem_cons_self
    simp [Formula.symbols, Formula.symbol, Formula.occurrences, hx]
  | neg p ih =>
    have hsign : "-".toList.filter Char.isAlpha = [] := rfl
    rw [Formula.symbols, List.flatMap_cons, ih h, Formula.symbol, hsign]
    rfl
  | binary op l r ihl ihr =>
    have hop : op.symbol.toList.filter Char.isAlpha = [] := by cases op <;> rfl
    rw [Formula.symbols, List.flatMap_append, List.flatMap_cons, ihl h.left, ihr h.right, hop]
    rfl

/-- The letters of an expression are the variables of its value, in the order in
which they are written. -/
theorem Expression.filter_isAlpha {text : List Char} {p : Formula} {n : Nat}
    (h : Expression text p n) : text.filter Char.isAlpha = p.occurrences := by
  have hscan : Scans (List.filter Char.isAlpha) _ := scans_filter rfl rfl
  have hletters := hscan.expression h []
  rwa [List.append_nil, List.filter_nil, List.append_nil, flatMap_filter_symbols h.lettered]
    at hletters

theorem Expression.symbolsOf_eq {text : List Char} {p : Formula} {n : Nat}
    (h : Expression text p n) : symbolsOf text = p.symbols := by
  have hsymbols := scans_symbolsOf.expression h []
  rwa [List.append_nil, symbolsOf, List.append_nil, List.flatMap_singleton'] at hsymbols

end Grammar

open Grammar in
/-- Nothing is lost on the way from a text to its formula, nothing is doubled, and
nothing changes places. Without parentheses the text is the canonical text; the
variables are the letters of the text, in ascending order and each once; and there
is a node for every symbol of the text, which is a letter, a digit, a negation sign
or a connective. -/
theorem symbols_of_parse (source : String) (p : Formula) (h : Formula.parse source = .ok p) :
    ((Text.strip source.toList).filter fun c => !isParenthesis c) =
        (p.text.toList.filter fun c => !isParenthesis c) ∧
      p.vars.Pairwise (· < ·) ∧ (∀ x, x ∈ p.vars ↔ x.isAlpha ∧ x ∈ source.toList) ∧
      symbolsOf (Text.strip source.toList) = p.symbols ∧
      p.nodes.length = (symbolsOf (Text.strip source.toList)).length := by
  obtain ⟨n, -, hd⟩ := Formula.parse_eq_ok_iff.1 h
  refine ⟨(scans_filter rfl rfl).eq_scan_text hd, p.pairwise_vars, fun x => ?_, hd.symbolsOf_eq, ?_⟩
  · rw [Formula.mem_vars_iff, ← hd.filter_isAlpha, List.mem_filter, Text.strip, List.mem_filter]
    constructor
    · rintro ⟨⟨hx, -⟩, halpha⟩
      exact ⟨halpha, hx⟩
    · rintro ⟨halpha, hx⟩
      exact ⟨⟨hx, by rw [Text.isBlank_eq_false_of_isAlpha halpha]; rfl⟩, halpha⟩
  · rw [hd.symbolsOf_eq, p.length_symbols]

open Grammar in
/-- `((b) =>a)=> b` has seven characters besides parentheses and blanks, five symbols and
two variables. -/
theorem symbols_of_parse_chain :
    let p := Formula.binary .implication (.binary .implication (.var 'b') (.var 'a')) (.var 'b')
    Formula.parse "((b) =>a)=> b" = .ok p ∧
      (p.text.toList.filter fun c => !isParenthesis c) = ['b', '=', '>', 'a', '=', '>', 'b'] ∧
      (∀ x, x ∈ p.vars ↔ x.isAlpha ∧ x ∈ "((b) =>a)=> b".toList) ∧
      p.symbols = ["b", "=>", "a", "=>", "b"] ∧ p.nodes.length = 5 := by
  intro p
  have hinner : Expression ['(', 'b', ')', '=', '>', 'a']
      (.binary .implication (.var 'b') (.var 'a')) 1 :=
    .chain (.parentheses (.chain (.letter rfl) .nil))
      (@Links.cons .implication ['a'] [] _ _ _ _ (.letter rfl) .nil)
  have hd : Expression ['(', '(', 'b', ')', '=', '>', 'a', ')', '=', '>', 'b'] p 2 :=
    .chain (.parentheses hinner) (@Links.cons .implication ['b'] [] _ _ _ _ (.letter rfl) .nil)
  have hparse : Formula.parse "((b) =>a)=> b" = .ok p :=
    Formula.parse_eq_ok_iff.2 ⟨2, by decide, hd⟩
  obtain ⟨htext, -, hvars, hsymbols, hnodes⟩ := symbols_of_parse _ p hparse
  exact ⟨hparse, htext.symm.trans rfl, hvars, hsymbols.symm.trans rfl, hnodes.trans rfl⟩

end Propositional
