import Propositional.Proofs.Grammar.Parsing

/-!
# Reading the canonical text

The canonical text of a formula with letters for variables is a primary, and
its nesting is the height of the formula (`Lettered.primary_text`). So it is
read as the formula again if the height keeps within the limit, and not at all
otherwise (`parse_text_eq_ok_iff`, `parse_text_eq_error_iff`). A chain of
operands can be long and not nested at all, but its formula is as high as it is
long: `parse_text_ne_of_long_chain` has the shortest such chain that is not read
again.
-/

namespace Propositional

open Grammar

namespace Formula

/-- The largest number of negations and binary formulas on a path from the
formula down to a constant or a variable. -/
def height : Formula → Nat
  | const _ | var _ => 0
  | neg p => p.height + 1
  | binary _ l r => max l.height r.height + 1

/-! ## The characters of the canonical text -/

theorem toList_text_neg (p : Formula) : (neg p).text.toList = '-' :: p.text.toList := by
  simp [text]

theorem toList_text_binary (op : Connective) (l r : Formula) :
    (binary op l r).text.toList =
      '(' :: (l.text.toList ++ (op.symbol.toList ++ r.text.toList) ++ [')']) := by
  simp [text]

/-- The canonical text is a primary, nested as deep as the formula is high. -/
theorem Lettered.primary_text : ∀ {p : Formula}, p.Lettered → Primary p.text.toList p p.height
  | const false, _ => .zero
  | const true, _ => .one
  | var x, h => by
    simpa [text, height] using Primary.letter (h x List.mem_cons_self)
  | neg p, h => by
    rw [toList_text_neg]
    exact .negation (Lettered.primary_text (p := p) h)
  | binary op l r, h => by
    have hl : Primary l.text.toList l l.height := h.left.primary_text
    have hr : Primary r.text.toList r r.height := h.right.primary_text
    have hlink : Links (op.symbol.toList ++ (r.text.toList ++ [])) [(op, r)] (max r.height 0) :=
      .cons hr .nil
    rw [toList_text_binary]
    simpa [height] using Primary.parentheses (.chain hl hlink)

theorem parse_text_eq_ok_iff {p q : Formula} (h : p.Lettered) :
    parse p.text = .ok q ↔ q = p ∧ p.height ≤ maxNesting := by
  have hd := h.primary_text.expression
  rw [parse_eq_ok_iff, hd.strip_eq]
  constructor
  · rintro ⟨n, hn, hq⟩
    obtain ⟨rfl, rfl⟩ := hq.unique hd
    exact ⟨rfl, hn⟩
  · rintro ⟨rfl, hn⟩
    exact ⟨_, hn, hd⟩

theorem parse_text_eq_error_iff {p : Formula} (h : p.Lettered) :
    (∃ e, parse p.text = .error e) ↔ maxNesting < p.height := by
  constructor
  · rintro ⟨e, he⟩
    refine Nat.lt_of_not_le fun hp => ?_
    rw [(parse_text_eq_ok_iff h).2 ⟨rfl, hp⟩] at he
    cases he
  · intro hp
    cases hq : parse p.text with
    | error e => exact ⟨e, rfl⟩
    | ok q =>
      have := ((parse_text_eq_ok_iff h).1 hq).2
      omega

/-- What parsing gives has letters for variables. -/
theorem lettered_of_parse {source : String} {p : Formula} (h : parse source = .ok p) :
    p.Lettered := by
  obtain ⟨n, -, hd⟩ := parse_eq_ok_iff.1 h
  exact hd.lettered

/-! ## Long chains -/

/-- `a`, and behind it `+a` as often as `n` says. -/
def sumText (n : Nat) : List Char :=
  'a' :: (List.replicate n ['+', 'a']).flatten

/-- The formula of `sumText`. -/
def sum : Nat → Formula
  | 0 => .var 'a'
  | n + 1 => .binary .disjunction (sum n) (.var 'a')

theorem height_sum (n : Nat) : (sum n).height = n := by
  induction n with
  | zero => rfl
  | succ n ih => simp [sum, height, ih]

theorem foldl_replicate_sum (n : Nat) :
    (List.replicate n (Connective.disjunction, var 'a')).foldl
      (fun left link => binary link.1 left link.2) (var 'a') = sum n := by
  induction n with
  | zero => rfl
  | succ n ih => rw [List.replicate_succ', List.foldl_append, ih]; rfl

/-- A chain is not nested, however long it is. -/
theorem expression_sumText (n : Nat) : Expression (sumText n) (sum n) 0 := by
  have hl : Links (List.replicate n ['+', 'a']).flatten
      (List.replicate n (.disjunction, .var 'a')) 0 := by
    induction n with
    | zero => exact .nil
    | succ n ih => exact @Links.cons .disjunction ['a'] _ _ _ 0 0 (.letter rfl) ih
  rw [← foldl_replicate_sum]
  exact .chain (.letter rfl) hl

theorem parse_sumText (n : Nat) : parse (String.ofList (sumText n)) = .ok (sum n) := by
  have hd := expression_sumText n
  rw [parse_eq_ok_iff, String.toList_ofList, hd.strip_eq]
  exact ⟨0, Nat.zero_le _, hd⟩

end Formula

/-- What parsing gives is read again from its canonical text exactly if no more
than 128 negations and binary formulas stand on a path down from it; otherwise
its canonical text is an error. -/
theorem parse_text_of_parse (source : String) (p : Formula) (h : Formula.parse source = .ok p) :
    (Formula.parse p.text = .ok p ↔ p.height ≤ 128) ∧
      ((∃ e, Formula.parse p.text = .error e) ↔ 128 < p.height) := by
  have hp := Formula.lettered_of_parse h
  refine ⟨?_, Formula.parse_text_eq_error_iff hp⟩
  rw [Formula.parse_text_eq_ok_iff hp]
  exact and_iff_right rfl

/-- The longest chain that is read again, and the one after it. -/
theorem parse_text_of_parse_sum :
    Formula.parse (Formula.sum 128).text = .ok (Formula.sum 128) ∧
      ∃ e, Formula.parse (Formula.sum 129).text = .error e :=
  ⟨(parse_text_of_parse _ _ (Formula.parse_sumText 128)).1.2 (Nat.le_of_eq (Formula.height_sum 128)),
    (parse_text_of_parse _ _ (Formula.parse_sumText 129)).2.2 (by rw [Formula.height_sum]; decide)⟩

/-- A chain of 130 operands is accepted, but its canonical text is nested too
deep to be read again. -/
theorem parse_text_ne_of_long_chain :
    Formula.parse (String.ofList (Formula.sumText 129)) = .ok (Formula.sum 129) ∧
      Formula.parse (Formula.sum 129).text ≠ .ok (Formula.sum 129) := by
  have hs := Formula.parse_sumText 129
  refine ⟨hs, fun h => ?_⟩
  have hh := ((Formula.parse_text_eq_ok_iff (Formula.lettered_of_parse hs)).1 h).2
  rw [Formula.height_sum] at hh
  exact absurd hh (by decide)

end Propositional
