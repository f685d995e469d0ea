import Propositional.Proofs.Grammar.Derivation

/-!
# The openers that are open

An opening parenthesis is open up to the parenthesis that closes it, and a
negation sign up to the end of its operand. `opened` reads a text and keeps a
stack of both. A primary closes what it opens, and with it the negation signs
right before it (`Primary.foldl_openStep`); an expression does the same
(`Expression.foldl_openStep`).

A text is `TooDeep` if it leads into an operand with more openers open than the
limit allows.
-/

namespace Propositional.Grammar

/-- The characters behind which an operand begins, one level deeper. -/
def Opener (c : Char) : Prop :=
  c = '(' ∨ c = '-'

instance (c : Char) : Decidable (Opener c) :=
  inferInstanceAs (Decidable (_ ∨ _))

/-- What is still open behind a primary, from what is open before it: the
negation signs whose operand it is are not. -/
def completed (stack : List Char) : List Char :=
  stack.dropWhile (· == '-')

/-- The open openers behind the character `c`, from those before it, the
innermost first. -/
def openStep (stack : List Char) (c : Char) : List Char :=
  if Opener c then c :: stack
  else if c = ')' then completed stack.tail
  else if c = '0' ∨ c = '1' ∨ c.isAlpha then completed stack
  else stack

/-- The openers that are open at the end of a text, the innermost first. -/
def opened (text : List Char) : List Char :=
  text.foldl openStep []

/-- The last character of the text is an opener. -/
def EndsInOpener (text : List Char) : Prop :=
  ∃ start c, text = start ++ [c] ∧ Opener c

/-- The text leads into an operand, and can be continued to an expression if
the nesting does not matter, but it has one opener more open than `limit`. -/
structure TooDeep (limit : Nat) (text : List Char) : Prop where
  opener : EndsInOpener text
  viable : ∃ rest p n, Expression (text ++ rest) p n
  depth : (opened text).length = limit + 1

/-! ## What is open behind a part of a formula -/

theorem completed_minus (stack : List Char) : completed ('-' :: stack) = completed stack := rfl

theorem completed_open (stack : List Char) : completed ('(' :: stack) = '(' :: stack := rfl

theorem completed_completed (stack : List Char) : completed (completed stack) = completed stack := by
  induction stack with
  | nil => rfl
  | cons c stack ih =>
    by_cases hc : c = '-'
    · rw [hc, completed_minus, ih]
    · have hs : completed (c :: stack) = c :: stack := by simp [completed, hc]
      rw [hs, hs]

theorem length_completed_le (stack : List Char) : (completed stack).length ≤ stack.length :=
  (List.dropWhile_sublist _).length_le

theorem openStep_opener {c : Char} (h : Opener c) (stack : List Char) :
    openStep stack c = c :: stack :=
  if_pos h

theorem openStep_letter {x : Variable} (h : x.isAlpha) (stack : List Char) :
    openStep stack x = completed stack := by
  have hne : ∀ d : Char, d.isAlpha = false → x ≠ d := fun d hd hx => by simp [← hx, h] at hd
  simp [openStep, Opener, h, hne '(' rfl, hne '-' rfl, hne ')' rfl]

theorem foldl_openStep_symbol (op : Connective) (stack : List Char) :
    op.symbol.toList.foldl openStep stack = stack := by
  cases op <;> rfl

mutual

theorem Primary.foldl_openStep : ∀ {text p n}, Primary text p n → ∀ stack : List Char,
    text.foldl openStep stack = completed stack
  | _, _, _, .parentheses h, stack => by
    rw [List.foldl_cons, openStep_opener (.inl rfl), List.foldl_append, h.foldl_openStep,
      completed_open]
    rfl
  | _, _, _, .negation h, stack => by
    rw [List.foldl_cons, openStep_opener (.inr rfl), h.foldl_openStep, completed_minus]
  | _, _, _, .zero, _ => rfl
  | _, _, _, .one, _ => rfl
  | _, _, _, .letter hx, stack => openStep_letter hx stack

theorem Links.foldl_openStep : ∀ {text links n}, Links text links n → ∀ stack : List Char,
    text.foldl openStep (completed stack) = completed stack
  | _, _, _, .nil, _ => rfl
  | _, _, _, .cons hp hl, stack => by
    rw [List.foldl_append, foldl_openStep_symbol, List.foldl_append, hp.foldl_openStep,
      completed_completed, hl.foldl_openStep]

theorem Expression.foldl_openStep : ∀ {text p n}, Expression text p n → ∀ stack : List Char,
    text.foldl openStep stack = completed stack
  | _, _, _, .chain hp hl, stack => by
    rw [List.foldl_append, hp.foldl_openStep, hl.foldl_openStep]

end

-- The sign before the `a` is closed with it, the one before the parenthesis is not.
example : opened ['(', '-', 'a', '+', '-', '(', 'b'] = ['(', '-', '('] := by decide

/-- A character opens no more than itself. -/
theorem length_openStep_le (stack : List Char) (c : Char) :
    (openStep stack c).length ≤ stack.length + 1 := by
  have hs := length_completed_le stack
  have ht := length_completed_le stack.tail
  rw [List.length_tail] at ht
  simp only [openStep]
  split
  · exact Nat.le_refl _
  · split
    · omega
    · split <;> omega

theorem length_foldl_openStep_le (text stack : List Char) :
    (text.foldl openStep stack).length ≤ stack.length + text.length := by
  induction text generalizing stack with
  | nil => exact Nat.le_refl _
  | cons c text ih =>
    have hc := length_openStep_le stack c
    have ht := ih (openStep stack c)
    rw [List.foldl_cons, List.length_cons]
    omega

/-- A text that is too deep has more characters than the limit allows openers. -/
theorem TooDeep.lt_length {limit : Nat} {text : List Char} (h : TooDeep limit text) :
    limit < text.length := by
  have ho := length_foldl_openStep_le text []
  rw [← opened, h.depth, List.length_nil] at ho
  omega

end Propositional.Grammar
