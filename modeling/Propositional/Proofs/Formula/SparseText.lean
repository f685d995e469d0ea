import Propositional.Proofs.Grammar.Parsing

/-!
# The formulas that have a text

A binary formula needs parentheses only where it is the right operand of
another or the operand of a negation. `sparseText` has no others, and its
nesting is the least that a text of the formula can have: it derives the
formula with the nesting `Formula.nesting` (`Lettered.expression_sparseText`),
and no expression with that value is nested less (`Expression.nesting_le`). So
the formulas that parsing gives are those with letters for variables and no more
nesting than the limit (`exists_parse_iff`).
-/

namespace Propositional

open Grammar

namespace Formula

/-- Whether the formula is a binary formula. -/
def isBinary : Formula → Bool
  | binary .. => true
  | _ => false

/-- The text of a formula as an operand, from its text as an expression. -/
def wrapText (p : Formula) (text : List Char) : List Char :=
  if p.isBinary then '(' :: (text ++ [')']) else text

/-- The text with parentheses only around the binary formulas that are right
operands or operands of negations. -/
def sparseText : Formula → List Char
  | const false => ['0']
  | const true => ['1']
  | var x => [x]
  | neg p => '-' :: p.wrapText p.sparseText
  | binary op l r => l.sparseText ++ (op.symbol.toList ++ r.wrapText r.sparseText)

/-- The nesting of a formula as an operand, from its nesting as an expression. -/
def wrapNesting (p : Formula) (n : Nat) : Nat :=
  if p.isBinary then n + 1 else n

/-- The least nesting of an expression for the formula. -/
def nesting : Formula → Nat
  | const _ | var _ => 0
  | neg p => 1 + p.wrapNesting p.nesting
  | binary _ l r => max l.nesting (r.wrapNesting r.nesting)

theorem le_wrapNesting (p : Formula) (n : Nat) : n ≤ p.wrapNesting n := by
  rw [wrapNesting]
  split
  · exact Nat.le_succ n
  · exact Nat.le_refl n

theorem wrapNesting_le (p : Formula) (n : Nat) : p.wrapNesting n ≤ n + 1 := by
  rw [wrapNesting]
  split
  · exact Nat.le_refl _
  · exact Nat.le_succ n

end Formula

/-! ## The sparse text is derived -/

namespace Grammar

theorem Links.append : ∀ {text ls m}, Links text ls m → ∀ {text' ls' n}, Links text' ls' n →
    Links (text ++ text') (ls ++ ls') (max m n)
  | _, _, _, .nil, _, _, _, h' => by rwa [Nat.zero_max]
  | _, _, _, .cons hp hl, _, _, _, h' => by
    rw [List.append_assoc, List.append_assoc, Nat.max_assoc]
    exact .cons hp (hl.append h')

/-- One more operand makes a chain longer at its end. -/
theorem Expression.append {text operand : List Char} {l r : Formula} {m n : Nat}
    (h : Expression text l m) (op : Connective) (hr : Primary operand r n) :
    Expression (text ++ (op.symbol.toList ++ operand)) (.binary op l r) (max m n) := by
  cases h with
  | chain hp hl =>
    have hlink : Links (op.symbol.toList ++ (operand ++ [])) [(op, r)] (max n 0) := .cons hr .nil
    rw [List.append_nil, Nat.max_zero] at hlink
    have hchain := Expression.chain hp (hl.append hlink)
    rwa [List.foldl_append, ← List.append_assoc, ← Nat.max_assoc] at hchain

end Grammar

namespace Formula

theorem Lettered.expression_sparseText : ∀ {p : Formula}, p.Lettered →
    Expression p.sparseText p p.nesting ∧
      Primary (p.wrapText p.sparseText) p (p.wrapNesting p.nesting)
  | const false, _ => ⟨Primary.expression .zero, .zero⟩
  | const true, _ => ⟨Primary.expression .one, .one⟩
  | var x, h => by
    have hp : Primary [x] (.var x) 0 := .letter (h x List.mem_cons_self)
    exact ⟨hp.expression, hp⟩
  | neg p, h => by
    have hp : Primary (neg p).sparseText (neg p) (neg p).nesting := by
      rw [nesting, Nat.add_comm]
      exact .negation (Lettered.expression_sparseText (p := p) h).2
    exact ⟨hp.expression, hp⟩
  | binary op l r, h => by
    have hl := h.left.expression_sparseText.1
    have hr := h.right.expression_sparseText.2
    have hp := hl.append op hr
    exact ⟨hp, .parentheses hp⟩

/-! ## No text is nested less -/

theorem nesting_foldl_le {n : Nat} {links : List (Connective × Formula)} {p : Formula}
    (hp : p.nesting ≤ n) (hl : ∀ link ∈ links, link.2.wrapNesting link.2.nesting ≤ n) :
    (links.foldl (fun left link => binary link.1 left link.2) p).nesting ≤ n := by
  induction links generalizing p with
  | nil => exact hp
  | cons link links ih =>
    obtain ⟨hlink, hl⟩ := List.forall_mem_cons.1 hl
    exact ih (Nat.max_le.2 ⟨hp, hlink⟩) hl

end Formula

namespace Grammar

mutual

theorem Primary.wrapNesting_le : ∀ {text p n}, Primary text p n → p.wrapNesting p.nesting ≤ n
  | _, p, _, .parentheses h =>
    Nat.le_trans (p.wrapNesting_le p.nesting) (Nat.succ_le_succ h.nesting_le)
  | _, _, _, .negation (n := n) h => by
    have hp := h.wrapNesting_le
    show 1 + _ ≤ n + 1
    omega
  | _, _, _, .zero => Nat.le_refl 0
  | _, _, _, .one => Nat.le_refl 0
  | _, _, _, .letter _ => Nat.le_refl 0

theorem Links.wrapNesting_le : ∀ {text ls n}, Links text ls n →
    ∀ link ∈ ls, link.2.wrapNesting link.2.nesting ≤ n
  | _, _, _, .nil => nofun
  | _, _, _, .cons hp hl => List.forall_mem_cons.2
    ⟨Nat.le_trans hp.wrapNesting_le (Nat.le_max_left ..),
      fun link hm => Nat.le_trans (hl.wrapNesting_le link hm) (Nat.le_max_right ..)⟩

/-- An expression is nested at least as deep as its value needs. -/
theorem Expression.nesting_le : ∀ {text p n}, Expression text p n → p.nesting ≤ n
  | _, _, _, .chain (p := p) hp hl => Formula.nesting_foldl_le
    (Nat.le_trans (p.le_wrapNesting _) (Nat.le_trans hp.wrapNesting_le (Nat.le_max_left ..)))
    fun link hm => Nat.le_trans (hl.wrapNesting_le link hm) (Nat.le_max_right ..)

end

end Grammar

/-- Parsing gives exactly the formulas with letters for variables that need no
more nesting than 128, and gives each of them for its sparse text. -/
theorem exists_parse_iff (p : Formula) :
    ((∃ source, Formula.parse source = .ok p) ↔ p.Lettered ∧ p.nesting ≤ 128) ∧
      (Formula.parse (String.ofList p.sparseText) = .ok p ↔ p.Lettered ∧ p.nesting ≤ 128) := by
  have hneeds : ∀ source, Formula.parse source = .ok p → p.Lettered ∧ p.nesting ≤ 128 := by
    intro source h
    obtain ⟨n, hn, hd⟩ := Formula.parse_eq_ok_iff.1 h
    exact ⟨hd.lettered, Nat.le_trans hd.nesting_le hn⟩
  have hsparse : p.Lettered ∧ p.nesting ≤ 128 →
      Formula.parse (String.ofList p.sparseText) = .ok p := by
    rintro ⟨hp, hn⟩
    have hd := hp.expression_sparseText.1
    rw [Formula.parse_eq_ok_iff, String.toList_ofList, hd.strip_eq]
    exact ⟨p.nesting, hn, hd⟩
  exact ⟨⟨fun ⟨source, h⟩ => hneeds source h, fun h => ⟨_, hsparse h⟩⟩, hneeds _, hsparse⟩

end Propositional
