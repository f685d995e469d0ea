import Propositional.Formula.Nodes
import Propositional.Text.Blank

/-!
# Derivations

The grammar as a relation between texts and formulas. `Primary text p n` says
that `text` is a primary with the value `p` in which up to `n` parentheses and
negation signs are open at once, and `Expression text p n` says so of an
expression. `Links text links n` is about the rest of a chain, from the first
connective on: its links are the connectives with the operands behind them.
-/

namespace Propositional

/-- Every variable of the formula is a letter of ASCII. -/
def Formula.Lettered (p : Formula) : Prop :=
  ∀ x ∈ p.occurrences, x.isAlpha

theorem Formula.Lettered.left {op : Connective} {l r : Formula} (h : (binary op l r).Lettered) :
    l.Lettered :=
  fun x hx => h x (List.mem_append_left _ hx)

theorem Formula.Lettered.right {op : Connective} {l r : Formula} (h : (binary op l r).Lettered) :
    r.Lettered :=
  fun x hx => h x (List.mem_append_right _ hx)

namespace Grammar

mutual

/-- The texts that are primaries, with their values and nesting. -/
inductive Primary : List Char → Formula → Nat → Prop
  | parentheses {text p n} : Expression text p n → Primary ('(' :: (text ++ [')'])) p (n + 1)
  | negation {text p n} : Primary text p n → Primary ('-' :: text) (.neg p) (n + 1)
  | zero : Primary ['0'] (.const false) 0
  | one : Primary ['1'] (.const true) 0
  | letter {x : Variable} : x.isAlpha → Primary [x] (.var x) 0

/-- The texts that are the rest of a chain, with their links and nesting. -/
inductive Links : List Char → List (Connective × Formula) → Nat → Prop
  | nil : Links [] [] 0
  | cons {op : Connective} {operand rest p links m n} :
      Primary operand p m → Links rest links n →
      Links (op.symbol.toList ++ (operand ++ rest)) ((op, p) :: links) (max m n)

/-- The texts that are expressions, with their values and nesting. A chain is
grouped to the left. -/
inductive Expression : List Char → Formula → Nat → Prop
  | chain {first rest p links m n} : Primary first p m → Links rest links n →
      Expression (first ++ rest)
        (links.foldl (fun left link => .binary link.1 left link.2) p) (max m n)

end

/-- An expression of one operand. -/
theorem Primary.expression {text : List Char} {p : Formula} {n : Nat} (h : Primary text p n) :
    Expression text p n := by
  have hc := Expression.chain h .nil
  rwa [List.append_nil, Nat.max_zero] at hc

/-! ## Variables -/

theorem lettered_foldl {p : Formula} {links : List (Connective × Formula)} (hp : p.Lettered)
    (hl : ∀ link ∈ links, link.2.Lettered) :
    (links.foldl (fun left link => Formula.binary link.1 left link.2) p).Lettered := by
  induction links generalizing p with
  | nil => exact hp
  | cons link links ih =>
    refine ih (fun x hx => ?_) fun l hm => hl l (List.mem_cons_of_mem _ hm)
    rcases List.mem_append.1 hx with hx | hx
    · exact hp x hx
    · exact hl link List.mem_cons_self x hx

mutual

/-- The value of a primary has letters for variables. -/
theorem Primary.lettered : ∀ {text p n}, Primary text p n → p.Lettered
  | _, _, _, .parentheses h => h.lettered
  | _, _, _, .negation h => h.lettered
  | _, _, _, .zero => nofun
  | _, _, _, .one => nofun
  | _, _, _, .letter hx => fun _ hy => List.mem_singleton.1 hy ▸ hx

theorem Links.lettered : ∀ {text links n}, Links text links n → ∀ link ∈ links, link.2.Lettered
  | _, _, _, .nil => nofun
  | _, _, _, .cons hp hl => List.forall_mem_cons.2 ⟨hp.lettered, hl.lettered⟩

theorem Expression.lettered : ∀ {text p n}, Expression text p n → p.Lettered
  | _, _, _, .chain hp hl => lettered_foldl hp.lettered hl.lettered

end

/-! ## Blanks -/

theorem symbol_not_blank (op : Connective) : ∀ c ∈ op.symbol.toList, Text.isBlank c = false := by
  have h : op.symbol.toList.all (fun c => !Text.isBlank c) = true := by
    cases op <;> decide
  simpa using h

mutual

theorem Primary.not_blank : ∀ {text p n}, Primary text p n → ∀ c ∈ text, Text.isBlank c = false
  | _, _, _, .parentheses h => List.forall_mem_cons.2 ⟨by decide,
    List.forall_mem_append.2 ⟨h.not_blank, List.forall_mem_singleton.2 (by decide)⟩⟩
  | _, _, _, .negation h => List.forall_mem_cons.2 ⟨by decide, h.not_blank⟩
  | _, _, _, .zero => List.forall_mem_singleton.2 (by decide)
  | _, _, _, .one => List.forall_mem_singleton.2 (by decide)
  | _, _, _, .letter hx => List.forall_mem_singleton.2 (Text.isBlank_eq_false_of_isAlpha hx)

theorem Links.not_blank : ∀ {text links n}, Links text links n →
    ∀ c ∈ text, Text.isBlank c = false
  | _, _, _, .nil => nofun
  | _, _, _, .cons hp hl => List.forall_mem_append.2
    ⟨symbol_not_blank _, List.forall_mem_append.2 ⟨hp.not_blank, hl.not_blank⟩⟩

theorem Expression.not_blank : ∀ {text p n}, Expression text p n →
    ∀ c ∈ text, Text.isBlank c = false
  | _, _, _, .chain hp hl => List.forall_mem_append.2 ⟨hp.not_blank, hl.not_blank⟩

end

/-- There are no blanks in an expression. -/
theorem Expression.strip_eq {text : List Char} {p : Formula} {n : Nat}
    (h : Expression text p n) : Text.strip text = text :=
  List.filter_eq_self.2 fun c hc => by rw [h.not_blank c hc]; rfl

end Grammar

end Propositional
