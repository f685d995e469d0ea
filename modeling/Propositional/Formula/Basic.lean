/-!
# Propositional formulas

A `Formula` is a constant, a variable, a negation or two formulas joined by a
`Connective`. `Formula.text` is its canonical text, in which every binary
formula stands in parentheses. Formulas are ordered by `Formula.compare`: first
by their kind, then by their parts from left to right.
-/

namespace Propositional

/-- A variable is named by one character. -/
abbrev Variable := Char

/-- The binary connectives. -/
inductive Connective where
  | conjunction
  | disjunction
  | implication
deriving DecidableEq, Ord

namespace Connective

/-- All connectives, in their order. -/
def all : List Connective := [conjunction, disjunction, implication]

/-- The sign of a connective in formulas. -/
def symbol : Connective → String
  | conjunction => "*"
  | disjunction => "+"
  | implication => "=>"

end Connective

/-- A propositional formula. -/
inductive Formula where
  | const (value : Bool)
  | var (name : Variable)
  | neg (operand : Formula)
  | binary (connective : Connective) (left right : Formula)
deriving DecidableEq

namespace Formula

/-- The text of a formula without its operands. -/
def symbol : Formula → String
  | const false => "0"
  | const true => "1"
  | var x => String.singleton x
  | neg _ => "-"
  | binary op _ _ => op.symbol

/-- The canonical text: the sign before a negated operand, and parentheses
around every binary formula. -/
def text : Formula → String
  | const false => "0"
  | const true => "1"
  | var x => String.singleton x
  | neg p => "-" ++ p.text
  | binary op l r => "(" ++ l.text ++ op.symbol ++ r.text ++ ")"

/-- Whether the formula is a variable and nothing else. -/
def isVariable : Formula → Bool
  | var _ => true
  | _ => false

/-- The operands, from left to right. -/
def operands : Formula → List Formula
  | const _ | var _ => []
  | neg p => [p]
  | binary _ l r => [l, r]

/-- The place of a formula's kind in the order of formulas. -/
def kind : Formula → Nat
  | const _ => 0
  | var _ => 1
  | neg _ => 2
  | binary .. => 3

/-- Compares first by kind. Of one kind, `0` comes before `1`, variables are in
the order of their code points, negations in that of their operands, and binary
formulas in that of their connectives, then of their left and then of their
right operands. -/
def compare : Formula → Formula → Ordering
  | const a, const b => Ord.compare a b
  | var x, var y => Ord.compare x y
  | neg p, neg q => p.compare q
  | binary op l r, binary op' l' r' =>
    (Ord.compare op op').then ((l.compare l').then (r.compare r'))
  | p, q => Ord.compare p.kind q.kind

instance : Ord Formula := ⟨compare⟩

/-- The formulas in ascending order; equal ones stay side by side. -/
def sort (formulas : List Formula) : List Formula :=
  formulas.mergeSort fun p q => (p.compare q).isLE

end Formula

end Propositional
