import Propositional.Formula.Basic
import Propositional.Formula.Nesting

/-!
# The grammar of formulas

    expression    := primary (connective primary)*
    primary       := "(" expression ")" | "-" primary | "0" | "1" | letter
    connective    := "*" | "+" | "=>"

Connectives have no precedence and a chain of them groups to the left, so
`1+a*b` is `(1+a)*b`; a negation sign takes the next primary only. Every parser
that goes into an operand is given a `Guard`, which may refuse the operand.
-/

namespace Propositional.Grammar

open Parsing

variable {σ : Type}

/-- Reads `0` or `1`. -/
def constant : Parser σ Formula :=
  orElse (map (fun _ => .const false) (literal ['0'])) (map (fun _ => .const true) (literal ['1']))

/-- Reads a variable: a letter of ASCII. -/
def letter : Parser σ Formula :=
  map .var (satisfy Char.isAlpha)

/-- Reads a connective. -/
def connective : Parser σ Connective :=
  orElse (map (fun _ => .conjunction) (literal ['*']))
    (orElse (map (fun _ => .disjunction) (literal ['+']))
      (map (fun _ => .implication) (literal ['=', '>'])))

/-- Joins the formulas of a chain, the leftmost first. -/
def joinLeft (first : Formula) (links : List (Connective × Formula)) : Formula :=
  links.foldl (fun left link => .binary link.1 left link.2) first

/-- Reads operands with connectives between them. -/
def chain (operand : Parser σ Formula) : Parser σ Formula :=
  map (fun parts => joinLeft parts.1 parts.2)
    (sequence operand (many (sequence connective operand)))

/-- Reads operands with connectives between them, all in parentheses. -/
def parenthesized (guard : Guard σ) (operand : Parser σ Formula) : Parser σ Formula :=
  map (fun parts => parts.2.1)
    (sequence (literal ['(']) (guard.nested (sequence (chain operand) (literal [')']))))

/-- Reads a negation sign and its operand. -/
def negation (guard : Guard σ) (operand : Parser σ Formula) : Parser σ Formula :=
  map (fun parts => .neg parts.2) (sequence (literal ['-']) (guard.nested operand))

/-- Reads a primary whose own operands are read by `operand`. -/
def primaryOver (guard : Guard σ) (operand : Parser σ Formula) : Parser σ Formula :=
  orElse (parenthesized guard operand) (orElse (negation guard operand) (orElse constant letter))

/-- Reads a primary. -/
def primary (guard : Guard σ) : Parser σ Formula :=
  recursive (primaryOver guard)

/-- Reads an expression. -/
def expression (guard : Guard σ) : Parser σ Formula :=
  chain (primary guard)

end Propositional.Grammar
