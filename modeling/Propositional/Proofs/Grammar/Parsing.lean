import Propositional.Formula.Parse
import Propositional.Proofs.Grammar.Completeness
import Propositional.Proofs.Grammar.Soundness

/-!
# Parsing is derivation

`Formula.read` gives exactly the values of the derivations whose nesting keeps
within the limit (`read_eq_ok_iff`), so `Formula.parse` accepts exactly the
texts that are expressions once their blanks are gone (`parse_eq_ok_iff`).
-/

namespace Propositional

open Parsing Grammar

namespace Formula

section

variable {limit : Nat} {text : List Char} {p : Formula} {left : Stream Nesting}

theorem read_of_ok (h : expression (Guard.atMost limit) ⟨text, ⟨0, none⟩⟩ = .ok p left) :
    read (Guard.atMost limit) text =
      if left.rest.isEmpty then .ok p else .error ⟨String.ofList left.rest⟩ := by
  rw [read, show (Guard.atMost limit).start = ⟨0, none⟩ from rfl, h]

/-- Where no operand was refused, an error leaves all of the text. -/
theorem read_of_backtrack (h : expression (Guard.atMost limit) ⟨text, ⟨0, none⟩⟩ = .backtrack left) :
    read (Guard.atMost limit) text = .error ⟨String.ofList text⟩ := by
  have hs := (steady_expression (Guard.balanced_atMost limit)).backtrack_eq h
  rw [read, show (Guard.atMost limit).start = ⟨0, none⟩ from rfl, h, hs]
  rfl

theorem read_of_cut (h : expression (Guard.atMost limit) ⟨text, ⟨0, none⟩⟩ = .cut left) :
    read (Guard.atMost limit) text =
      .error ⟨String.ofList (unread text left.state.refusedAt)⟩ := by
  rw [read, show (Guard.atMost limit).start = ⟨0, none⟩ from rfl, h]
  rfl

end

theorem read_eq_ok_iff {limit : Nat} {text : List Char} {p : Formula} :
    read (Guard.atMost limit) text = .ok p ↔ ∃ n, n ≤ limit ∧ Expression text p n := by
  constructor
  · intro h
    simp only [read] at h
    split at h <;> try cases h
    rename_i q left hq
    split at h <;> cases h
    rename_i hleft
    obtain ⟨body, n, hr, hd, hn⟩ := (sound_expression limit).read (Nat.zero_le _) hq
    rw [List.isEmpty_iff.1 hleft, List.append_nil] at hr
    cases hr
    exact ⟨n, by simpa [Guard.atMost] using hn, hd⟩
  · rintro ⟨n, hn, hd⟩
    have hread := hd.read 0 none noSign_nil (show 0 + n ≤ limit by omega)
    rw [List.append_nil] at hread
    simp only [read, show (Guard.atMost limit).start = ⟨0, none⟩ from rfl, hread]
    rfl

theorem parse_eq_ok_iff {source : String} {p : Formula} :
    parse source = .ok p ↔
      ∃ n, n ≤ maxNesting ∧ Expression (Text.strip source.toList) p n :=
  read_eq_ok_iff

end Formula

/-- Parsing is sound and complete: a source has the formula `p` exactly if, its
blanks removed, it is an expression with the value `p` and no more than 128
parentheses and negation signs open at once. And no text has derivations that
differ. -/
theorem parse_sound_and_complete :
    (∀ (source : String) (p : Formula), Formula.parse source = .ok p ↔
      ∃ n, n ≤ 128 ∧ Expression (Text.strip source.toList) p n) ∧
    ∀ (text : List Char) (p q : Formula) (m n : Nat),
      Expression text p m → Expression text q n → p = q ∧ m = n :=
  ⟨fun _ _ => Formula.parse_eq_ok_iff, fun _ _ _ _ _ => Expression.unique⟩

/-- `-a =>0` is read as an implication, which is all that it can be derived as. -/
theorem parse_negation_and_chain :
    Formula.parse "-a =>0" = .ok (.binary .implication (.neg (.var 'a')) (.const false)) ∧
      ∀ p n, Expression ['-', 'a', '=', '>', '0'] p n →
        p = .binary .implication (.neg (.var 'a')) (.const false) ∧ n = 1 := by
  have hlinks : Links ['=', '>', '0'] [(.implication, .const false)] 0 :=
    @Links.cons .implication ['0'] [] _ _ _ _ .zero .nil
  have hd : Expression ['-', 'a', '=', '>', '0']
      (.binary .implication (.neg (.var 'a')) (.const false)) 1 :=
    .chain (.negation (.letter rfl)) hlinks
  exact ⟨(parse_sound_and_complete.1 _ _).2 ⟨1, by decide, hd⟩,
    fun p n h => parse_sound_and_complete.2 _ _ _ _ _ h hd⟩

end Propositional
