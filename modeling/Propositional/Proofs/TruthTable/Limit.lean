import Mathlib.Data.Finset.Card
import Propositional.Proofs.Grammar.Symbols
import Propositional.Proofs.TruthTable.Build

/-!
# How many variables a text can have

The variables of a formula that is read are the letters of its text
(`length_vars_of_parse`), and there are 52 letters (`length_vars_le_of_parse`), so that
the assignments can always be counted in words. Whatever the limit, a formula that is
read and within the limit has a table (`ofTextWithin_eq_map`), and only what is no
formula or beyond the limit has none (`ofTextWithin_eq_error_iff`,
`ofTextWithin_eq_ok_iff`). `Limited` states what a limit makes of a text.
-/

namespace Propositional

namespace Text

/-- The letters of a text, each once. -/
def letters (source : String) : Finset Char :=
  (source.toList.filter Char.isAlpha).toFinset

/-- No letter is lost with the blanks. -/
theorem filter_isAlpha_strip (chars : List Char) :
    (strip chars).filter Char.isAlpha = chars.filter Char.isAlpha := by
  rw [strip, List.filter_filter]
  refine List.filter_congr fun c _ => ?_
  cases h : c.isAlpha with
  | false => rfl
  | true => rw [isBlank_eq_false_of_isAlpha h]; rfl

end Text

namespace Formula

/-- The code points of the letters. -/
def letterCodes : List Nat :=
  List.range' 65 26 ++ List.range' 97 26

theorem toNat_mem_letterCodes {x : Variable} (h : x.isAlpha) : x.toNat ∈ letterCodes := by
  have hx := Text.toNat_of_isAlpha h
  rw [letterCodes, List.mem_append, List.mem_range'_1, List.mem_range'_1]
  omega

/-- There are 52 letters. -/
theorem Lettered.length_vars_le {p : Formula} (h : p.Lettered) : p.vars.length ≤ 52 := by
  have hnodup : (p.vars.map Char.toNat).Nodup :=
    List.pairwise_map.2 (p.nodup_vars.imp fun hne heq => hne (Char.toNat_inj.1 heq))
  have hsubset : p.vars.map Char.toNat ⊆ letterCodes := by
    intro code hcode
    obtain ⟨x, hx, rfl⟩ := List.mem_map.1 hcode
    exact toNat_mem_letterCodes (h x (mem_vars_iff.1 hx))
  have hle := hnodup.length_le_of_subset hsubset
  rwa [List.length_map] at hle

/-- A formula with letters for variables can be tabulated. -/
theorem Lettered.length_vars_lt {p : Formula} (h : p.Lettered) : p.vars.length < 64 :=
  Nat.lt_of_le_of_lt h.length_vars_le (by decide)

theorem length_vars_le_of_parse {source : String} {p : Formula} (h : parse source = .ok p) :
    p.vars.length ≤ 52 :=
  (lettered_of_parse h).length_vars_le

/-- A formula within a limit can be tabulated, however high the limit is. -/
theorem length_vars_lt_of_within {source : String} {limit : Nat} {p : Formula}
    (h : within source limit = .ok p) : p.vars.length < 64 :=
  (lettered_of_parse (within_eq_ok h).1).length_vars_lt

theorem occurrences_of_parse {source : String} {p : Formula} (h : parse source = .ok p) :
    p.occurrences = source.toList.filter Char.isAlpha := by
  obtain ⟨n, -, hd⟩ := parse_eq_ok_iff.1 h
  rw [← hd.filter_isAlpha, Text.filter_isAlpha_strip]

/-- A formula has as many variables as its text has letters. -/
theorem length_vars_of_parse {source : String} {p : Formula} (h : parse source = .ok p) :
    p.vars.length = (Text.letters source).card := by
  rw [← List.toFinset_card_of_nodup p.nodup_vars, Text.letters, ← occurrences_of_parse h]
  refine congrArg Finset.card (Finset.ext fun x => ?_)
  rw [List.mem_toFinset, List.mem_toFinset, mem_vars_iff]

theorem within_ne_evaluation {source : String} {limit : Nat} {e : EvaluationError} :
    within source limit ≠ .error (.evaluation e) := by
  intro h
  cases hp : parse source with
  | error e' =>
    rw [within_of_error hp] at h
    cases h
  | ok p =>
    rw [within_of_ok hp] at h
    obtain ⟨hlimit, -⟩ | ⟨hlimit, -⟩ := p.checkLimit_cases limit <;> rw [hlimit] at h <;> cases h

end Formula

namespace TruthTable

theorem ofTextWithin_eq_map (source : String) (limit : Nat) :
    ofTextWithin source limit = (Formula.within source limit).map semantic :=
  (yields_buildTextWithin fun _ => Formula.length_vars_lt_of_within).value_eq

theorem ofTextWithin_eq_ok_iff {source : String} {limit : Nat} {table : TruthTable} :
    ofTextWithin source limit = .ok table ↔
      ∃ p, Formula.within source limit = .ok p ∧ semantic p = table := by
  rw [ofTextWithin_eq_map]
  cases Formula.within source limit <;> simp [Except.map]

theorem ofTextWithin_eq_error_iff {source : String} {limit : Nat} {e : Error} :
    ofTextWithin source limit = .error e ↔ Formula.within source limit = .error e := by
  rw [ofTextWithin_eq_map]
  cases Formula.within source limit <;> simp [Except.map]

section

variable {source : String} {limit : Nat} {p : Formula}

theorem ofText_of_parse (hp : Formula.parse source = .ok p) : ofText source = .ok (semantic p) :=
  (yields_buildText_ok hp (Formula.lettered_of_parse hp).length_vars_lt).value_eq

/-- Beyond the limit, the number of variables is the error. -/
theorem ofTextWithin_of_lt (hp : Formula.parse source = .ok p) (h : limit < p.vars.length) :
    ofTextWithin source limit = .error (.tooManyVariables p.vars.length limit) := by
  rw [ofTextWithin_eq_error_iff, Formula.within_of_ok hp]
  obtain ⟨hcheck, -⟩ | ⟨-, hle⟩ := p.checkLimit_cases limit
  · rw [hcheck]
    rfl
  · omega

/-- Within the limit, a text has the table that it has without one. -/
theorem ofTextWithin_of_le (hp : Formula.parse source = .ok p) (h : p.vars.length ≤ limit) :
    ofTextWithin source limit = .ok (semantic p) := by
  rw [ofTextWithin_eq_map, Formula.within_of_ok hp]
  obtain ⟨-, hlt⟩ | ⟨hcheck, -⟩ := p.checkLimit_cases limit
  · omega
  · rw [hcheck]
    rfl

/-- What has a table under a limit has it under every higher one. -/
theorem ofTextWithin_mono {larger : Nat} {table : TruthTable} (h : limit ≤ larger)
    (ht : ofTextWithin source limit = .ok table) : ofTextWithin source larger = .ok table := by
  obtain ⟨p, hp, rfl⟩ := ofTextWithin_eq_ok_iff.1 ht
  have hle := Formula.length_vars_le hp
  exact ofTextWithin_of_le (Formula.within_eq_ok hp).1 (by omega)

end

/-- What a limit on the number of variables makes of a text. -/
structure Limited (source : String) (limit : Nat) : Prop where
  /-- A text that is no formula is the same error under every limit and without one. -/
  of_error : ∀ e, Formula.parse source = .error e →
    ofTextWithin source limit = .error (.parse e) ∧ ofText source = .error (.parse e)
  /-- The variables of a formula are the letters of its text. There are so few of them that
  the number of their assignments is a word. -/
  length_vars : ∀ p, Formula.parse source = .ok p →
    p.vars.length = (Text.letters source).card ∧ p.vars.length ≤ 52 ∧
      (Assignment.count p.vars.length).toNat = 2 ^ p.vars.length
  of_lt : ∀ p, Formula.parse source = .ok p → limit < (Text.letters source).card →
    ofTextWithin source limit = .error (.tooManyVariables (Text.letters source).card limit)
  of_le : ∀ p, Formula.parse source = .ok p → (Text.letters source).card ≤ limit →
    ofTextWithin source limit = ofText source ∧ ∃ table, ofText source = .ok table ∧
      table.rows.length = 2 ^ (Text.letters source).card ∧ table.rows.length ≤ 2 ^ limit
  /-- The table under a limit is the table under every higher limit. -/
  mono : ∀ table, ofTextWithin source limit = .ok table →
    ∀ larger, limit ≤ larger → ofTextWithin source larger = .ok table
  ne_evaluation : ∀ e, ofTextWithin source limit ≠ .error (.evaluation e)

/-- A limit refuses the texts whose formulas have more letters than it says, and changes
nothing about the others. -/
theorem ofTextWithin_limited (source : String) (limit : Nat) : Limited source limit where
  of_error e he := by
    rw [ofTextWithin_eq_error_iff, Formula.within_of_error he]
    exact ⟨rfl, (yields_buildText_error he).value_eq⟩
  length_vars p hp :=
    ⟨Formula.length_vars_of_parse hp, Formula.length_vars_le_of_parse hp,
      Assignment.toNat_count (Formula.lettered_of_parse hp).length_vars_lt⟩
  of_lt p hp h := by
    rw [← Formula.length_vars_of_parse hp] at h ⊢
    exact ofTextWithin_of_lt hp h
  of_le p hp h := by
    rw [← Formula.length_vars_of_parse hp] at h ⊢
    rw [ofTextWithin_of_le hp h, ofText_of_parse hp]
    refine ⟨rfl, semantic p, rfl, length_rows p, ?_⟩
    rw [length_rows]
    exact Nat.pow_le_pow_right (by decide) h
  mono table ht larger h := ofTextWithin_mono h ht
  ne_evaluation e he := Formula.within_ne_evaluation (ofTextWithin_eq_error_iff.1 he)

open Grammar in
/-- The two letters of `b* a=>b` are one too many for a limit of 1, and make four rows. -/
theorem ofTextWithin_limited_two :
    (Text.letters "b* a=>b").card = 2 ∧
      ofTextWithin "b* a=>b" 1 = .error (.tooManyVariables 2 1) ∧
      ∃ table, ofTextWithin "b* a=>b" 2 = .ok table ∧ ofTextWithin "b* a=>b" 16 = .ok table ∧
        table.rows.length = 4 := by
  have hlinks : Links ['*', 'a', '=', '>', 'b']
      [(.conjunction, .var 'a'), (.implication, .var 'b')] 0 :=
    @Links.cons .conjunction ['a'] _ _ _ _ _ (.letter rfl)
      (@Links.cons .implication ['b'] [] _ _ _ _ (.letter rfl) .nil)
  have hparse : Formula.parse "b* a=>b" = .ok (.binary .implication
      (.binary .conjunction (.var 'b') (.var 'a')) (.var 'b')) :=
    Formula.parse_eq_ok_iff.2 ⟨0, by decide, .chain (.letter rfl) hlinks⟩
  have hcard : (Text.letters "b* a=>b").card = 2 := by decide +kernel
  have hone := (ofTextWithin_limited "b* a=>b" 1).of_lt _ hparse (by rw [hcard]; decide)
  have htwo := ofTextWithin_limited "b* a=>b" 2
  obtain ⟨heq, table, htable, hrows, -⟩ := htwo.of_le _ hparse (Nat.le_of_eq hcard)
  rw [htable] at heq
  rw [hcard] at hone hrows
  exact ⟨hcard, hone, table, heq, htwo.mono _ heq 16 (by decide), hrows⟩

end TruthTable

end Propositional
