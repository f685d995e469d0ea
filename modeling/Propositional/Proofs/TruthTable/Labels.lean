import Propositional.Proofs.TruthTable.Limit

/-!
# The labels of columns

A column is labelled by the canonical text of its formula, which is a primary if the
variables are letters. A text starts with one primary only, whatever stands behind it,
so that no canonical text goes on as another one (`Lettered.eq_of_text_prefix`). So
columns with the same label are of the same formula. The characters of a label are
letters and the signs of the grammar (`Lettered.mem_text`).
-/

namespace Propositional

namespace Formula

/-- The signs of the grammar. -/
def signs : List Char :=
  ['(', ')', '-', '0', '1', '*', '+', '=', '>']

theorem mem_signs_of_mem_symbol {op : Connective} {c : Char} (h : c ∈ op.symbol.toList) :
    c ∈ signs := by
  have hsub : op.symbol.toList ⊆ signs := by cases op <;> decide
  exact hsub h

/-- A canonical text is made of letters and signs. -/
theorem Lettered.mem_text {p : Formula} (h : p.Lettered) {c : Char} (hc : c ∈ p.text.toList) :
    c.isAlpha ∨ c ∈ signs := by
  induction p with
  | const b =>
    cases b with
    | false => exact .inr (List.mem_singleton.1 hc ▸ by decide)
    | true => exact .inr (List.mem_singleton.1 hc ▸ by decide)
  | var x =>
    have hx : c = x := by simpa [text] using hc
    exact .inl (h c (List.mem_singleton.2 hx))
  | neg p ih =>
    rw [toList_text_neg] at hc
    rcases List.mem_cons.1 hc with rfl | hc
    · exact .inr (by decide)
    · exact ih h hc
  | binary op l r ihl ihr =>
    rw [toList_text_binary] at hc
    simp only [List.mem_cons, List.mem_append, List.not_mem_nil, or_false] at hc
    rcases hc with rfl | (hc | hc | hc) | rfl
    · exact .inr (by decide)
    · exact ihl h.left hc
    · exact .inr (mem_signs_of_mem_symbol hc)
    · exact ihr h.right hc
    · exact .inr (by decide)

/-- There are neither bars nor blanks in a canonical text. -/
theorem Lettered.text_plain {p : Formula} (h : p.Lettered) :
    ∀ c ∈ p.text.toList, c ≠ '|' ∧ Text.isBlank c = false := by
  intro c hc
  rcases h.mem_text hc with hc | hc
  · refine ⟨?_, Text.isBlank_eq_false_of_isAlpha hc⟩
    rintro rfl
    cases hc
  · have hsigns : signs.all fun c => c ≠ '|' && !Text.isBlank c := by decide
    simpa using List.all_eq_true.1 hsigns c hc

theorem Lettered.not_mem_text {p : Formula} (h : p.Lettered) {c : Char} (ha : c.isAlpha = false)
    (hs : c ∉ signs) : c ∉ p.text.toList := by
  intro hc
  rcases h.mem_text hc with hc | hc
  · rw [ha] at hc
    cases hc
  · exact hs hc

theorem Lettered.text_ne_empty {p : Formula} (h : p.Lettered) : p.text ≠ "" := by
  intro hempty
  have hp := h.primary_text
  rw [hempty, String.toList_empty] at hp
  cases hp

/-- No canonical text is the start of another one. -/
theorem Lettered.eq_of_text_prefix {p q : Formula} (hp : p.Lettered) (hq : q.Lettered)
    (h : p.text.toList <+: q.text.toList) : p = q := by
  obtain ⟨rest, h⟩ := h
  rw [← List.append_nil q.text.toList] at h
  exact (hp.primary_text.eq_of_append_eq hq.primary_text h).1

theorem Lettered.text_inj {p q : Formula} (hp : p.Lettered) (hq : q.Lettered) :
    p.text = q.text ↔ p = q := by
  constructor
  · intro h
    exact hp.eq_of_text_prefix hq (h ▸ List.prefix_refl _)
  · rintro rfl
    rfl

theorem Lettered.of_mem_columns {p q : Formula} (h : p.Lettered) (hq : q ∈ p.columns) :
    q.Lettered :=
  fun x hx => h x (mem_vars_iff.1 (occurrences_of_mem_columns hq x hx))

end Formula

namespace TruthTable

/-- Columns have the same label exactly if they are of the same formula. -/
theorem label_eq_iff {p : Formula} (h : p.Lettered) {i j : Nat} :
    (semantic p).header[i]? = (semantic p).header[j]? ↔ p.columns[i]? = p.columns[j]? := by
  simp only [semantic, List.getElem?_map]
  cases hi : p.columns[i]? with
  | none => cases hj : p.columns[j]? <;> simp
  | some q =>
    cases hj : p.columns[j]? with
    | none => simp
    | some r =>
      have hq := h.of_mem_columns (List.mem_of_getElem? hi)
      have hr := h.of_mem_columns (List.mem_of_getElem? hj)
      simp [hq.text_inj hr]

/-- With letters for variables, no canonical text is the start of another one, however
large the formulas are and however deep they nest. So columns have the same label
exactly if they are of the same formula. -/
theorem text_prefix_free (p : Formula) (h : p.Lettered) :
    (∀ q : Formula, q.Lettered → p.text.toList <+: q.text.toList → p = q) ∧
      ∃ table, ofFormula p = .ok table ∧
        ∀ i j : Nat, table.header[i]? = table.header[j]? ↔ table.columns[i]? = table.columns[j]? :=
  ⟨fun _ hq => h.eq_of_text_prefix hq, semantic p, ofFormula_eq h.length_vars_lt,
    fun _ _ => label_eq_iff h⟩

/-- In the table of `((a=>b)+-(a=>b))` the columns 2 and 4 have the same label, and the
columns 2 and 3 have not. -/
theorem text_prefix_free_repeated :
    let q := Formula.binary .implication (.var 'a') (.var 'b')
    let p := Formula.binary .disjunction q (.neg q)
    p.Lettered ∧ ∃ table, ofFormula p = .ok table ∧ table.columns[2]? = some q ∧
      table.header[2]? = table.header[4]? ∧ table.header[2]? ≠ table.header[3]? := by
  intro q p
  have hp : p.Lettered := by
    refine List.all_eq_true.1 ?_
    decide +kernel
  obtain ⟨-, table, htable, hlabels⟩ := text_prefix_free p hp
  have hcolumns : table.columns = p.columns := by
    rw [ofFormula_eq hp.length_vars_lt] at htable
    cases htable
    rfl
  rw [Formula.columns_eq] at hcolumns
  refine ⟨hp, table, htable, by rw [hcolumns]; decide, (hlabels 2 4).2 ?_, fun h => ?_⟩
  · rw [hcolumns]
    decide
  · have hne : table.columns[2]? ≠ table.columns[3]? := by
      rw [hcolumns]
      decide
    exact hne ((hlabels 2 3).1 h)

end TruthTable

end Propositional
