import Propositional.Proofs.Formula.CanonicalText
import Propositional.Proofs.Formula.Parts
import Propositional.Proofs.Grammar.NestingGuard

/-!
# Where a canonical text is too deep

The canonical text of a formula opens a parenthesis for every binary formula
and a negation sign for every negation in it. `openings` lists them in
pre-order, each with its level and with what stands behind it in the text. The
first one on the level behind the limit is the first one for which the parser
has no room (`Lettered.overrun_text`), so the canonical text is read, or refused
right there (`parse_text_by_height`).
-/

namespace Propositional

open Grammar

/-- What opens a negation or a binary formula in a canonical text. -/
structure Opening where
  /-- The negation or binary formula. -/
  node : Formula
  /-- How many negations and binary formulas stand on the path down to the node, itself included. -/
  level : Nat
  /-- What stands behind the text of the node. -/
  behind : List Char
deriving DecidableEq

namespace Opening

/-- The text from behind the parenthesis or the negation sign on. -/
def rest (o : Opening) : List Char :=
  o.node.text.toList.tail ++ o.behind

/-- The opening in the text of a formula of which its own is an operand, the
text `after` standing behind that operand. -/
def inside (after : List Char) (o : Opening) : Opening :=
  { o with level := o.level + 1, behind := o.behind ++ after }

theorem rest_inside (after : List Char) (o : Opening) : (o.inside after).rest = o.rest ++ after :=
  (List.append_assoc ..).symm

/-- The openings of an operand are one level up when seen from the operand. -/
theorem find?_map_inside (after : List Char) (openings : List Opening) (level : Nat) :
    (openings.map (inside after)).find? (·.level == level + 1) =
      (openings.find? (·.level == level)).map (inside after) := by
  have hlevel : ((·.level == level + 1) ∘ inside after) = (·.level == level) := by
    funext o
    simp [inside]
  rw [List.find?_map, hlevel]

end Opening

namespace Formula

/-- The openings in the canonical text, in pre-order: that of the formula, then
those of its operands from left to right. -/
def openings : Formula → List Opening
  | const _ | var _ => []
  | neg p => ⟨neg p, 1, []⟩ :: p.openings.map (Opening.inside [])
  | binary op l r => ⟨binary op l r, 1, []⟩ ::
      (l.openings.map (Opening.inside (op.symbol.toList ++ (r.text.toList ++ [')']))) ++
        r.openings.map (Opening.inside [')']))

/-- Whether the formula is a negation or a binary formula. -/
def isCompound : Formula → Bool
  | neg _ | binary .. => true
  | _ => false

/-- The openings are those of the negations and binary formulas in pre-order. -/
theorem map_node_openings (p : Formula) :
    p.openings.map Opening.node = p.preorder.filter isCompound := by
  have hnode (after : List Char) : Opening.node ∘ Opening.inside after = Opening.node := rfl
  induction p with
  | const b => rfl
  | var x => rfl
  | neg p ih =>
    rw [openings, preorder, List.filter_cons_of_pos rfl, List.map_cons, List.map_map, hnode, ih]
  | binary op l r ihl ihr =>
    rw [openings, preorder, List.filter_cons_of_pos rfl, List.filter_append, List.map_cons,
      List.map_append, List.map_map, List.map_map, hnode, hnode, ihl, ihr]

/-- The node of an opening stands in the text where the opening says. -/
theorem text_eq_of_mem_openings {p : Formula} {o : Opening} (h : o ∈ p.openings) :
    ∃ before, p.text.toList = before ++ (o.node.text.toList ++ o.behind) := by
  induction p generalizing o with
  | const b => cases h
  | var x => cases h
  | neg p ih =>
    obtain rfl | h := List.mem_cons.1 h
    · exact ⟨[], (List.append_nil _).symm⟩
    · obtain ⟨o, ho, rfl⟩ := List.mem_map.1 h
      obtain ⟨before, htext⟩ := ih ho
      exact ⟨'-' :: before, by simp [Opening.inside, toList_text_neg, htext]⟩
  | binary op l r ihl ihr =>
    obtain rfl | h := List.mem_cons.1 h
    · exact ⟨[], (List.append_nil _).symm⟩
    · obtain h | h := List.mem_append.1 h
      · obtain ⟨o, ho, rfl⟩ := List.mem_map.1 h
        obtain ⟨before, htext⟩ := ihl ho
        exact ⟨'(' :: before, by simp [Opening.inside, toList_text_binary, htext]⟩
      · obtain ⟨o, ho, rfl⟩ := List.mem_map.1 h
        obtain ⟨before, htext⟩ := ihr ho
        exact ⟨'(' :: (l.text.toList ++ (op.symbol.toList ++ before)),
          by simp [Opening.inside, toList_text_binary, htext]⟩

theorem level_le_height {p : Formula} {o : Opening} (h : o ∈ p.openings) : o.level ≤ p.height := by
  induction p generalizing o with
  | const b => cases h
  | var x => cases h
  | neg p ih =>
    obtain rfl | h := List.mem_cons.1 h
    · exact Nat.le_add_left 1 _
    · obtain ⟨o, ho, rfl⟩ := List.mem_map.1 h
      exact Nat.succ_le_succ (ih ho)
  | binary op l r ihl ihr =>
    obtain rfl | h := List.mem_cons.1 h
    · exact Nat.le_add_left 1 _
    · obtain h | h := List.mem_append.1 h
      · obtain ⟨o, ho, rfl⟩ := List.mem_map.1 h
        exact Nat.succ_le_succ (Nat.le_trans (ihl ho) (Nat.le_max_left ..))
      · obtain ⟨o, ho, rfl⟩ := List.mem_map.1 h
        exact Nat.succ_le_succ (Nat.le_trans (ihr ho) (Nat.le_max_right ..))

theorem find?_openings_of_height_le {p : Formula} {level : Nat} (h : p.height ≤ level) :
    p.openings.find? (·.level == level + 1) = none := by
  refine List.find?_eq_none.2 fun o ho => ?_
  have := level_le_height ho
  simp only [beq_iff_eq]
  omega

/-- The first opening on a level is in the left operand, if it has one on that level. -/
theorem find?_openings_binary (op : Connective) (l r : Formula) (level : Nat) :
    (binary op l r).openings.find? (·.level == level + 2) =
      ((l.openings.find? (·.level == level + 1)).map
        (Opening.inside (op.symbol.toList ++ (r.text.toList ++ [')'])))).or
      ((r.openings.find? (·.level == level + 1)).map (Opening.inside [')'])) := by
  rw [openings, List.find?_cons_of_neg (by simp), List.find?_append, Opening.find?_map_inside,
    Opening.find?_map_inside]

/-- The first opening on the level behind the limit is where the text runs out of room. -/
theorem Lettered.overrun_text {p : Formula} (h : p.Lettered) {room : Nat} (hp : room < p.height) :
    ∃ o first, p.openings.find? (·.level == room + 1) = some o ∧
      p.text.toList = first ++ o.rest ∧ PrimaryOverrun room first := by
  induction p generalizing room with
  | const b => cases hp
  | var x => cases hp
  | neg p ih =>
    rw [toList_text_neg]
    cases room with
    | zero =>
      refine ⟨⟨neg p, 1, []⟩, ['-'], rfl, ?_, .opener (.inr rfl)⟩
      rw [Opening.rest, toList_text_neg, List.append_nil]
      rfl
    | succ room =>
      obtain ⟨o, first, ho, htext, hover⟩ := ih h (Nat.lt_of_succ_lt_succ hp)
      refine ⟨o.inside [], '-' :: first, ?_, ?_, .negation hover⟩
      · rw [openings, List.find?_cons_of_neg (by simp), Opening.find?_map_inside, ho]
        rfl
      · rw [Opening.rest_inside, htext, List.append_nil, List.cons_append]
  | binary op l r ihl ihr =>
    rw [toList_text_binary]
    cases room with
    | zero =>
      refine ⟨⟨binary op l r, 1, []⟩, ['('], rfl, ?_, .opener (.inl rfl)⟩
      rw [Opening.rest, toList_text_binary, List.append_nil]
      rfl
    | succ room =>
      have hroom : room < max l.height r.height := Nat.lt_of_succ_lt_succ hp
      rw [find?_openings_binary]
      by_cases hdeep : room < l.height
      · obtain ⟨o, first, ho, htext, hover⟩ := ihl h.left hdeep
        refine ⟨_, '(' :: first, by rw [ho]; rfl, ?_, .parentheses (.operand hover)⟩
        rw [Opening.rest_inside, htext]
        simp
      · have hle : l.height ≤ room := Nat.le_of_not_lt hdeep
        obtain ⟨o, first, ho, htext, hover⟩ := ihr h.right (show room < r.height by omega)
        refine ⟨_, '(' :: (l.text.toList ++ (op.symbol.toList ++ first)),
          by rw [find?_openings_of_height_le hle, ho]; rfl, ?_,
          .parentheses (.later h.left.primary_text hle (.operand hover))⟩
        rw [Opening.rest_inside, htext]
        simp

end Formula

/-- The canonical text of a formula with letters for variables is read as the
formula if the formula is no higher than 128. Otherwise it is an error that
leaves what stands behind the first opening, in pre-order, on level 129. -/
theorem parse_text_by_height (p : Formula) (h : p.Lettered) :
    (Formula.parse p.text = .ok p ↔ p.height ≤ 128) ∧
      (128 < p.height → ∃ o before, p.openings.find? (·.level == 129) = some o ∧
        p.text.toList = before ++ (o.node.text.toList ++ o.behind) ∧
        Formula.parse p.text =
          .error ⟨String.ofList (o.node.text.toList.tail ++ o.behind)⟩) := by
  constructor
  · rw [Formula.parse_text_eq_ok_iff h]
    exact and_iff_right rfl
  · intro hp
    obtain ⟨o, first, ho, htext, hover⟩ := h.overrun_text hp
    obtain ⟨before, hbefore⟩ := Formula.text_eq_of_mem_openings (List.mem_of_find?_eq_some ho)
    refine ⟨o, before, ho, hbefore, ?_⟩
    rw [Formula.parse, h.primary_text.expression.strip_eq, htext]
    exact Formula.read_eq_error_of_overrun (.operand hover) o.rest

/-- `(-a*-…-b)` with 128 signs before the `b`: the first operand is shallow, and
what stands behind the last sign of the second is left. -/
theorem parse_text_by_height_product :
    Formula.Lettered (.binary .conjunction (.neg (.var 'a')) (Nat.repeat .neg 128 (.var 'b'))) ∧
      128 < (Formula.binary .conjunction (.neg (.var 'a'))
        (Nat.repeat .neg 128 (.var 'b'))).height ∧
      Formula.parse (Formula.binary .conjunction (.neg (.var 'a'))
        (Nat.repeat .neg 128 (.var 'b'))).text = .error ⟨"b)"⟩ := by
  have hletters : Formula.Lettered
      (.binary .conjunction (.neg (.var 'a')) (Nat.repeat .neg 128 (.var 'b'))) := by
    refine List.all_eq_true.1 ?_
    decide +kernel
  have hheight : 128 < (Formula.binary .conjunction (.neg (.var 'a'))
      (Nat.repeat .neg 128 (.var 'b'))).height := by
    decide +kernel
  obtain ⟨o, -, ho, -, herror⟩ := (parse_text_by_height _ hletters).2 hheight
  have hfirst : some o = some ⟨.neg (.var 'b'), 129, [')']⟩ := by
    rw [← ho]
    decide +kernel
  cases hfirst
  exact ⟨hletters, hheight, herror⟩

end Propositional
