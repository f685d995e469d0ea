import Propositional.Formula.Tree
import Propositional.Proofs.Formula.Context
import Propositional.Proofs.Grammar.Derivation
import Propositional.Proofs.Text.Outline

/-!
# The tree of a formula

The tree of a formula has the symbols of its nodes for labels, in the order in which the
nodes are visited (`labels_tree`), and the line of a node starts as the path down to its
place says (`Lettered.linesOf_draw_tree`). With letters for variables the symbols alone
tell which formula it is: a symbol settles how many operands there are, and the symbols of
the visited nodes settle the stack that was visited (`eq_of_map_symbol_visit`).
-/

namespace Propositional

/-- The way down to the hole: of each operand on it, whether it is the last one. -/
def Context.path : Context → List Bool
  | hole => []
  | neg c | right _ _ c => true :: c.path
  | left _ c _ => false :: c.path

namespace Formula

open Text (linesOf unlines)
open Text.Tree (outline branchOutline map_snd_outline before length_before lineOf Fits
  linesOf_draw map_labelOf_linesOf_draw)

/-! ## Paths -/

/-- The path to what stands at a place, below a path, and its symbol. -/
def placeEntry (path : List Bool) (place : Context × Formula) : List Bool × String :=
  (path ++ place.1.path, place.2.symbol)

theorem placeEntry_hole (path : List Bool) (p : Formula) :
    placeEntry path (.hole, p) = (path, p.symbol) := by
  rw [placeEntry, Context.path, List.append_nil]

/-- The places of an operand are one step further down. -/
theorem map_placeEntry_placesInside {around : Context → Context} {last : Bool}
    (h : ∀ c, (around c).path = last :: c.path) (path : List Bool)
    (places : List (Context × Formula)) :
    (placesInside around places).map (placeEntry path) =
      places.map (placeEntry (path ++ [last])) := by
  rw [List.map_map]
  refine List.map_congr_left fun place _ => Prod.ext ?_ rfl
  show path ++ (around place.1).path = path ++ [last] ++ place.1.path
  rw [h, List.append_assoc, List.singleton_append]

theorem outline_tree (p : Formula) (path : List Bool) :
    p.tree.outline path = p.places.map (placeEntry path) := by
  induction p generalizing path with
  | const b => rw [places, List.map_singleton, placeEntry_hole]; rfl
  | var x => rw [places, List.map_singleton, placeEntry_hole]; rfl
  | neg p ih =>
    rw [tree, outline, branchOutline, ih, places, List.map_cons, placeEntry_hole,
      map_placeEntry_placesInside fun _ => rfl]
  | binary op l r ihl ihr =>
    rw [tree, outline, branchOutline, branchOutline, ihl, ihr, places, List.map_cons,
      placeEntry_hole, List.map_append, map_placeEntry_placesInside fun _ => rfl,
      map_placeEntry_placesInside fun _ => rfl]

/-- The labels of the tree are the symbols of the nodes. -/
theorem labels_tree (p : Formula) : p.tree.labels = p.nodes.map symbol := by
  rw [← map_snd_outline [], outline_tree, nodes_eq_preorder, ← map_snd_places, List.map_map,
    List.map_map]
  rfl

/-! ## Symbols -/

theorem Lettered.of_mem_operands {p q : Formula} (h : p.Lettered) (hq : q ∈ p.operands) :
    q.Lettered := by
  cases p with
  | const b => cases hq
  | var x => cases hq
  | neg p =>
    obtain rfl := List.mem_singleton.1 hq
    exact h
  | binary op l r =>
    rcases List.mem_cons.1 hq with rfl | hq
    · exact h.left
    · obtain rfl := List.mem_singleton.1 hq
      exact h.right

theorem Lettered.fits_symbol {p : Formula} (h : p.Lettered) : Fits p.symbol := by
  cases p with
  | const b => cases b <;> decide
  | var x =>
    refine ⟨?_, by simp [symbol], by simp [symbol]⟩
    rw [symbol, String.toList_singleton, List.mem_singleton]
    rintro rfl
    have hfeed := h '\n' List.mem_cons_self
    cases hfeed
  | neg p =>
    show Fits "-"
    decide
  | binary op l r =>
    show Fits op.symbol
    cases op <;> decide

/-- How many operands a symbol has. -/
def arity (symbol : String) : Nat :=
  if symbol = "-" then 1 else if Connective.all.any (symbol = ·.symbol) then 2 else 0

/-- The formula with the given symbol and operands. -/
def ofSymbol (symbol : String) : List Formula → Formula
  | [] =>
    if symbol = "0" then const false
    else if symbol = "1" then const true
    else var (symbol.toList.headD '0')
  | [p] => neg p
  | l :: r :: _ => binary ((Connective.all.find? (symbol = ·.symbol)).getD .conjunction) l r

theorem singleton_ne {x : Variable} (hx : x.isAlpha) {s : String}
    (hs : s.toList.any Char.isAlpha = false) : String.singleton x ≠ s := by
  rintro rfl
  simp [hx] at hs

theorem Lettered.length_operands {p : Formula} (h : p.Lettered) :
    p.operands.length = arity p.symbol := by
  cases p with
  | const b => cases b <;> decide
  | var x =>
    have hx : x.isAlpha := h x List.mem_cons_self
    simp [arity, operands, symbol, Connective.all, Connective.symbol, singleton_ne hx]
  | neg p => rfl
  | binary op l r => cases op <;> rfl

theorem Lettered.ofSymbol_eq {p : Formula} (h : p.Lettered) : ofSymbol p.symbol p.operands = p := by
  cases p with
  | const b => cases b <;> decide
  | var x =>
    have hx : x.isAlpha := h x List.mem_cons_self
    simp [ofSymbol, operands, symbol, singleton_ne hx]
  | neg p => rfl
  | binary op l r => cases op <;> rfl

/-- Stacks of the same height are equal if the formulas that are visited on them have the
same symbols. -/
theorem eq_of_map_symbol_visit {ps qs : List Formula} (hps : ∀ p ∈ ps, p.Lettered)
    (hqs : ∀ q ∈ qs, q.Lettered) (hlength : ps.length = qs.length)
    (h : (visit ps).map symbol = (visit qs).map symbol) : ps = qs := by
  induction ps using visit.induct generalizing qs with
  | case1 => exact (List.length_eq_zero_iff.1 hlength.symm).symm
  | case2 p ps ih =>
    obtain ⟨q, qs, rfl⟩ := List.exists_cons_of_length_eq_add_one hlength.symm
    obtain ⟨hp, hps⟩ := List.forall_mem_cons.1 hps
    obtain ⟨hq, hqs⟩ := List.forall_mem_cons.1 hqs
    rw [visit, visit, List.map_cons, List.map_cons, List.cons.injEq] at h
    obtain ⟨hsymbol, hrest⟩ := h
    -- One symbol takes one number of operands, so the stacks stay equally high.
    have harity : p.operands.length = q.operands.length := by
      rw [hp.length_operands, hq.length_operands, hsymbol]
    have hstack : p.operands ++ ps = q.operands ++ qs := by
      refine ih (List.forall_mem_append.2 ⟨fun r => hp.of_mem_operands, hps⟩)
        (List.forall_mem_append.2 ⟨fun r => hq.of_mem_operands, hqs⟩) ?_ hrest
      rw [List.length_append, List.length_append, harity, Nat.succ.inj hlength]
    obtain ⟨hoperands, rfl⟩ := List.append_inj hstack harity
    rw [← hp.ofSymbol_eq, ← hq.ofSymbol_eq, hsymbol, hoperands]

/-- The symbols of the nodes tell the formula. -/
theorem Lettered.eq_of_map_symbol_nodes {p q : Formula} (hp : p.Lettered) (hq : q.Lettered)
    (h : p.nodes.map symbol = q.nodes.map symbol) : p = q :=
  List.singleton_inj.1 (eq_of_map_symbol_visit (List.forall_mem_singleton.2 hp)
    (List.forall_mem_singleton.2 hq) rfl h)

/-! ## Drawings -/

theorem Lettered.fits_labels {p : Formula} (h : p.Lettered) :
    ∀ label ∈ p.tree.labels, Fits label := by
  rw [labels_tree, nodes_eq_preorder]
  refine List.forall_mem_map.2 fun q hq => Lettered.fits_symbol ?_
  exact fun x hx => h x (occurrences_of_mem_preorder hq x hx)

/-- The drawing has the lines of what stands at the places. -/
theorem Lettered.linesOf_draw_tree {p : Formula} (h : p.Lettered) :
    linesOf p.tree.draw = p.places.map fun place => before place.1.path ++ place.2.symbol := by
  rw [linesOf_draw h.fits_labels, outline_tree, List.map_map]
  rfl

/-- The formula is drawn node by node, and nothing else is drawn that way. -/
structure Outlined (p : Formula) : Prop where
  /-- Every line is ended by a line feed. -/
  unlines_eq : unlines (linesOf p.tree.draw) = p.tree.draw
  /-- There is one line for each node. -/
  length_eq : (linesOf p.tree.draw).length = p.nodes.length
  /-- The line of a node is what is drawn before the end of the path to it, which is four
  characters for each step down, and its symbol. -/
  line_eq : ∀ (k : Nat) (q : Formula), p.nodes[k]? = some q →
    ∃ c : Context, p.places[k]? = some (c, q) ∧ c.plug q = p ∧
      (linesOf p.tree.draw)[k]? = some (before c.path ++ q.symbol) ∧
      (before c.path).length = 4 * c.path.length
  eq_of_symbols : ∀ q : Formula, q.Lettered → p.nodes.map symbol = q.nodes.map symbol → p = q
  eq_of_draw : ∀ q : Formula, q.Lettered → p.tree.draw = q.tree.draw → p = q

theorem Lettered.outlined {p : Formula} (h : p.Lettered) : p.Outlined where
  unlines_eq := by
    rw [linesOf_draw h.fits_labels, ← Text.Tree.lines_eq]
    rfl
  length_eq := by
    rw [h.linesOf_draw_tree, nodes_eq_preorder, ← map_snd_places, List.length_map, List.length_map]
  line_eq k q hq := by
    rw [nodes_eq_preorder, ← map_snd_places, List.getElem?_map, Option.map_eq_some_iff] at hq
    obtain ⟨⟨c, q⟩, hplace, rfl⟩ := hq
    refine ⟨c, hplace, mem_places_iff.1 (List.mem_of_getElem? hplace), ?_, length_before c.path⟩
    rw [h.linesOf_draw_tree, List.getElem?_map, hplace, Option.map_some]
  eq_of_symbols q hq := h.eq_of_map_symbol_nodes hq
  eq_of_draw q hq hdraw := by
    have hp := map_labelOf_linesOf_draw h.fits_labels
    rw [hdraw, map_labelOf_linesOf_draw hq.fits_labels, labels_tree, labels_tree] at hp
    exact h.eq_of_map_symbol_nodes hq hp.symm

/-- The tree of a formula has the symbols of its nodes for labels, in the order in which
the nodes are visited. With letters for variables, its drawing has one line for each node,
and the symbols tell the formula. -/
theorem tree_outlines_nodes (p : Formula) :
    p.tree.labels = p.nodes.map symbol ∧ (p.Lettered → p.Outlined) :=
  ⟨p.labels_tree, Lettered.outlined⟩

/-- In the tree of `((a*-(b+c))*d)` the sixth line is that of `b`, four levels down. -/
theorem tree_outlines_nodes_sum :
    let sum := binary .disjunction (var 'b') (var 'c')
    let p := binary .conjunction (binary .conjunction (var 'a') (neg sum)) (var 'd')
    p.Lettered ∧ p.tree.labels = ["*", "*", "a", "-", "+", "b", "c", "d"] ∧
      (linesOf p.tree.draw).length = 8 ∧
      (linesOf p.tree.draw)[5]? = some "│           ├── b" := by
  intro sum p
  have hp : p.Lettered := by
    refine List.all_eq_true.1 ?_
    decide +kernel
  obtain ⟨hlabels, hdrawn⟩ := tree_outlines_nodes p
  have hdrawn := hdrawn hp
  have hnodes : p.nodes[5]? = some (var 'b') := by
    rw [nodes_eq_preorder]
    decide
  obtain ⟨c, hplace, -, hline, -⟩ := hdrawn.line_eq 5 _ hnodes
  rw [nodes_eq_preorder] at hlabels
  refine ⟨hp, hlabels.trans (by decide), ?_, ?_⟩
  · rw [hdrawn.length_eq, nodes_eq_preorder]
    rfl
  · cases hplace
    exact hline

end Formula

end Propositional
