import Propositional.Proofs.Truth

/-!
# Renaming variables

`Formula.rename` puts other variables in the place of those of a formula. Whatever
the renaming, the nodes of the renamed formula are the renamed nodes
(`preorder_rename`), and its truth value is that of the formula when every
variable has the value of its new name (`truth_rename`). A renaming that keeps the
variables apart permutes them (`perm_vars_rename`), and then the truth values of
the two formulas are the same ones (`exists_truth_rename_iff`). A renaming that
keeps their order as well leaves every variable, and so every column, in its place
(`vars_rename`, `columns_rename`).
-/

namespace Propositional.Formula

/-- The formula with `f x` in the place of every variable `x`. -/
def rename (f : Variable → Variable) : Formula → Formula
  | const b => const b
  | var x => var (f x)
  | neg p => neg (p.rename f)
  | binary op l r => binary op (l.rename f) (r.rename f)

/-- The renaming gives different names to different variables of the formula. -/
def KeepsApart (f : Variable → Variable) (p : Formula) : Prop :=
  ∀ x ∈ p.vars, ∀ y ∈ p.vars, f x = f y → x = y

/-- The renaming gives the names in the order of the variables of the formula. -/
def KeepsOrder (f : Variable → Variable) (p : Formula) : Prop :=
  ∀ x ∈ p.vars, ∀ y ∈ p.vars, x < y → f x < f y

variable {f : Variable → Variable} {p : Formula}

theorem KeepsOrder.keepsApart (h : p.KeepsOrder f) : p.KeepsApart f := by
  intro x hx y hy hxy
  refine Char.le_antisymm (Char.not_lt.1 fun hlt => ?_) (Char.not_lt.1 fun hlt => ?_)
  · exact Char.ne_of_lt (h y hy x hx hlt) hxy.symm
  · exact Char.ne_of_lt (h x hx y hy hlt) hxy

/-! ## Parts of the renamed formula -/

theorem isVariable_rename (f : Variable → Variable) (p : Formula) :
    (p.rename f).isVariable = p.isVariable := by
  cases p <;> rfl

theorem occurrences_rename (f : Variable → Variable) (p : Formula) :
    (p.rename f).occurrences = p.occurrences.map f := by
  induction p with
  | const b => rfl
  | var x => rfl
  | neg p ih => exact ih
  | binary op l r ihl ihr => rw [rename, occurrences, occurrences, ihl, ihr, List.map_append]

theorem preorder_rename (f : Variable → Variable) (p : Formula) :
    (p.rename f).preorder = p.preorder.map (rename f) := by
  induction p with
  | const b => rfl
  | var x => rfl
  | neg p ih => rw [rename, preorder, preorder, ih, List.map_cons, rename]
  | binary op l r ihl ihr =>
    rw [rename, preorder, preorder, ihl, ihr, List.map_cons, List.map_append, rename]

theorem truth_rename (f : Variable → Variable) (v : Valuation) (p : Formula) :
    (p.rename f).truth v = p.truth (v ∘ f) := by
  induction p with
  | const b => rfl
  | var x => rfl
  | neg p ih => rw [rename, truth, truth, ih]
  | binary op l r ihl ihr => rw [rename, truth, truth, ihl, ihr]

theorem mem_vars_rename_iff {y : Variable} :
    y ∈ (p.rename f).vars ↔ y ∈ p.vars.map f := by
  simp only [mem_vars_iff, occurrences_rename, List.mem_map]

theorem KeepsApart.nodup_map (h : p.KeepsApart f) : (p.vars.map f).Nodup :=
  List.pairwise_map.2 (p.nodup_vars.imp_of_mem fun hx hy hne heq => hne (h _ hx _ hy heq))

/-- The variables of the renamed formula are the new names, perhaps in another order. -/
theorem perm_vars_rename (h : p.KeepsApart f) : (p.rename f).vars.Perm (p.vars.map f) :=
  (List.perm_ext_iff_of_nodup (nodup_vars _) h.nodup_map).2 fun _ => mem_vars_rename_iff

/-- The variables stay in their places if their order is kept. -/
theorem vars_rename (h : p.KeepsOrder f) : (p.rename f).vars = p.vars.map f := by
  have hascending : (p.vars.map f).Pairwise (· < ·) :=
    List.pairwise_map.2 (p.pairwise_vars.imp_of_mem fun hx hy hlt => h _ hx _ hy hlt)
  refine List.Perm.eq_of_pairwise (fun x y _ _ hxy hyx => ?_) (pairwise_vars _) hascending
    (perm_vars_rename h.keepsApart)
  exact absurd hyx (Char.lt_asymm hxy)

/-- The nodes that are no variables stay in their places, whatever the renaming. -/
theorem filter_preorder_rename (f : Variable → Variable) (p : Formula) :
    (p.rename f).preorder.filter (fun q => !q.isVariable) =
      (p.preorder.filter fun q => !q.isVariable).map (rename f) := by
  have hkind : ((fun q : Formula => !q.isVariable) ∘ rename f) = fun q => !q.isVariable := by
    funext q
    rw [Function.comp_apply, isVariable_rename]
  rw [preorder_rename, List.filter_map, hkind]

theorem columns_rename (h : p.KeepsOrder f) :
    (p.rename f).columns = p.columns.map (rename f) := by
  rw [columns_eq, columns_eq, vars_rename h, filter_preorder_rename, List.map_append,
    List.map_reverse, List.map_map, List.map_map]
  rfl

theorem length_columns_rename (h : p.KeepsApart f) :
    (p.rename f).columns.length = p.columns.length := by
  rw [columns_eq, columns_eq, filter_preorder_rename]
  simp only [List.length_append, List.length_map, List.length_reverse,
    (perm_vars_rename h).length_eq]

/-! ## Truth values of the renamed formula -/

/-- Values can be given to the new names of variables that are kept apart. -/
theorem KeepsApart.exists_valuation (h : p.KeepsApart f) (v : Valuation) :
    ∃ w : Valuation, ∀ x ∈ p.vars, w (f x) = v x := by
  refine ⟨fun y => p.vars.any fun x => f x == y && v x, fun x hx => ?_⟩
  rw [Bool.eq_iff_iff, List.any_eq_true]
  constructor
  · rintro ⟨y, hy, hname⟩
    rw [Bool.and_eq_true, beq_iff_eq] at hname
    rw [h x hx y hy hname.1.symm]
    exact hname.2
  · intro hv
    exact ⟨x, hx, by rw [beq_self_eq_true, hv]; rfl⟩

theorem exists_truth_rename_iff (h : p.KeepsApart f) {b : Bool} :
    (∃ v : Valuation, (p.rename f).truth v = b) ↔ ∃ v : Valuation, p.truth v = b := by
  constructor
  · rintro ⟨v, hv⟩
    exact ⟨v ∘ f, (truth_rename f v p).symm.trans hv⟩
  · rintro ⟨v, rfl⟩
    obtain ⟨w, hw⟩ := h.exists_valuation v
    refine ⟨w, ?_⟩
    rw [truth_rename]
    exact truth_congr fun x hx => hw x (mem_vars_iff.2 hx)

end Propositional.Formula
