import Mathlib.Data.List.Nodup
import Mathlib.Data.Prod.Basic
import Propositional.Proofs.Formula.Parts

/-!
# Places in a formula

A `Context` is a formula with a hole, and `Context.plug` puts a formula into the
hole. So a place at which `q` stands in `p` is a context that gives `p` when `q` is
put into it. `Formula.places` lists the places of a formula in pre-order: these are
all of them (`mem_places_iff`), each once (`nodup_places`), and what stands there are
the sub-formulas that the traversal visits (`map_snd_places`).
-/

namespace Propositional

/-- A formula with a hole in the place of one sub-formula. -/
inductive Context where
  /-- The hole and nothing around it. -/
  | hole
  | neg (operand : Context)
  | left (connective : Connective) (left : Context) (right : Formula)
  | right (connective : Connective) (left : Formula) (right : Context)

/-- The formula with `p` in the hole. -/
def Context.plug (p : Formula) : Context → Formula
  | hole => p
  | neg c => .neg (c.plug p)
  | left op c r => .binary op (c.plug p) r
  | right op l c => .binary op l (c.plug p)

namespace Formula

/-- The places of an operand, with `around` put around their contexts. -/
abbrev placesInside (around : Context → Context) (places : List (Context × Formula)) :
    List (Context × Formula) :=
  places.map (Prod.map around id)

/-- The places of a formula in pre-order, with what stands there. -/
def places : Formula → List (Context × Formula)
  | const b => [(.hole, const b)]
  | var x => [(.hole, var x)]
  | neg p => (.hole, neg p) :: placesInside .neg p.places
  | binary op l r =>
    (.hole, binary op l r) ::
      (placesInside (.left op · r) l.places ++ placesInside (.right op l) r.places)

theorem map_snd_placesInside (around : Context → Context) (places : List (Context × Formula)) :
    (placesInside around places).map Prod.snd = places.map Prod.snd := by
  rw [List.map_map]
  rfl

theorem mem_placesInside_iff {around : Context → Context} {places : List (Context × Formula)}
    {c : Context} {q : Formula} :
    (c, q) ∈ placesInside around places ↔ ∃ d, (d, q) ∈ places ∧ around d = c := by
  constructor
  · intro h
    obtain ⟨⟨d, q⟩, hd, heq⟩ := List.mem_map.1 h
    cases heq
    exact ⟨d, hd, rfl⟩
  · rintro ⟨d, hd, rfl⟩
    exact List.mem_map_of_mem hd

/-- What stands at the places are the sub-formulas. -/
theorem map_snd_places (p : Formula) : p.places.map Prod.snd = p.preorder := by
  induction p with
  | const b => rfl
  | var x => rfl
  | neg p ih => rw [places, preorder, List.map_cons, map_snd_placesInside, ih]
  | binary op l r ihl ihr =>
    rw [places, preorder, List.map_cons, List.map_append, map_snd_placesInside,
      map_snd_placesInside, ihl, ihr]

theorem plug_of_mem_places {p q : Formula} {c : Context} (h : (c, q) ∈ p.places) :
    c.plug q = p := by
  induction p generalizing c with
  | const b => cases List.mem_singleton.1 h; rfl
  | var x => cases List.mem_singleton.1 h; rfl
  | neg p ih =>
    rcases List.mem_cons.1 h with h | h
    · cases h
      rfl
    · obtain ⟨d, hd, rfl⟩ := mem_placesInside_iff.1 h
      rw [Context.plug, ih hd]
  | binary op l r ihl ihr =>
    rcases List.mem_cons.1 h with h | h
    · cases h
      rfl
    · rcases List.mem_append.1 h with h | h
      · obtain ⟨d, hd, rfl⟩ := mem_placesInside_iff.1 h
        rw [Context.plug, ihl hd]
      · obtain ⟨d, hd, rfl⟩ := mem_placesInside_iff.1 h
        rw [Context.plug, ihr hd]

theorem mem_places_plug (c : Context) (q : Formula) : (c, q) ∈ (c.plug q).places := by
  induction c with
  | hole => cases q <;> exact List.mem_cons_self
  | neg c ih => exact List.mem_cons_of_mem _ (mem_placesInside_iff.2 ⟨c, ih, rfl⟩)
  | left op c r ih =>
    refine List.mem_cons_of_mem _ (List.mem_append_left _ ?_)
    exact mem_placesInside_iff.2 ⟨c, ih, rfl⟩
  | right op l c ih =>
    refine List.mem_cons_of_mem _ (List.mem_append_right _ ?_)
    exact mem_placesInside_iff.2 ⟨c, ih, rfl⟩

/-- The places of a formula are the contexts that something makes into the formula. -/
theorem mem_places_iff {p q : Formula} {c : Context} : (c, q) ∈ p.places ↔ c.plug q = p :=
  ⟨plug_of_mem_places, fun h => h ▸ mem_places_plug c q⟩

/-- The sub-formulas are what stands at some place. -/
theorem mem_preorder_iff {p q : Formula} : q ∈ p.preorder ↔ ∃ c : Context, c.plug q = p := by
  rw [← map_snd_places, List.mem_map]
  constructor
  · rintro ⟨⟨c, q⟩, h, rfl⟩
    exact ⟨c, mem_places_iff.1 h⟩
  · rintro ⟨c, h⟩
    exact ⟨(c, q), mem_places_iff.2 h, rfl⟩

/-- Different places of an operand are different places of the formula. -/
theorem nodup_placesInside {around : Context → Context} (ha : ∀ c d, around c = around d → c = d)
    {places : List (Context × Formula)} (h : places.Nodup) : (placesInside around places).Nodup :=
  h.map (Function.Injective.prodMap ha Function.injective_id)

theorem nodup_places (p : Formula) : p.places.Nodup := by
  induction p with
  | const b => exact List.nodup_singleton _
  | var x => exact List.nodup_singleton _
  | neg p ih =>
    exact List.nodup_cons.2 ⟨by simp, nodup_placesInside (fun _ _ => Context.neg.inj) ih⟩
  | binary op l r ihl ihr =>
    refine List.nodup_cons.2 ⟨by simp, List.nodup_append'.2 ⟨?_, ?_, ?_⟩⟩
    · exact nodup_placesInside (fun _ _ h => (Context.left.inj h).2.1) ihl
    · exact nodup_placesInside (fun _ _ h => (Context.right.inj h).2.2) ihr
    · -- A hole in the left operand is no hole in the right one.
      rintro ⟨c, q⟩ hl hr
      obtain ⟨d, -, rfl⟩ := mem_placesInside_iff.1 hl
      obtain ⟨d', -, hd⟩ := mem_placesInside_iff.1 hr
      cases hd

end Formula

end Propositional
