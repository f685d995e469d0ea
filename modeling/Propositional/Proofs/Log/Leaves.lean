import Propositional.Proofs.Log.Yields

/-!
# What a logged computation leaves

`Leaves m records` says that the computation `m` leaves those of `records` that
are kept, in order, behind whatever records there were before. A computation
made of several leaves what they leave one after another, up to the first that
fails (`Leaves.bind`, `Leaves.bind_error`, `leaves_mapM`). A filter is quiet
about records if it keeps none of them (`Filter.select_eq_empty`).
-/

namespace Propositional.Log

variable {ε ε' α β : Type}

/-- The records that are kept. -/
def Filter.select (keep : Filter) (records : List Record) : Array Record :=
  (records.filter fun r => keep r.level r.target).toArray

theorem Filter.select_append (keep : Filter) (records more : List Record) :
    keep.select (records ++ more) = keep.select records ++ keep.select more := by
  rw [select, List.filter_append, ← List.append_toArray]
  rfl

theorem Filter.select_cons (keep : Filter) (r : Record) (records : List Record) :
    keep.select (r :: records) = keep.select [r] ++ keep.select records :=
  keep.select_append [r] records

/-- The filter keeps nothing that is for debugging or tracing. -/
def Filter.Quiet (keep : Filter) : Prop :=
  ∀ target, keep .debug target = false ∧ keep .trace target = false

/-- The record is for debugging or tracing. -/
def Record.IsDetail (r : Record) : Prop :=
  r.level = .debug ∨ r.level = .trace

theorem Filter.Quiet.select_eq_empty {keep : Filter} (h : keep.Quiet) {records : List Record}
    (hdetail : ∀ r ∈ records, r.IsDetail) : keep.select records = #[] := by
  have hnone : ∀ r ∈ records, keep r.level r.target = false := by
    intro r hr
    obtain hlevel | hlevel := hdetail r hr <;> rw [hlevel]
    · exact (h r.target).1
    · exact (h r.target).2
  rw [select, List.filter_eq_nil_iff.2 fun r hr => by simp [hnone r hr]]

/-- The computation leaves the records, so far as they are kept. -/
def Leaves (m : ExceptT ε Logged α) (records : List Record) : Prop :=
  ∀ (keep : Filter) (kept : Array Record),
    ((m.run keep).run kept).2 = kept ++ keep.select records

theorem leaves_pure (a : α) : Leaves (pure a : ExceptT ε Logged α) [] :=
  fun _ _ => (Array.append_empty).symm

theorem leaves_ofExcept (result : Except ε α) : Leaves (Logged.ofExcept result) [] :=
  fun _ _ => (Array.append_empty).symm

theorem run_record (level : Level) (target : String) (message : Unit → String) (keep : Filter)
    (kept : Array Record) :
    ((record level target message).run keep).run kept =
      ((), kept ++ keep.select [⟨level, target, message ()⟩]) := by
  show ((if keep level target then
      (modify fun records => records.push ⟨level, target, message ()⟩ : Logged Unit)
    else pure ()) keep).run kept = _
  cases h : keep level target with
  | false =>
    have hnone : keep.select [⟨level, target, message ()⟩] = #[] := by simp [Filter.select, h]
    rw [hnone, Array.append_empty]
    rfl
  | true =>
    have hone : keep.select [⟨level, target, message ()⟩] = #[⟨level, target, message ()⟩] := by
      simp [Filter.select, h]
    rw [hone, ← Array.push_eq_append]
    rfl

variable {m : ExceptT ε Logged α} {f : α → ExceptT ε Logged β} {records more : List Record}

theorem Leaves.after_record {level : Level} {target : String} {message : Unit → String}
    (h : Leaves m records) :
    Leaves (do record level target message; m) (⟨level, target, message ()⟩ :: records) := by
  intro keep kept
  show ((m.run keep).run (((record level target message).run keep).run kept).2).2 = _
  rw [run_record, Filter.select_cons keep _ records, ← Array.append_assoc]
  exact h keep _

/-- What comes of a computation that is run under a filter. -/
theorem Leaves.collect_eq {result : Except ε α} (hl : Leaves m records) (hm : Yields m result)
    (keep : Filter) :
    m.run.collect keep = (result, records.filter fun r => keep r.level r.target) := by
  refine Prod.ext (hm keep #[]) ?_
  show ((m.run keep).run #[]).2.toList = _
  rw [hl keep #[], Array.empty_append, Filter.select]

theorem Leaves.bind {a : α} (hl : Leaves m records) (hm : Yields m (.ok a))
    (hf : Leaves (f a) more) : Leaves (m >>= f) (records ++ more) := by
  intro keep kept
  show ((ExceptT.bindCont f ((m.run keep).run kept).1 keep).run ((m.run keep).run kept).2).2 = _
  rw [hm keep kept, hl keep kept, Filter.select_append, ← Array.append_assoc]
  exact hf keep _

theorem Yields.bind_error {e : ε} (hm : Yields m (.error e)) : Yields (m >>= f) (.error e) := by
  intro keep kept
  show ((ExceptT.bindCont f ((m.run keep).run kept).1 keep).run ((m.run keep).run kept).2).1 = _
  rw [hm keep kept]
  rfl

theorem Leaves.bind_error {e : ε} (hl : Leaves m records) (hm : Yields m (.error e)) :
    Leaves (m >>= f) records := by
  intro keep kept
  show ((ExceptT.bindCont f ((m.run keep).run kept).1 keep).run ((m.run keep).run kept).2).2 = _
  rw [hm keep kept, hl keep kept]
  rfl

theorem Yields.adapt {result : Except ε α} (hm : Yields m result) (g : ε → ε') :
    Yields (m.adapt g) (result.mapError g) := by
  intro keep kept
  show Except.mapError g ((m.run keep).run kept).1 = _
  rw [hm keep kept]

theorem Leaves.adapt (hl : Leaves m records) (g : ε → ε') : Leaves (m.adapt g) records :=
  fun keep kept => hl keep kept

theorem leaves_mapM {g : α → β} {written : α → List Record} {as : List α}
    (h : ∀ a ∈ as, Yields (f a) (.ok (g a)) ∧ Leaves (f a) (written a)) :
    Leaves (as.mapM f) (as.flatMap written) := by
  induction as with
  | nil => exact leaves_pure []
  | cons a as ih =>
    obtain ⟨⟨hyields, hleaves⟩, has⟩ := List.forall_mem_cons.1 h
    rw [List.mapM_cons, List.flatMap_cons]
    have htail : Yields (as.mapM f) (.ok (as.map g)) := yields_mapM fun a ha => (has a ha).1
    rw [← List.append_nil (as.flatMap written)]
    exact hleaves.bind hyields ((ih has).bind htail (leaves_pure _))

end Propositional.Log
