import Propositional.Log.Basic

/-!
# What a logged computation comes to

`Yields m result` says that the computation `m` comes to `result` whatever is
kept of its records and whatever records there were before. To leave a record
changes nothing (`Yields.after_record`), and a computation made of several comes
to what they come to one after another (`Yields.bind`, `yields_mapM`).
-/

namespace Propositional.Log

variable {ε α β : Type}

/-- The computation comes to the result, and the log has no part in it. -/
def Yields (m : ExceptT ε Logged α) (result : Except ε α) : Prop :=
  ∀ (keep : Filter) (records : Array Record), ((m.run keep).run records).1 = result

theorem yields_pure (a : α) : Yields (pure a : ExceptT ε Logged α) (.ok a) :=
  fun _ _ => rfl

theorem yields_ofExcept (result : Except ε α) : Yields (Logged.ofExcept result) result :=
  fun _ _ => rfl

variable {m : ExceptT ε Logged α} {f : α → ExceptT ε Logged β}

theorem Yields.value_eq {result : Except ε α} (h : Yields m result) : m.run.value = result :=
  h Filter.none #[]

theorem Yields.bind {a : α} {result : Except ε β} (hm : Yields m (.ok a))
    (hf : Yields (f a) result) : Yields (m >>= f) result := by
  intro keep records
  show ((ExceptT.bindCont f ((m.run keep).run records).1 keep).run _).1 = result
  rw [hm keep records]
  exact hf keep _

/-- A record left before a computation makes no difference to it. -/
theorem Yields.after_record {level : Level} {target : String} {message : Unit → String}
    {result : Except ε α} (h : Yields m result) :
    Yields (do record level target message; m) result :=
  fun keep _ => h keep _

theorem yields_mapM {g : α → β} {as : List α} (h : ∀ a ∈ as, Yields (f a) (.ok (g a))) :
    Yields (as.mapM f) (.ok (as.map g)) := by
  induction as with
  | nil => exact yields_pure []
  | cons a as ih =>
    obtain ⟨ha, has⟩ := List.forall_mem_cons.1 h
    rw [List.mapM_cons, List.map_cons]
    exact ha.bind ((ih has).bind (yields_pure _))

end Propositional.Log
