/-
  Programs in a world.

  * `World.run_bind_eq_ok`: if a sequence succeeds, so do its parts, one after the other.
  * `World.run_bind_of_ok`, `World.run_bind_of_error`, `World.run_lift_bind`: what a sequence comes to
    when its first part succeeds, when that fails, and when it cannot fail.
  * `World.run_attempt`: an operation whose fault makes the program fail. For the file operations the
    volume says what it comes to (`World.run_readText`, `World.run_createDirs`,
    `World.run_writeText`, `World.run_stage`).
  * `World.FailsWith`: a program all of whose failures are of some form. A sequence is one if its parts
    are.
-/
import SelectorRename.Command.Failure

namespace SelectorRename.World

variable {α β : Type} {w w' : World}

/-- In a sequence that succeeds both parts do, the second one in the world that the first one
    leaves. -/
theorem run_bind_eq_ok {x : ExceptT Failure (StateM World) α}
    {f : α → ExceptT Failure (StateM World) β} {b : β}
    (h : (x >>= f).run.run w = (.ok b, w')) :
    ∃ a w₁, x.run.run w = (.ok a, w₁) ∧ (f a).run.run w₁ = (.ok b, w') := by
  rw [ExceptT.run_bind, StateT.run_bind] at h
  rcases hx : x.run.run w with ⟨_ | a, w₁⟩
  · rw [hx] at h
    cases h
  · rw [hx] at h
    exact ⟨a, w₁, rfl, h⟩

theorem run_bind_of_ok {x : ExceptT Failure (StateM World) α} {a : α}
    (f : α → ExceptT Failure (StateM World) β) (h : x.run.run w = (.ok a, w')) :
    (x >>= f).run.run w = (f a).run.run w' := by
  rw [ExceptT.run_bind, StateT.run_bind, h]
  rfl

theorem run_bind_of_error {x : ExceptT Failure (StateM World) α} {e : Failure}
    (f : α → ExceptT Failure (StateM World) β) (h : x.run.run w = (.error e, w')) :
    (x >>= f).run.run w = (.error e, w') := by
  rw [ExceptT.run_bind, StateT.run_bind, h]
  rfl

theorem run_lift_bind (x : StateM World α) (f : α → ExceptT Failure (StateM World) β) (w : World) :
    ((ExceptT.lift x : ExceptT Failure (StateM World) α) >>= f).run.run w =
      (f (x.run w).1).run.run (x.run w).2 := rfl

/-- Telling something changes the log alone. -/
theorem run_tell_bind (ms : List Message) (f : Unit → ExceptT Failure (StateM World) β) (w : World) :
    ((ExceptT.lift (Host.tell ms) : ExceptT Failure (StateM World) Unit) >>= f).run.run w =
      (f ()).run.run ⟨w.volume, w.log ++ ms⟩ := rfl

theorem run_attempt (operation : StateM World (Except OsError α)) (failure : OsError → Failure)
    (w : World) :
    (attempt operation failure).run.run w =
      ((operation.run w).1.mapError failure, (operation.run w).2) := by
  rw [attempt, ExceptT.run_mk, StateT.run_bind]
  rcases operation.run w with ⟨_ | b, w₁⟩ <;> rfl

/-! ## Forms of failures -/

/-- Whatever the program fails with is of some form. -/
def FailsWith (P : Failure → Prop) (x : ExceptT Failure (StateM World) α) : Prop :=
  ∀ w f w', x.run.run w = (.error f, w') → P f

namespace FailsWith

variable {P : Failure → Prop}

theorem pure (a : α) : FailsWith P (Pure.pure a : ExceptT Failure (StateM World) α) := nofun

theorem lift (x : StateM World α) : FailsWith P (ExceptT.lift x : ExceptT Failure (StateM World) α) :=
  nofun

theorem bind {x : ExceptT Failure (StateM World) α} {f : α → ExceptT Failure (StateM World) β}
    (hx : FailsWith P x) (hf : ∀ a, FailsWith P (f a)) : FailsWith P (x >>= f) := by
  intro w failure w' h
  rcases hrun : x.run.run w with ⟨cause | a, w₁⟩
  · rw [run_bind_of_error f hrun] at h
    cases h
    exact hx _ _ _ hrun
  · rw [run_bind_of_ok f hrun] at h
    exact hf a _ _ _ h

theorem attempt {operation : StateM World (Except OsError α)} {failure : OsError → Failure}
    (h : ∀ cause, P (failure cause)) : FailsWith P (attempt operation failure) := by
  intro w f w' hrun
  rw [run_attempt] at hrun
  cases hresult : (operation.run w).1 with
  | ok a =>
    rw [hresult] at hrun
    cases hrun
  | error cause =>
    rw [hresult] at hrun
    cases hrun
    exact h cause

end FailsWith

/-! ## File operations -/

theorem run_readText (path : String) (failure : OsError → Failure) (w : World) :
    (attempt (Host.readText path) failure : ExceptT Failure (StateM World) String).run.run w =
      ((w.volume.readText path).mapError failure, w) :=
  run_attempt ..

theorem run_createDirs (path : String) (failure : OsError → Failure) (w : World) :
    (attempt (Host.createDirs path) failure : ExceptT Failure (StateM World) Unit).run.run w =
      ((w.volume.createDirs path).1.mapError failure,
        { w with volume := (w.volume.createDirs path).2 }) :=
  run_attempt ..

theorem run_writeText (path text : String) (failure : OsError → Failure) (w : World) :
    (attempt (Host.writeText path text) failure : ExceptT Failure (StateM World) Unit).run.run w =
      match w.volume.writeText path text with
      | .ok v => (.ok (), { w with volume := v })
      | .error cause => (.error (failure cause), w) := by
  rw [run_attempt]
  show ((change (·.writeText path text) w).1.mapError _, (change (·.writeText path text) w).2) = _
  rw [change]
  cases w.volume.writeText path text <;> rfl

theorem run_stage (dir text target : String) (failure : OsError → Failure) (w : World) :
    (attempt (Host.stage dir text target) failure :
        ExceptT Failure (StateM World) (Host.Staged (StateM World))).run.run w =
      match w.volume.stage dir text target with
      | .ok (staged, v) => (.ok staged, { w with volume := v })
      | .error cause => (.error (failure cause), w) := by
  rw [run_attempt]
  show ((stage dir text target w).1.mapError _, (stage dir text target w).2) = _
  rw [stage]
  cases w.volume.stage dir text target <;> rfl

end SelectorRename.World
