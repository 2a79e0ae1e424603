/-
**Where the loader writes.**

`main_confined`: whatever the flash holds, the engines compute and the UART delivers, the erase and
program commands of a run of `main` stay inside one slot; the other slot passed its check in this
run, APP is written only after its own check failed, and no byte outside the slot written changes.
-/

import K210Guard.Boot.MainSpec

namespace K210Guard

open NorFlash (Command replay)
open Slot

variable (engines : Engines) (stage : Stage) (world : World)

/-- The check of BAK in a run of `main`: its answer and the machine after it. -/
def bakChecked : Option Int × World :=
  world.run (flashImageCheck engines stage.flashBakAddr stage.boot stage.flashNextSize)

/-- The check of APP in a run of `main`, which comes after the check of BAK. -/
def appChecked : Option Int × World :=
  (bakChecked engines stage world).2.run
    (flashImageCheck engines stage.flashAppAddr stage.boot stage.flashNextSize)

variable {engines stage world}

/-- Both checks answer what the flash of the start says. -/
theorem checks_answer (whole : WholeImages engines stage world.chip.cells) :
    (bakChecked engines stage world).1 = some (checkResult engines.sha stage.flashNextSize
        world.chip.cells stage.flashBakAddr) ∧
      (appChecked engines stage world).1 = some (checkResult engines.sha stage.flashNextSize
        world.chip.cells stage.flashAppAddr) := by
  obtain ⟨first, bakRuns, bakLoaded⟩ := flashImageCheck_run engines stage.flashBakAddr stage.boot
    stage.flashNextSize world (whole _ (by simp [Stage.slots]))
  obtain ⟨second, appRuns, _⟩ := flashImageCheck_run engines stage.flashAppAddr stage.boot
    stage.flashNextSize first (by rw [bakLoaded.cells]; exact whole _ (by simp [Stage.slots]))
  rw [bakLoaded.cells] at appRuns
  refine ⟨?_, ?_⟩
  · rw [bakChecked, bakRuns]
  · rw [appChecked, bakChecked, bakRuns, appRuns]

/-- What a run of `main` from `world` to `after` may write: `commands` only, inside `target`, and
only when the checks of this run were for `source`. -/
structure Confined (engines : Engines) (stage : Stage) (world : World) (source target : Nat)
    (commands : List Command) (after : World) : Prop where
  sides : source = stage.flashAppAddr ∧ target = stage.flashBakAddr ∨
    source = stage.flashBakAddr ∧ target = stage.flashAppAddr
  log : after.chip.log = world.chip.log ++ commands
  within : ∀ command ∈ commands,
    command.Within chipGeometry target (target + stage.flashNextSize)
  appPassed : commands ≠ [] → source = stage.flashAppAddr →
    (appChecked engines stage world).1 = some 0
  bakPassed : commands ≠ [] → source = stage.flashBakAddr →
    (bakChecked engines stage world).1 = some 0
  appFailed : commands ≠ [] → target = stage.flashAppAddr →
    ∃ answer, (appChecked engines stage world).1 = some answer ∧ answer ≠ 0
  outside : ∀ x, x < target ∨ target + stage.flashNextSize ≤ x →
    after.chip.cells x = world.chip.cells x

/-- A run that writes nothing is confined. -/
theorem Confined.quiet {after : World} (cells : after.chip.cells = world.chip.cells)
    (log : after.chip.log = world.chip.log) :
    Confined engines stage world stage.flashAppAddr stage.flashBakAddr [] after where
  sides := Or.inl ⟨rfl, rfl⟩
  log := by rw [log, List.append_nil]
  within _ member := by cases member
  appPassed issued := absurd rfl issued
  bakPassed issued := absurd rfl issued
  appFailed issued := absurd rfl issued
  outside x _ := congrFun cells x

/-- **The restore's direction and confinement**, for every flash, engine and UART input. -/
theorem main_confined (engines : Engines) (stage : Stage) (world : World) :
    ∃ source target commands, Confined engines stage world source target commands
      (world.run (main engines stage)).2 := by
  by_cases whole : WholeImages engines stage world.chip.cells
  · cases decided : decision engines.sha stage world.chip.cells with
    | boot =>
        obtain ⟨after, runs, same⟩ := main_boots whole decided
        rw [runs]
        exact ⟨_, _, _, .quiet same.cells same.log⟩
    | fail =>
        obtain ⟨after, runs, same⟩ := main_fails whole decided
        rw [runs]
        exact ⟨_, _, _, .quiet same.cells same.log⟩
    | restore source target =>
        obtain ⟨count, commands, after, runs, restores, bound, _, cells, log, _⟩ :=
          main_restores whole decided
        obtain ⟨accepts, _, sides⟩ := decision_restore decided
        obtain ⟨bakAnswer, appAnswer⟩ := checks_answer whole
        have apart : stage.flashAppAddr ≠ stage.flashBakAddr := by cases stage <;> decide
        have within := restores.within (decision_place decided) accepts.fits bound
        rw [runs]
        refine ⟨source, target, commands, ?_⟩
        exact {
          sides := sides.imp id fun back => ⟨back.1, back.2.1⟩
          log := log
          within := within
          appPassed := fun _ app => by
            rw [appAnswer, checkResult_eq_zero.mpr (app ▸ accepts)]
          bakPassed := fun _ bak => by
            rw [bakAnswer, checkResult_eq_zero.mpr (bak ▸ accepts)]
          appFailed := fun _ app => by
            refine ⟨_, appAnswer, fun passed => ?_⟩
            rcases sides with ⟨_, bak⟩ | ⟨_, _, failed⟩
            · exact apart (app.symm.trans bak)
            · exact failed (checkResult_eq_zero.mp passed)
          outside := fun x far => by
            rw [cells, NorFlash.replay_outside within _ far] }
  · obtain ⟨after, runs, cells, log⟩ := main_stuck whole
    rw [runs]
    exact ⟨_, _, _, .quiet cells log⟩

end K210Guard
