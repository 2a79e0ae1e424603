/-
**What `main` does.**

`main` decides by the two checks and the comparison of the stored hashes: `decision` has the table.
`main_acts` says that `main` then acts on it, from a machine whose flash is as it was and whose RAM
has the BAK image and over it the APP image. `main_stuck` is the other case: an accepted encrypted
image of a ragged length, on which nothing is written.

The outcomes are `main_boots`, `main_fails` and `main_restores`.
-/

import K210Guard.Boot.RestoreSpec

namespace K210Guard

open NorFlash (Cells Command replay)
open Slot

/-! ### The decision -/

/-- What `main` does after the checks. -/
inductive Decision
  | boot
  | restore (source target : Nat)
  | fail
  deriving DecidableEq

/-- The two slots. -/
def Stage.slots (stage : Stage) : List Nat := [stage.flashAppAddr, stage.flashBakAddr]

/-- The table: the stored hashes, then the check of APP, then the check of BAK. -/
def decision (sha : ShaEngine) (stage : Stage) (cells : Cells) : Decision :=
  if storedHash cells stage.flashAppAddr = storedHash cells stage.flashBakAddr then
    if Accepts cells stage.flashAppAddr sha stage.flashNextSize then .boot else .fail
  else if Accepts cells stage.flashAppAddr sha stage.flashNextSize then
    .restore stage.flashAppAddr stage.flashBakAddr
  else if Accepts cells stage.flashBakAddr sha stage.flashNextSize then
    .restore stage.flashBakAddr stage.flashAppAddr
  else .fail

/-- A decision carried out. -/
def Decision.act (stage : Stage) : Decision → Firmware Exit
  | .boot => pure .goBoot
  | .restore source target => do
      flashImageBackup source target stage.boot
      pure .goBoot
  | .fail => pure (.sysExit exitReasonAbnormal)

/-- A decision to restore is made for the other slot of an accepted one. -/
theorem decision_restore {sha : ShaEngine} {stage : Stage} {cells : Cells} {source target : Nat}
    (decided : decision sha stage cells = .restore source target) :
    Accepts cells source sha stage.flashNextSize ∧
      storedHash cells stage.flashAppAddr ≠ storedHash cells stage.flashBakAddr ∧
      (source = stage.flashAppAddr ∧ target = stage.flashBakAddr ∨
        source = stage.flashBakAddr ∧ target = stage.flashAppAddr ∧
          ¬ Accepts cells stage.flashAppAddr sha stage.flashNextSize) := by
  unfold decision at decided
  split_ifs at decided with same app app' bak'
  · injection decided with left right
    subst left right
    exact ⟨app', same, Or.inl ⟨rfl, rfl⟩⟩
  · injection decided with left right
    subst left right
    exact ⟨bak', same, Or.inr ⟨rfl, rfl, app'⟩⟩

theorem decision_place {sha : ShaEngine} {stage : Stage} {cells : Cells} {source target : Nat}
    (decided : decision sha stage cells = .restore source target) :
    SlotPlace target stage.flashNextSize := by
  rcases (decision_restore decided).2.2 with ⟨_, rfl⟩ | ⟨_, rfl, _⟩
  · exact stage.bakPlace
  · exact stage.appPlace

/-- The source of a restore lies beside its target. -/
theorem decision_apart {sha : ShaEngine} {stage : Stage} {cells : Cells} {source target : Nat}
    (decided : decision sha stage cells = .restore source target) :
    SlotPlace source stage.flashNextSize ∧
      (source + stage.flashNextSize ≤ target ∨ target + stage.flashNextSize ≤ source) := by
  have apart := stage.apart
  rcases (decision_restore decided).2.2 with ⟨rfl, rfl⟩ | ⟨rfl, rfl, _⟩
  · exact ⟨stage.appPlace, Or.inl apart⟩
  · exact ⟨stage.bakPlace, Or.inr apart⟩

section Main

variable (engines : Engines) (stage : Stage) (world : World)

/-- The encrypted images that the check accepts have whole blocks. -/
def WholeImages (cells : Cells) : Prop :=
  ∀ slot ∈ stage.slots, Accepts cells slot engines.sha stage.flashNextSize →
    Encrypted cells slot → 16 ∣ codesLength cells slot

/-- The RAM after both checks. -/
def loadedRam : Nat → Byte :=
  writeRange
    (writeRange world.ram stage.boot
      (loadedImage engines stage.flashNextSize world.chip.cells stage.flashBakAddr))
    stage.boot (loadedImage engines stage.flashNextSize world.chip.cells stage.flashAppAddr)

/-- The machine after both checks. -/
structure Checked (checked : World) : Prop where
  cells : checked.chip.cells = world.chip.cells
  log : checked.chip.log = world.chip.log
  received : checked.uart.received = world.uart.received
  driver : checked.driver = quadDriver
  ram : checked.ram = loadedRam engines stage world

variable {engines stage world}

/-- **`main` checks both slots, then acts on the decision.** -/
theorem main_acts (whole : WholeImages engines stage world.chip.cells) :
    ∃ checked, Checked engines stage world checked ∧
      world.run (main engines stage) =
        checked.run ((decision engines.sha stage world.chip.cells).act stage) := by
  obtain ⟨first, bakRuns, bakLoaded⟩ := flashImageCheck_run engines stage.flashBakAddr stage.boot
    stage.flashNextSize world (whole _ (by simp [Stage.slots]))
  obtain ⟨second, appRuns, appLoaded⟩ := flashImageCheck_run engines stage.flashAppAddr stage.boot
    stage.flashNextSize first (by rw [bakLoaded.cells]; exact whole _ (by simp [Stage.slots]))
  obtain ⟨different, compareRuns, differs⟩ := flashImageCompare_run second appLoaded.driver
    stage.flashAppAddr stage.flashBakAddr
  rw [bakLoaded.cells] at appRuns appLoaded
  rw [appLoaded.cells, bakLoaded.cells] at differs
  refine ⟨second, ⟨appLoaded.cells.trans bakLoaded.cells, appLoaded.log.trans bakLoaded.log,
    appLoaded.received.trans bakLoaded.received, appLoaded.driver, ?_⟩, ?_⟩
  · rw [appLoaded.ram, bakLoaded.ram, loadedRam]
  · unfold main
    refine (World.run_bind_of_eq bakRuns).trans ?_
    refine (World.run_bind_of_eq appRuns).trans ?_
    refine (World.run_bind_of_eq compareRuns).trans (congrArg second.run ?_)
    simp only [ne_eq, differs, checkResult_eq_zero]
    unfold decision
    split_ifs <;> rfl

/-- **An accepted encrypted image of a ragged length** keeps `main` busy for ever, and it writes
nothing. -/
theorem main_stuck (ragged : ¬ WholeImages engines stage world.chip.cells) :
    ∃ after, world.run (main engines stage) = (none, after) ∧
      after.chip.cells = world.chip.cells ∧ after.chip.log = world.chip.log := by
  by_cases bak : Accepts world.chip.cells stage.flashBakAddr engines.sha stage.flashNextSize →
      Encrypted world.chip.cells stage.flashBakAddr →
        16 ∣ codesLength world.chip.cells stage.flashBakAddr
  · obtain ⟨first, bakRuns, bakLoaded⟩ := flashImageCheck_run engines stage.flashBakAddr stage.boot
      stage.flashNextSize world bak
    have app : ¬ (Accepts world.chip.cells stage.flashAppAddr engines.sha stage.flashNextSize →
        Encrypted world.chip.cells stage.flashAppAddr →
          16 ∣ codesLength world.chip.cells stage.flashAppAddr) := by
      intro app
      refine ragged fun slot member => ?_
      rcases List.mem_pair.mp member with rfl | rfl
      · exact app
      · exact bak
    push Not at app
    rw [← bakLoaded.cells] at app
    obtain ⟨after, runs, cells, log⟩ := flashImageCheck_stuck engines stage.flashAppAddr stage.boot
      stage.flashNextSize first app.1 app.2.1 app.2.2
    exact ⟨after, (World.run_bind_of_eq bakRuns).trans (World.run_bind_of_none runs),
      cells.trans bakLoaded.cells, log.trans bakLoaded.log⟩
  · push Not at bak
    obtain ⟨after, runs, cells, log⟩ := flashImageCheck_stuck engines stage.flashBakAddr stage.boot
      stage.flashNextSize world bak.1 bak.2.1 bak.2.2
    exact ⟨after, World.run_bind_of_none runs, cells, log⟩

/-! ### The outcomes -/

theorem main_boots (whole : WholeImages engines stage world.chip.cells)
    (decided : decision engines.sha stage world.chip.cells = .boot) :
    ∃ after, world.run (main engines stage) = (some .goBoot, after) ∧
      Checked engines stage world after := by
  obtain ⟨checked, same, runs⟩ := main_acts whole
  rw [decided] at runs
  exact ⟨checked, runs, same⟩

theorem main_fails (whole : WholeImages engines stage world.chip.cells)
    (decided : decision engines.sha stage world.chip.cells = .fail) :
    ∃ after, world.run (main engines stage) = (some (.sysExit exitReasonAbnormal), after) ∧
      Checked engines stage world after := by
  obtain ⟨checked, same, runs⟩ := main_acts whole
  rw [decided] at runs
  exact ⟨checked, runs, same⟩

theorem main_restores (whole : WholeImages engines stage world.chip.cells) {source target : Nat}
    (decided : decision engines.sha stage world.chip.cells = .restore source target) :
    ∃ count commands after, world.run (main engines stage) = (some .goBoot, after) ∧
      Restores world.chip.cells source target count commands ∧
      count ≤ sectorCount (imageLength world.chip.cells source) ∧
      (world.Silent → count = sectorCount (imageLength world.chip.cells source)) ∧
      after.chip.cells = replay chipGeometry commands world.chip.cells ∧
      after.chip.log = world.chip.log ++ commands ∧
      after.ram = writeRange (loadedRam engines stage world) stage.boot
        (flashBytes world.chip.cells (source + 5)
          (codesLength world.chip.cells source + flashSha256Len)) := by
  obtain ⟨checked, same, runs⟩ := main_acts whole
  obtain ⟨accepts, _, _⟩ := decision_restore decided
  obtain ⟨count, commands, after, backupRuns, restores, bound, silent, cells, log, ram⟩ :=
    flashImageBackup_run stage.boot checked same.driver (decision_place decided)
      (by rw [same.cells]; exact accepts.fits)
  rw [same.cells] at restores bound silent cells ram
  rw [same.log] at log
  rw [same.ram] at ram
  refine ⟨count, commands, after, ?_, restores, bound, fun quiet => ?_, cells, log, ram⟩
  · rw [runs, decided]
    exact World.run_bind_of_eq backupRuns
  · have quiet' : checked.Silent := fun poll => by
      rw [same.received]
      exact quiet poll
    exact silent (quiet'.undisturbed _)

/-- `main` boots unless it decides to fail. -/
theorem main_goBoot_iff (whole : WholeImages engines stage world.chip.cells) :
    (world.run (main engines stage)).1 = some .goBoot ↔
      decision engines.sha stage world.chip.cells ≠ .fail := by
  cases decided : decision engines.sha stage world.chip.cells with
  | boot =>
      obtain ⟨after, runs, _⟩ := main_boots whole decided
      rw [runs]
      simp
  | restore source target =>
      obtain ⟨_, _, after, runs, _⟩ := main_restores whole decided
      rw [runs]
      simp
  | fail =>
      obtain ⟨after, runs, _⟩ := main_fails whole decided
      rw [runs]
      simp

end Main

end K210Guard
