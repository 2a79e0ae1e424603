/-
**Copying a slot, and giving up** (`flash_image_backup` for any two slots).

* `flashImageBackup_copies`: when no Ctrl-C stops the erase, the target holds the source's image,
  the rest of the erased sectors is blank, and nothing else has changed.
* `eraseStops_iff`: after an erase that answers an error the copy should program nothing. The code
  does not look at the answer and always programs the flag byte next (`flashImageBackup_programs`),
  so this holds exactly when the erase answers 0.
-/

import K210Guard.Boot.RestoreSpec

namespace K210Guard

open NorFlash (Cells Command blank)
open Slot

/-! ### The copy -/

/-- No byte of one slot is a byte of the other. The target lies on the chip; the source may lie
anywhere, a read takes its address modulo the chip's size. -/
def SlotsApart (fromAddr toAddr size : Nat) : Prop :=
  ∀ index < size, ∀ other < size, (fromAddr + index) % chipSize ≠ toAddr + other

/-- On the chip this is the usual order of two ranges. -/
theorem slotsApart_of_le {fromAddr toAddr size : Nat} (onChip : fromAddr + size ≤ chipSize)
    (apart : fromAddr + size ≤ toAddr ∨ toAddr + size ≤ fromAddr) :
    SlotsApart fromAddr toAddr size := by
  intro index inside other inside'
  rw [Nat.mod_eq_of_lt (by omega)]
  omega

/-- **A copy whose erase completes is faithful**: the target holds the image of the source, which
keeps it; behind the image the erased sectors are blank, and no other cell has changed. -/
theorem flashImageBackup_copies (stage : Stage) (world : World)
    (spi3 : world.driver = quadDriver) (fromAddr toAddr ramptr : Nat)
    (header : Fits world.chip.cells fromAddr stage.flashNextSize) (aligned : 4096 ∣ toAddr)
    (onChip : toAddr + stage.flashNextSize ≤ chipSize)
    (apart : SlotsApart fromAddr toAddr stage.flashNextSize)
    (undisturbed : world.Undisturbed (sectorCount (imageLength world.chip.cells fromAddr))) :
    ∃ after, world.run (flashImageBackup fromAddr toAddr ramptr) = (some (), after) ∧
      Identical after.chip.cells toAddr world.chip.cells fromAddr ∧
      Identical after.chip.cells fromAddr world.chip.cells fromAddr ∧
      (∀ x, toAddr + imageLength world.chip.cells fromAddr ≤ x →
        x < toAddr + 4096 * sectorCount (imageLength world.chip.cells fromAddr) →
        after.chip.cells x = blank) ∧
      ∀ x, x < toAddr ∨
          toAddr + 4096 * sectorCount (imageLength world.chip.cells fromAddr) ≤ x →
        after.chip.cells x = world.chip.cells x := by
  have place : SlotPlace toAddr stage.flashNextSize :=
    ⟨aligned, stage.appPlace.whole, stage.appPlace.room, onChip⟩
  obtain ⟨count, commands, after, runs, restores, _, complete, cells, _, _⟩ :=
    flashImageBackup_run ramptr world spi3 place header
  rw [complete undisturbed] at restores
  have image := place.image_le header
  have sectors := place.sectors_le image
  have outside : ∀ x, x < toAddr ∨
      toAddr + 4096 * sectorCount (imageLength world.chip.cells fromAddr) ≤ x →
      after.chip.cells x = world.chip.cells x := by
    intro x apart
    have covered : imageLength world.chip.cells fromAddr ≤
        4096 * sectorCount (imageLength world.chip.cells fromAddr) := by
      unfold sectorCount
      omega
    rw [cells, restores.written aligned, writeRange_outside _ (by rw [flashBytes_length]; omega),
      NorFlash.blanked_outside _ apart]
  refine ⟨after, runs, ?_, ?_, fun x behind inside => ?_, outside⟩
  · rw [cells]
    exact restores.identical place header _
  · refine readRange_eq_iff.mpr fun index bound => outside _ ?_
    by_contra inside
    exact apart index (by omega) ((fromAddr + index) % chipSize - toAddr) (by omega) (by omega)
  · rw [cells, restores.written aligned,
      writeRange_outside _ (Or.inr (by rw [flashBytes_length]; exact behind)),
      NorFlash.blanked_inside _ (by omega) inside]

/-! ### An image of two sectors -/

/-- APP holds an image of a payload of one sector, so the image takes two; BAK is erased. -/
def twoSectors : World :=
  { World.powerOn (writeRange (fun _ => blank) Stage.stage1.flashAppAddr
      (imageOf sha256 0 (List.replicate 4096 0x55#8))) with driver := quadDriver }

theorem twoSectors_length :
    codesLength twoSectors.chip.cells Stage.stage1.flashAppAddr = 4096 := by
  have holds : Holds twoSectors.chip.cells Stage.stage1.flashAppAddr sha256 0
      (List.replicate 4096 0x55#8) := Holds.stored (by rw [List.length_replicate]; decide)
  rw [(holds.parts (by rw [List.length_replicate]; decide)).2.2.1, List.length_replicate]

/-- The assumptions of `flashImageBackup_copies` are met there. -/
theorem flashImageBackup_copies_twoSectors :
    ∃ after, twoSectors.run (flashImageBackup Stage.stage1.flashAppAddr Stage.stage1.flashBakAddr
        Stage.stage1.boot) = (some (), after) ∧
      Identical after.chip.cells Stage.stage1.flashBakAddr twoSectors.chip.cells
        Stage.stage1.flashAppAddr ∧
      Identical after.chip.cells Stage.stage1.flashAppAddr twoSectors.chip.cells
        Stage.stage1.flashAppAddr ∧
      (∀ x, Stage.stage1.flashBakAddr +
          imageLength twoSectors.chip.cells Stage.stage1.flashAppAddr ≤ x →
        x < Stage.stage1.flashBakAddr +
          4096 * sectorCount (imageLength twoSectors.chip.cells Stage.stage1.flashAppAddr) →
        after.chip.cells x = blank) ∧
      ∀ x, x < Stage.stage1.flashBakAddr ∨ Stage.stage1.flashBakAddr +
          4096 * sectorCount (imageLength twoSectors.chip.cells Stage.stage1.flashAppAddr) ≤ x →
        after.chip.cells x = twoSectors.chip.cells x :=
  flashImageBackup_copies .stage1 twoSectors rfl _ _ _
    (by rw [Fits, twoSectors_length]; decide) (by decide) (by decide)
    (slotsApart_of_le (by decide) (Or.inl (by decide)))
    (World.Silent.undisturbed (fun _ received => by cases received) _)

/-! ### After an erase that failed -/

/-- `flash_image_backup` up to the erase: the header it has read and the answer of the erase. -/
def backupErase (fromAddr toAddr ramptr : Nat) : Firmware (List Byte × List Byte × Int) := do
  let firmwareAesEnabled ← flashReadData fromAddr 1 .quadSingle
  let lengthBytes ← flashReadData (u32 (fromAddr + 1)) 4 .quadSingle
  let codesLength := leNat lengthBytes
  let codes ← flashReadData (u32 (fromAddr + 1 + 4)) (u32 (codesLength + flashSha256Len))
    .quadSingle
  Bus.issue (.store ramptr codes)
  let result ← doFlashErase toAddr (u32 (1 + 4 + codesLength + flashSha256Len))
  pure (firmwareAesEnabled, lengthBytes, result)

/-- `flash_image_backup` after the erase. -/
def backupWrites (toAddr ramptr : Nat) (firmwareAesEnabled lengthBytes : List Byte) :
    Firmware Unit := do
  let _ ← flashWriteData toAddr firmwareAesEnabled
  let _ ← flashWriteData (u32 (toAddr + 1)) lengthBytes
  let _ ← doFlashWrite (u32 (toAddr + 1 + 4)) (u32 (leNat lengthBytes + flashSha256Len)) ramptr

/-- The two parts are the whole; the answer of the erase goes nowhere. -/
theorem flashImageBackup_eq (fromAddr toAddr ramptr : Nat) :
    flashImageBackup fromAddr toAddr ramptr =
      backupErase fromAddr toAddr ramptr >>= fun erased =>
        backupWrites toAddr ramptr erased.1 erased.2.1 := by
  unfold flashImageBackup backupErase
  simp only [Prog.bind_assoc]
  rfl

/-- After an erase that answered an error, no page program is carried out. -/
def EraseStops (world : World) (fromAddr toAddr ramptr : Nat) : Prop :=
  ∀ flag length result erased,
    world.run (backupErase fromAddr toAddr ramptr) = (some (flag, length, result), erased) →
    result ≠ 0 → ∀ addr data, Command.program addr data ∉
      (world.run (flashImageBackup fromAddr toAddr ramptr)).2.chip.log.drop
        erased.chip.log.length

section Erase

variable (world : World) (fromAddr toAddr ramptr : Nat)

/-- **What the first part does**: it reads the header, and the erase answers 0 when it could erase
every sector. -/
theorem backupErase_run (spi3 : world.driver = quadDriver) :
    ∃ result erased, world.run (backupErase fromAddr toAddr ramptr) =
        (some (flagByte world.chip.cells fromAddr, lengthBytes world.chip.cells fromAddr, result),
          erased) ∧
      erased.driver = quadDriver ∧
      (result = 0 ↔ toAddr % 4096 = 0 ∧ u32 (imageLength world.chip.cells fromAddr) ≠ 0 ∧
        world.Undisturbed (sectorCount (u32 (imageLength world.chip.cells fromAddr)))) := by
  have whole : 1 + 4 + codesLength world.chip.cells fromAddr + flashSha256Len =
      imageLength world.chip.cells fromAddr := by
    rw [imageLength_eq, Nat.add_assoc]
  obtain ⟨result, erased, runs, driver, answer⟩ := doFlashErase_result toAddr
    (u32 (imageLength world.chip.cells fromAddr))
    (world.stored ramptr (flashBytes world.chip.cells (fromAddr + 5)
      (u32 (codesLength world.chip.cells fromAddr + flashSha256Len))))
  refine ⟨result, erased, ?_, ?_, answer⟩
  · refine (imageReads_run world spi3 fromAddr ramptr _).trans ?_
    rw [← codesLength, whole]
    exact World.run_bind_of_eq runs
  · rcases driver with quad | same
    · exact quad
    · rw [same]
      exact spi3

/-- **Whatever the erase answers, the flag byte is programmed next.** -/
theorem flashImageBackup_programs {flag length : List Byte} {result : Int} {erased : World}
    (ready : erased.driver = quadDriver) (one : flag.length = 1)
    (runs : world.run (backupErase fromAddr toAddr ramptr) =
      (some (flag, length, result), erased)) :
    Command.program (toAddr % chipSize) flag ∈
      (world.run (flashImageBackup fromAddr toAddr ramptr)).2.chip.log.drop
        erased.chip.log.length := by
  have written := flashWriteData_single erased ready toAddr flag
    (List.ne_nil_of_length_eq_add_one one) (by omega) (by omega)
  have whole : world.run (flashImageBackup fromAddr toAddr ramptr) =
      (erased.carryOut (.program (toAddr % chipSize) flag)).run (do
        let _ ← flashWriteData (u32 (toAddr + 1)) length
        let _ ← doFlashWrite (u32 (toAddr + 1 + 4)) (u32 (leNat length + flashSha256Len))
          ramptr) := by
    rw [flashImageBackup_eq]
    exact (World.run_bind_of_eq runs).trans (World.run_bind_of_eq written)
  rw [whole]
  obtain ⟨more, later⟩ := World.run_log (erased.carryOut (.program (toAddr % chipSize) flag)) (do
    let _ ← flashWriteData (u32 (toAddr + 1)) length
    let _ ← doFlashWrite (u32 (toAddr + 1 + 4)) (u32 (leNat length + flashSha256Len)) ramptr)
  rw [← later]
  show _ ∈ ((erased.chip.log ++ [Command.program (toAddr % chipSize) flag]) ++ more).drop _
  rw [List.append_assoc, List.drop_left]
  exact List.mem_cons_self

/-- **When a failed erase stops the copy**: only when the erase does not fail, which is when the
target is aligned, the length is not 0 and no Ctrl-C arrives after one of its sectors. -/
theorem eraseStops_iff (spi3 : world.driver = quadDriver) :
    EraseStops world fromAddr toAddr ramptr ↔
      toAddr % 4096 = 0 ∧ u32 (imageLength world.chip.cells fromAddr) ≠ 0 ∧
        world.Undisturbed (sectorCount (u32 (imageLength world.chip.cells fromAddr))) := by
  obtain ⟨result, erased, runs, driver, answer⟩ :=
    backupErase_run world fromAddr toAddr ramptr spi3
  rw [← answer]
  constructor
  · intro stops
    by_contra failed
    exact stops _ _ _ _ runs failed _ _ (flashImageBackup_programs world fromAddr toAddr ramptr
      driver (flashBytes_length _ _ 1) runs)
  · intro done flag length result' erased' runs' failed
    rw [runs] at runs'
    cases runs'
    exact absurd done failed

end Erase

/-- The assumption of `eraseStops_iff` is met there. -/
theorem eraseStops_iff_twoSectors :
    EraseStops twoSectors Stage.stage1.flashAppAddr Stage.stage1.flashBakAddr Stage.stage1.boot ↔
      Stage.stage1.flashBakAddr % 4096 = 0 ∧
        u32 (imageLength twoSectors.chip.cells Stage.stage1.flashAppAddr) ≠ 0 ∧
        twoSectors.Undisturbed
          (sectorCount (u32 (imageLength twoSectors.chip.cells Stage.stage1.flashAppAddr))) :=
  eraseStops_iff twoSectors _ _ _ rfl

/-- The same flash with Ctrl-C held down. -/
def interrupted : World := { twoSectors with uart := ⟨fun _ => some 0x03#8, 0⟩ }

/-- **Ctrl-C after the first sector does not stop the copy.** -/
theorem interrupted_programs : ¬ EraseStops interrupted Stage.stage1.flashAppAddr
    Stage.stage1.flashBakAddr Stage.stage1.boot := by
  obtain ⟨result, erased, runs, driver, answer⟩ := backupErase_run interrupted
    Stage.stage1.flashAppAddr Stage.stage1.flashBakAddr Stage.stage1.boot rfl
  have failed : result ≠ 0 := by
    intro done
    obtain ⟨_, _, undisturbed⟩ := answer.mp done
    have length : imageLength interrupted.chip.cells Stage.stage1.flashAppAddr = 37 + 4096 :=
      congrArg (37 + ·) twoSectors_length
    rw [length] at undisturbed
    exact undisturbed 0 (by decide) rfl
  intro stops
  exact stops _ _ _ _ runs failed _ _ (flashImageBackup_programs interrupted _ _ _ driver
    (flashBytes_length _ _ 1) runs)

end K210Guard
