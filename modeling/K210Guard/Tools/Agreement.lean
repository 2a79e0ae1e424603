/-
**The image tools and the loader agree.**

A flash that starts with the file of `genimg.py` boots stage 1 into the stage-2 binary, one that
starts with the file of `genimg_whole.py` boots stage 2 into the application; both slots are valid
and pass their check, and nothing is written. The padding rule of the tools makes the hashed length
32 modulo 64, which is among the lengths for which the SHA driver is right (`shaDriver_digest`).
-/

import K210Guard.Boot.Confinement
import K210Guard.Sha.DriverSpec
import K210Guard.Tools.Layout

namespace K210Guard

open NorFlash (Cells)
open Slot

/-- The engines of the board: the SHA driver, and any AES engine. -/
def board (aes : AesEngine) : Engines := ⟨shaDriver, aes⟩

/-- A run of `main` finds both slots valid: their checks answer 0. It writes nothing and boots with
`codes` in RAM. -/
structure BootsUntouched (engines : Engines) (stage : Stage) (world : World) (codes : List Byte) :
    Prop where
  app : Valid world.chip.cells stage.flashAppAddr sha256 stage.flashNextSize
  bak : Valid world.chip.cells stage.flashBakAddr sha256 stage.flashNextSize
  appPassed : (appChecked engines stage world).1 = some 0
  bakPassed : (bakChecked engines stage world).1 = some 0
  boots : (world.run (main engines stage)).1 = some .goBoot
  cells : (world.run (main engines stage)).2.chip.cells = world.chip.cells
  log : (world.run (main engines stage)).2.chip.log = world.chip.log
  loaded : readRange (world.run (main engines stage)).2.ram stage.boot codes.length = codes

section Slots

variable {cells : Cells} {slot size : Nat} {codes : List Byte} {aes : AesEngine}

/-- **The driver accepts an image** whose padding follows the rule of the tools. -/
theorem accepts_of_holds (holds : Holds cells slot sha256 0 codes)
    (padded : (codes.length + 37) % 64 = 0) (fits : 37 + codes.length ≤ size)
    (small : size ≤ chipSize) : Accepts cells slot (board aes).sha size := by
  have chip : chipSize + 64 < 2 ^ 32 := by decide
  obtain ⟨flag, lengthField, length, loaded, stored⟩ := holds.parts (by omega)
  have pieces : [flagByte cells slot, lengthBytes cells slot, payload cells slot].flatten =
      signedOf 0 codes := by
    rw [flag, lengthField, loaded]
    simp [signedOf]
  have total : [flagByte cells slot, lengthBytes cells slot, payload cells slot].flatten.length =
      codes.length + 5 := by
    rw [pieces, signedOf]
    simp
    omega
  refine ⟨?_, ?_⟩
  · rw [Fits, length]
    omega
  · have digest := shaDriver_digest
      [flagByte cells slot, lengthBytes cells slot, payload cells slot]
      (by rw [total]; omega) (by rw [total]; omega)
    rw [total, pieces] at digest
    rw [stored, length, u32_of_onChip (by omega)]
    exact congrArg Digest.bytes digest.symm

/-- **Two slots with the same image of the tools** boot it untouched. -/
theorem twins_boot {stage : Stage} {world : World}
    (app : Holds world.chip.cells stage.flashAppAddr sha256 0 codes)
    (bak : Holds world.chip.cells stage.flashBakAddr sha256 0 codes)
    (padded : (codes.length + 37) % 64 = 0) (fits : 37 + codes.length ≤ stage.flashNextSize) :
    BootsUntouched (board aes) stage world codes := by
  have small := stage.appPlace.small
  have short : codes.length < 2 ^ 32 := by
    have chip : chipSize < 2 ^ 32 := by decide
    omega
  obtain ⟨appFlag, _, appLength, appLoaded, appHash⟩ := app.parts short
  obtain ⟨bakFlag, _, _, _, bakHash⟩ := bak.parts short
  have appClear : ¬ Encrypted world.chip.cells stage.flashAppAddr := by
    rw [Encrypted, appFlag]
    decide
  have bakClear : ¬ Encrypted world.chip.cells stage.flashBakAddr := by
    rw [Encrypted, bakFlag]
    decide
  have whole : WholeImages (board aes) stage world.chip.cells := by
    intro slot member _ encrypted
    rcases List.mem_pair.mp member with rfl | rfl
    · exact absurd encrypted appClear
    · exact absurd encrypted bakClear
  have accepts := @accepts_of_holds _ _ _ _ aes app padded fits small
  have bakAccepts := @accepts_of_holds _ _ _ _ aes bak padded fits small
  obtain ⟨bakAnswer, appAnswer⟩ := checks_answer whole
  have decided : decision (board aes).sha stage world.chip.cells = .boot := by
    rw [decision, if_pos (appHash.trans bakHash.symm), if_pos accepts]
  have image : loadedImage (board aes) stage.flashNextSize world.chip.cells stage.flashAppAddr =
      codes := by
    rw [loadedImage, if_pos accepts.fits, if_pos accepts, plaintext, if_neg appClear, appLoaded]
  obtain ⟨after, runs, checked⟩ := main_boots whole decided
  refine ⟨app.valid fits short, bak.valid fits short, ?_, ?_, ?_, ?_, ?_, ?_⟩
  · rw [appAnswer, checkResult_eq_zero.mpr accepts]
  · rw [bakAnswer, checkResult_eq_zero.mpr bakAccepts]
  · rw [runs]
  · rw [runs, checked.cells]
  · rw [runs, checked.log]
  · rw [runs, checked.ram, loadedRam, image, readRange_writeRange_self]

end Slots

/-- **The image tools and the loader agree**: stage 1 boots the stage-2 binary out of the file of
`genimg.py`, which `genimg_whole.py` can take as its loader image, and stage 2 boots the
application out of the file of `genimg_whole.py`. -/
theorem tools_boot (aes : AesEngine) :
    (∀ loader1Bin loader2Bin : List Byte, (imageFile loader1Bin).length ≤ 0x10000 →
      (imageFile loader2Bin).length ≤ 0x10000 →
      ∃ file, genimg loader1Bin loader2Bin = some file ∧ file.length ≤ 0x30000 ∧
        ∀ world : World, world.chip.cells = flashed file →
          BootsUntouched (board aes) .stage1 world (aligned loader2Bin)) ∧
    (∀ loaderImg appBin : List Byte, loaderImg.length ≤ 0x30000 →
      (imageFile appBin).length ≤ 0x50000 →
      ∃ file, genimgWhole loaderImg appBin = some file ∧
        ∀ world : World, world.chip.cells = flashed file →
          BootsUntouched (board aes) .stage2 world (aligned appBin)) := by
  refine ⟨fun loader1Bin loader2Bin first second => ?_, fun loaderImg appBin loader app => ?_⟩
  · have size1 := imageFile_length loader1Bin
    have size2 := imageFile_length loader2Bin
    have chip : 0x30000 ≤ chipSize := by decide
    refine ⟨_, genimg_eq (by omega) (by omega), ?_, fun world flash => ?_⟩
    · simp only [List.length_append, filler_length]
      omega
    · refine twins_boot ?_ ?_ (aligned_length loader2Bin) (size2 ▸ second)
      · rw [flash, List.append_assoc]
        exact holds_flashed (by rw [List.length_append, filler_length]; show _ = 64 * 1024; omega)
          (by show 64 * 1024 + _ ≤ _; omega)
      · have holds := @holds_flashed (imageFile loader1Bin ++
          filler (64 * 1024 - (imageFile loader1Bin).length) ++ imageFile loader2Bin ++
          filler (64 * 1024 - (imageFile loader2Bin).length)) [] loader2Bin 0x20000
          (by simp only [List.length_append, filler_length]; omega) (by omega)
        rw [List.append_nil] at holds
        rw [flash]
        exact holds
  · have size := imageFile_length appBin
    have chip : 0xD0000 ≤ chipSize := by decide
    refine ⟨_, genimgWhole_eq (by omega), fun world flash => ?_⟩
    refine twins_boot ?_ ?_ (aligned_length appBin) (size ▸ app)
    · rw [flash, List.append_assoc]
      exact holds_flashed
        (by rw [List.length_append, filler_length]; show _ = 3 * 64 * 1024; omega)
        (by show 3 * 64 * 1024 + _ ≤ _; omega)
    · have holds := @holds_flashed (loaderImg ++ filler (3 * 64 * 1024 - loaderImg.length) ++
        imageFile appBin ++ filler (320 * 1024 - (imageFile appBin).length)) [] appBin 0x80000
        (by simp only [List.length_append, filler_length]; omega) (by omega)
      rw [List.append_nil] at holds
      rw [flash]
      exact holds

/-- Small binaries fit. -/
theorem tools_boot_small :
    (∃ file, genimg [0x13] [0x6f, 0, 0, 0] = some file ∧ file.length ≤ 0x30000 ∧
      ∀ world : World, world.chip.cells = flashed file →
        BootsUntouched (board .inverting) .stage1 world (aligned [0x6f, 0, 0, 0])) ∧
    (∃ file, genimgWhole [0x13, 0] [1, 2, 3] = some file ∧
      ∀ world : World, world.chip.cells = flashed file →
        BootsUntouched (board .inverting) .stage2 world (aligned [1, 2, 3])) :=
  ⟨(tools_boot .inverting).1 _ _ (by rw [imageFile_length]; decide)
      (by rw [imageFile_length]; decide),
    (tools_boot .inverting).2 _ _ (by decide) (by rw [imageFile_length]; decide)⟩

end K210Guard
