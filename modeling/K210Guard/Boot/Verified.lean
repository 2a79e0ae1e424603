/-
**What is in RAM when the loader boots.**

Without a restore the RAM at the boot address holds the plaintext of APP, which passed its check
(`booted_without_restore`). A restore leaves the stored payload and hash of its source there, as
they are in the flash: of an encrypted image that is the ciphertext (`sealedCells`). When that is
a verified plaintext all the same is `restored_verified_iff`.
`verified_iff` says exactly for which flash contents the RAM holds a verified plaintext whenever
`main` boots.
-/

import K210Guard.Boot.Availability

namespace K210Guard

open NorFlash (Cells)
open Slot

/-- The RAM at the boot address holds the plaintext of a valid slot. -/
def Verified (engines : Engines) (hash : List Byte → Digest) (stage : Stage) (cells : Cells)
    (ram : Nat → Byte) : Prop :=
  ∃ slot ∈ stage.slots, Valid cells slot hash stage.flashNextSize ∧
    readRange ram stage.boot (codesLength cells slot) = plaintext cells slot engines.aes

/-- What a restore leaves in RAM: the payload and the hash as they are stored. -/
def restoredBytes (cells : Cells) (source : Nat) : List Byte :=
  flashBytes cells (source + 5) (codesLength cells source + flashSha256Len)

section Ram

variable {engines : Engines} {hash : List Byte → Digest} {stage : Stage} {cells : Cells}
  {slot size : Nat}

theorem plaintext_length (engines : Engines) (valid : Valid cells slot hash size)
    (blocks : WholeBlocks cells slot hash size) :
    (plaintext cells slot engines.aes).length = codesLength cells slot := by
  unfold plaintext
  split
  · rename_i encrypted
    rw [engines.aes.decipher_length (by rw [payload_length]; exact blocks valid encrypted),
      payload_length]
  · exact payload_length _ _

/-- The check loads the plaintext of a valid image. -/
theorem loadedImage_of_valid (computes : engines.Computes hash) (small : size ≤ chipSize)
    (valid : Valid cells slot hash size) :
    loadedImage engines size cells slot = plaintext cells slot engines.aes := by
  rw [loadedImage, if_pos valid.fits, if_pos ((accepts_iff_valid computes small).mpr valid)]

/-- The beginning of what a restore leaves is the payload. -/
theorem restoredBytes_take (cells : Cells) (slot : Nat) :
    (restoredBytes cells slot).take (codesLength cells slot) = payload cells slot := by
  rw [restoredBytes, flashBytes_add, List.take_left' (flashBytes_length _ _ _), payload]

@[simp] theorem restoredBytes_length (cells : Cells) (slot : Nat) :
    (restoredBytes cells slot).length = codesLength cells slot + flashSha256Len :=
  flashBytes_length _ _ _

/-- Over a long write, a short one keeps the end of the first. -/
theorem drop_overwritten (first second : List Byte) {from' : Nat} (covers : first.length ≤ from') :
    (first.take second.length ++ second.drop first.length).drop from' = second.drop from' := by
  rw [List.drop_append, List.drop_drop, List.length_take,
    List.drop_of_length_le (by rw [List.length_take]; omega), List.nil_append]
  rcases le_total second.length first.length with short | long
  · rw [List.drop_of_length_le (by omega), List.drop_of_length_le (by omega)]
  · rw [Nat.min_eq_right long, Nat.add_sub_cancel' covers]

/-- Over a long write, a short one is the beginning. -/
theorem take_overwritten (first second : List Byte) :
    (first.take second.length ++ second.drop first.length).take first.length =
      first.take second.length := by
  rcases le_total second.length first.length with short | long
  · rw [List.drop_of_length_le short, List.append_nil,
      List.take_of_length_le (by rw [List.length_take]; omega)]
  · rw [List.take_of_length_le long, List.take_left]

variable {world : World}

/-- Without a restore, the plaintext of APP is in RAM. -/
theorem booted_without_restore (computes : engines.Computes hash)
    (valid : Valid world.chip.cells stage.flashAppAddr hash stage.flashNextSize)
    (blocks : WholeBlocks world.chip.cells stage.flashAppAddr hash stage.flashNextSize) :
    Verified engines hash stage world.chip.cells (loadedRam engines stage world) := by
  refine ⟨stage.flashAppAddr, by simp [Stage.slots], valid, ?_⟩
  rw [loadedRam, loadedImage_of_valid computes stage.appPlace.small valid,
    ← plaintext_length engines valid blocks, readRange_writeRange_self]

/-- When both slots are valid, the RAM after the checks is the plaintext of BAK under that of
APP. -/
theorem loaded_under (computes : engines.Computes hash)
    (app : Valid world.chip.cells stage.flashAppAddr hash stage.flashNextSize)
    (bak : Valid world.chip.cells stage.flashBakAddr hash stage.flashNextSize)
    (bakBlocks : WholeBlocks world.chip.cells stage.flashBakAddr hash stage.flashNextSize) :
    readRange (loadedRam engines stage world) stage.boot
        (codesLength world.chip.cells stage.flashBakAddr) =
      (plaintext world.chip.cells stage.flashAppAddr engines.aes).take
          (plaintext world.chip.cells stage.flashBakAddr engines.aes).length ++
        (plaintext world.chip.cells stage.flashBakAddr engines.aes).drop
          (plaintext world.chip.cells stage.flashAppAddr engines.aes).length := by
  rw [loadedRam, loadedImage_of_valid computes stage.appPlace.small app,
    loadedImage_of_valid computes stage.appPlace.small bak, readRange_writeRange,
    ← plaintext_length engines bak bakBlocks, readRange_writeRange_self]

/-- After a restore, the RAM holds a verified plaintext if its source is stored in the clear, or if
the other slot is valid and its plaintext begins as what the restore has left. -/
theorem restored_verified_iff (computes : engines.Computes hash)
    (blocks : ∀ slot ∈ stage.slots, WholeBlocks world.chip.cells slot hash stage.flashNextSize)
    {source target : Nat}
    (decided : decision engines.sha stage world.chip.cells = .restore source target) :
    Verified engines hash stage world.chip.cells (writeRange (loadedRam engines stage world)
        stage.boot (restoredBytes world.chip.cells source)) ↔
      payload world.chip.cells source = plaintext world.chip.cells source engines.aes ∨
      Valid world.chip.cells target hash stage.flashNextSize ∧
        (restoredBytes world.chip.cells source).take (codesLength world.chip.cells target) =
          (plaintext world.chip.cells target engines.aes).take
            (restoredBytes world.chip.cells source).length := by
  obtain ⟨accepts, _, sides⟩ := decision_restore decided
  have valid := (accepts_iff_valid computes stage.appPlace.small).mp accepts
  have members : source ∈ stage.slots ∧ target ∈ stage.slots ∧
      ∀ slot ∈ stage.slots, slot = source ∨ slot = target := by
    rcases sides with ⟨rfl, rfl⟩ | ⟨rfl, rfl, _⟩
    · exact ⟨by simp [Stage.slots], by simp [Stage.slots], by simp [Stage.slots]⟩
    · exact ⟨by simp [Stage.slots], by simp [Stage.slots], by simp [Stage.slots, or_comm]⟩
  have read (length : Nat) : readRange (writeRange (loadedRam engines stage world) stage.boot
      (restoredBytes world.chip.cells source)) stage.boot length =
        (restoredBytes world.chip.cells source).take length ++
          (readRange (loadedRam engines stage world) stage.boot length).drop
            (restoredBytes world.chip.cells source).length :=
    readRange_writeRange _ _ _ _
  have readSource : readRange (writeRange (loadedRam engines stage world) stage.boot
      (restoredBytes world.chip.cells source)) stage.boot
        (codesLength world.chip.cells source) = payload world.chip.cells source := by
    rw [read, restoredBytes_take, restoredBytes_length,
      List.drop_of_length_le (by rw [readRange_length]; omega), List.append_nil]
  constructor
  · rintro ⟨slot, member, validSlot, loaded⟩
    rcases members.2.2 slot member with rfl | rfl
    · rw [readSource] at loaded
      exact Or.inl loaded
    · have begun := take_overwritten (restoredBytes world.chip.cells source)
        (readRange (loadedRam engines stage world) stage.boot
          (codesLength world.chip.cells slot))
      rw [readRange_length] at begun
      rw [← loaded, read, begun]
      exact Or.inr ⟨validSlot, rfl⟩
  · rintro (clear | ⟨validTarget, agree⟩)
    · exact ⟨source, members.1, valid, readSource.trans clear⟩
    · refine ⟨target, members.2.1, validTarget, ?_⟩
      rcases sides with ⟨rfl, rfl⟩ | ⟨rfl, rfl, invalid⟩
      · have short := plaintext_length engines valid (blocks _ (by simp [Stage.slots]))
        rw [read, agree, loaded_under computes valid validTarget
          (blocks _ (by simp [Stage.slots])), drop_overwritten _ _ (by
            rw [short, restoredBytes_length]; omega), List.take_append_drop]
      · exact absurd ((accepts_iff_valid computes stage.appPlace.small).mpr validTarget) invalid

end Ram

/-- **When a boot runs a verified plaintext**: unless a restore takes place, or when the slot
restored from is stored in the clear, or when the other slot is valid too and its plaintext begins
as the bytes left by the restore do. -/
theorem verified_iff (engines : Engines) (hash : List Byte → Digest)
    (computes : engines.Computes hash) (stage : Stage) (world : World)
    (blocks : ∀ slot ∈ stage.slots, WholeBlocks world.chip.cells slot hash stage.flashNextSize) :
    ((world.run (main engines stage)).1 = some .goBoot →
        Verified engines hash stage world.chip.cells (world.run (main engines stage)).2.ram) ↔
      ∀ source target, decision engines.sha stage world.chip.cells = .restore source target →
        payload world.chip.cells source = plaintext world.chip.cells source engines.aes ∨
        Valid world.chip.cells target hash stage.flashNextSize ∧
          (restoredBytes world.chip.cells source).take (codesLength world.chip.cells target) =
            (plaintext world.chip.cells target engines.aes).take
              (restoredBytes world.chip.cells source).length := by
  have whole := wholeImages_of_valid computes blocks
  cases decided : decision engines.sha stage world.chip.cells with
  | boot =>
      obtain ⟨after, runs, checked⟩ := main_boots whole decided
      rw [decision_of_valid computes] at decided
      rw [runs, checked.ram]
      split_ifs at decided with same app
      exact iff_of_true
        (fun _ => booted_without_restore computes app (blocks _ (by simp [Stage.slots])))
        (fun _ _ restores => by cases restores)
  | fail =>
      obtain ⟨after, runs, _⟩ := main_fails whole decided
      rw [runs]
      exact iff_of_true (fun boots => by simp at boots) (fun _ _ restores => by cases restores)
  | restore source target =>
      obtain ⟨_, _, after, runs, _, _, _, _, _, ram⟩ := main_restores whole decided
      rw [runs, ram]
      constructor
      · intro verified source' target' same
        obtain ⟨rfl, rfl⟩ : source = source' ∧ target = target' := by simpa using same
        exact (restored_verified_iff computes blocks decided).mp (verified rfl)
      · intro meets _
        exact (restored_verified_iff computes blocks decided).mpr (meets source target rfl)

/-! ### A sealed image -/

/-- APP holds an encrypted image of one block of zeros, BAK is erased. -/
def sealedCells : Cells :=
  writeRange (fun _ => NorFlash.blank) Stage.stage1.flashAppAddr
    (imageOf sha256 1 (List.replicate 16 0))

theorem sealed_app :
    Holds sealedCells Stage.stage1.flashAppAddr sha256 1 (List.replicate 16 0) :=
  Holds.stored (by decide)

theorem sealed_bak_length : codesLength sealedCells Stage.stage1.flashBakAddr = 2 ^ 32 - 1 := by
  have blank : flashBytes sealedCells (Stage.stage1.flashBakAddr + 1) 4 =
      flashBytes (fun _ => NorFlash.blank) (Stage.stage1.flashBakAddr + 1) 4 :=
    flashBytes_writeRange _ (by decide) (Or.inr (by rw [imageOf_length]; decide))
  rw [codesLength, lengthBytes, blank]
  decide +kernel

theorem sealed_bak_invalid :
    ¬ Valid sealedCells Stage.stage1.flashBakAddr sha256 Stage.stage1.flashNextSize := by
  intro valid
  have fits := valid.fits
  rw [Fits, sealed_bak_length] at fits
  exact absurd fits (by decide)

theorem sealed_blocks : ∀ slot ∈ Stage.stage1.slots,
    WholeBlocks sealedCells slot sha256 Stage.stage1.flashNextSize := by
  intro slot member valid _
  rcases List.mem_pair.mp member with rfl | rfl
  · rw [(sealed_app.parts (by decide)).2.2.1]
    decide
  · exact absurd valid sealed_bak_invalid

/-- The stored hashes differ: that of BAK is read from erased cells. -/
theorem sealed_hashes : storedHash sealedCells Stage.stage1.flashAppAddr ≠
    storedHash sealedCells Stage.stage1.flashBakAddr := by
  have wraps : u32 (Stage.stage1.flashBakAddr + 5 + (2 ^ 32 - 1)) =
      Stage.stage1.flashBakAddr + 4 := by decide
  have blank : flashBytes sealedCells (Stage.stage1.flashBakAddr + 4) flashSha256Len =
      flashBytes (fun _ => NorFlash.blank) (Stage.stage1.flashBakAddr + 4) flashSha256Len :=
    flashBytes_writeRange _ (by decide) (Or.inr (by rw [imageOf_length]; decide))
  have bak : storedHash sealedCells Stage.stage1.flashBakAddr =
      List.replicate 32 NorFlash.blank := by
    rw [storedHash, sealed_bak_length, ← flashBytes_u32, wraps, blank]
    decide +kernel
  rw [bak, (sealed_app.parts (by decide)).2.2.2.2]
  decide +kernel

theorem sealed_valid :
    Valid sealedCells Stage.stage1.flashAppAddr sha256 Stage.stage1.flashNextSize :=
  sealed_app.valid (by decide) (by decide)

theorem sealed_decision : decision Engines.sample.sha .stage1 sealedCells =
    .restore Stage.stage1.flashAppAddr Stage.stage1.flashBakAddr := by
  rw [decision_of_valid Engines.sample_computes, if_neg sealed_hashes, if_pos sealed_valid]

/-- The payload is not its plaintext. -/
theorem sealed_payload : payload sealedCells Stage.stage1.flashAppAddr ≠
    plaintext sealedCells Stage.stage1.flashAppAddr Engines.sample.aes := by
  obtain ⟨flag, _, _, codes, _⟩ := sealed_app.parts (by decide)
  have encrypted : Encrypted sealedCells Stage.stage1.flashAppAddr := by
    rw [Encrypted, flag]
    decide
  rw [plaintext, if_pos encrypted, codes]
  decide +kernel

/-- The assumptions of `verified_iff` are met there. -/
theorem verified_iff_sealed :
    (((World.powerOn sealedCells).run (main Engines.sample .stage1)).1 = some .goBoot →
        Verified Engines.sample sha256 .stage1 sealedCells
          ((World.powerOn sealedCells).run (main Engines.sample .stage1)).2.ram) ↔
      ∀ source target,
        decision Engines.sample.sha .stage1 sealedCells = .restore source target →
          payload sealedCells source = plaintext sealedCells source Engines.sample.aes ∨
          Valid sealedCells target sha256 Stage.stage1.flashNextSize ∧
            (restoredBytes sealedCells source).take (codesLength sealedCells target) =
              (plaintext sealedCells target Engines.sample.aes).take
                (restoredBytes sealedCells source).length :=
  verified_iff Engines.sample sha256 Engines.sample_computes .stage1 (World.powerOn sealedCells)
    sealed_blocks

/-- **A sealed image is booted as it is stored**: APP passes its check and is decrypted, but the
restore of BAK puts the ciphertext over the plaintext. -/
theorem sealed_boots_ciphertext :
    Engines.sample.Computes sha256 ∧
      (∀ slot ∈ Stage.stage1.slots,
        WholeBlocks sealedCells slot sha256 Stage.stage1.flashNextSize) ∧
      ((World.powerOn sealedCells).run (main Engines.sample .stage1)).1 = some .goBoot ∧
      ¬ Verified Engines.sample sha256 .stage1 sealedCells
          ((World.powerOn sealedCells).run (main Engines.sample .stage1)).2.ram := by
  obtain ⟨_, _, after, runs, _, _, _, _, _, ram⟩ := @main_restores Engines.sample .stage1
    (World.powerOn sealedCells) (wholeImages_of_valid Engines.sample_computes sealed_blocks) _ _
    sealed_decision
  refine ⟨Engines.sample_computes, sealed_blocks, by rw [runs], ?_⟩
  rw [runs]
  rintro ⟨slot, member, valid, loaded⟩
  rcases List.mem_pair.mp member with rfl | rfl
  · have read : readRange after.ram Stage.stage1.boot
        (codesLength sealedCells Stage.stage1.flashAppAddr) =
        (restoredBytes sealedCells Stage.stage1.flashAppAddr).take
          (codesLength sealedCells Stage.stage1.flashAppAddr) := by
      rw [ram]
      exact readRange_writeRange_take _ _ _ _
        (by rw [flashBytes_length]; exact Nat.le_add_right _ _)
    rw [restoredBytes_take] at read
    exact sealed_payload (read.symm.trans loaded)
  · exact sealed_bak_invalid valid

end K210Guard
