/-
**What the restore does** (`flash_image_backup`).

A restore erases the sectors under the target slot, programs the flag and the length in one command
each, and streams the payload and the hash. `Restores` has these commands and `flashImageBackup_run`
says that the restore carries them out.

* `Restores.within`: they stay inside the target slot.
* `Restores.identical`: when every sector was erased, the target holds the source's image.
* `Restores.of_prefix`: the states a prefix of them goes through; no state holds part of a length.
-/

import K210Guard.Boot.CheckSpec

namespace K210Guard

open NorFlash (Cells Command Streams replay erases blanked overlay)
open Slot

/-! ### Where the slots lie -/

/-- A slot is made of whole sectors, has room for an empty image and lies on the chip. -/
structure SlotPlace (slot size : Nat) : Prop where
  aligned : 4096 ∣ slot
  whole : 4096 ∣ size
  room : 37 ≤ size
  onChip : slot + size ≤ chipSize

theorem Stage.appPlace (stage : Stage) : SlotPlace stage.flashAppAddr stage.flashNextSize := by
  cases stage <;> exact ⟨by decide, by decide, by decide, by decide⟩

theorem Stage.bakPlace (stage : Stage) : SlotPlace stage.flashBakAddr stage.flashNextSize := by
  cases stage <;> exact ⟨by decide, by decide, by decide, by decide⟩

/-- BAK follows APP. -/
theorem Stage.apart (stage : Stage) :
    stage.flashAppAddr + stage.flashNextSize ≤ stage.flashBakAddr := by
  cases stage <;> decide

theorem SlotPlace.small {slot size : Nat} (place : SlotPlace slot size) : size ≤ chipSize :=
  (Nat.le_add_left _ _).trans place.onChip

/-- The image of a slot whose length fits. -/
theorem SlotPlace.image_le {slot size source : Nat} {cells : Cells} (place : SlotPlace slot size)
    (fits : Fits cells source size) : imageLength cells source ≤ size := by
  have room := place.room
  unfold Fits at fits
  unfold imageLength
  omega

theorem SlotPlace.sectors_le {slot size length : Nat} (place : SlotPlace slot size)
    (bound : length ≤ size) : 4096 * sectorCount length ≤ size := by
  obtain ⟨count, rfl⟩ := place.whole
  unfold sectorCount
  omega

/-- A slot keeps its image when nothing changes outside another slot. -/
theorem SlotPlace.keeps {slot other size : Nat} {cells after : Cells} (place : SlotPlace slot size)
    (apart : slot + size ≤ other ∨ other + size ≤ slot) (fits : Fits cells slot size)
    (outside : ∀ x, x < other ∨ other + size ≤ x → after x = cells x) :
    Identical after slot cells slot := by
  have image := place.image_le fits
  have onChip := place.onChip
  rw [Identical, flashBytes_plain _ (by omega), flashBytes_plain _ (by omega)]
  exact readRange_congr fun x low high => outside x (by omega)

/-! ### The commands of a restore -/

/-- The commands that restore `target` from `source`, when `count` sectors were erased. -/
inductive Restores (cells : Cells) (source target count : Nat) : List Command → Prop
  | mk (tail : List Command)
      (streams : Streams chipGeometry (target + 5)
        (flashBytes cells (source + 5) (codesLength cells source + flashSha256Len)) 0 tail
        (codesLength cells source + flashSha256Len)) :
      Restores cells source target count
        (erases chipGeometry target count ++ .program target (flagByte cells source) ::
          .program (target + 1) (lengthBytes cells source) :: tail)

/-- The image as it is read, split after the flag and after the length. -/
theorem image_split (cells : Cells) (slot : Nat) :
    flashBytes cells slot (imageLength cells slot) = flagByte cells slot ++
      (lengthBytes cells slot ++
        flashBytes cells (slot + 5) (codesLength cells slot + flashSha256Len)) := by
  have split : imageLength cells slot = 1 + (4 + (codesLength cells slot + flashSha256Len)) := by
    rw [imageLength_eq]
    omega
  rw [split, flashBytes_add, flashBytes_add, flagByte, lengthBytes]

section Commands

variable {cells : Cells} {source target count size : Nat} {commands : List Command}

/-- After the erases, the commands stream the image. -/
theorem header_streams (aligned : 4096 ∣ target) {tail : List Command} {stop : Nat}
    (streams : Streams chipGeometry (target + 5)
      (flashBytes cells (source + 5) (codesLength cells source + flashSha256Len)) 0 tail stop) :
    Streams chipGeometry target (flashBytes cells source (imageLength cells source)) 0
      (.program target (flagByte cells source) ::
        .program (target + 1) (lengthBytes cells source) :: tail) (5 + stop) := by
  have flag1 : (flagByte cells source).length = 1 := flashBytes_length _ _ _
  have length4 : (lengthBytes cells source).length = 4 := flashBytes_length _ _ _
  have page : target % 256 = 0 := by omega
  have afterFlag : Streams chipGeometry (target + 1) (lengthBytes cells source ++
      flashBytes cells (source + 5) (codesLength cells source + flashSha256Len)) 0
      (.program (target + 1) (lengthBytes cells source) :: tail) (4 + stop) := by
    rw [← length4]
    exact Streams.prepend (by rw [length4]; show (target + 1) % 256 + 4 ≤ 256; omega)
      (by rwa [length4])
  have five : 5 + stop = (flagByte cells source).length + (4 + stop) := by omega
  rw [image_split, five]
  exact Streams.prepend (by rw [flag1]; show target % 256 + 1 ≤ 256; omega) (by rwa [flag1])

/-- The first of these commands on its own. -/
theorem flag_streams (aligned : 4096 ∣ target) :
    Streams chipGeometry target (flashBytes cells source (imageLength cells source)) 0
      [.program target (flagByte cells source)] 1 := by
  have flag1 : (flagByte cells source).length = 1 := flashBytes_length _ _ _
  have one : 1 = (flagByte cells source).length + 0 := by omega
  rw [image_split, one]
  exact Streams.prepend (by rw [flag1]; show target % 256 + 1 ≤ 256; omega) (.done 0)

/-- **A restore stays inside its slot.** -/
theorem Restores.within (restores : Restores cells source target count commands)
    (place : SlotPlace target size) (fits : Fits cells source size)
    (bound : count ≤ sectorCount (imageLength cells source)) :
    ∀ command ∈ commands, command.Within chipGeometry target (target + size) := by
  have image := place.image_le fits
  have sectors := place.sectors_le image
  obtain ⟨tail, streams⟩ := restores
  have header := header_streams place.aligned streams
  intro command member
  rcases List.mem_append.mp member with erased | programmed
  · exact NorFlash.erases_within place.aligned
      (show target + 4096 * count ≤ target + size by omega) command erased
  · exact header.within le_rfl (by rw [flashBytes_length]; omega) command programmed

/-- The states of an interrupted restore: some sectors erased, or all of them and a beginning of
the image programmed that does not end inside the length. -/
theorem Restores.of_prefix (restores : Restores cells source target count commands)
    (aligned : 4096 ∣ target) {done : List Command} (isPrefix : done <+: commands)
    (before : Cells) :
    (∃ fewer ≤ count,
      replay chipGeometry done before = blanked before target (target + 4096 * fewer)) ∨
    (∃ reached, (reached ≤ 1 ∨ 5 ≤ reached) ∧ reached ≤ imageLength cells source ∧
      replay chipGeometry done before =
        overlay (blanked before target (target + 4096 * count)) target
          ((flashBytes cells source (imageLength cells source)).take reached)) := by
  obtain ⟨tail, streams⟩ := restores
  have erased (fewer : Nat) : replay chipGeometry (erases chipGeometry target fewer) before =
      blanked before target (target + 4096 * fewer) :=
    NorFlash.replay_erases (show chipGeometry.sector ∣ target from aligned) before fewer
  rcases List.prefix_or_prefix_of_prefix isPrefix (List.prefix_append _ _) with shorter | longer
  · obtain ⟨fewer, bound, rfl⟩ := NorFlash.erases_of_prefix shorter
    exact Or.inl ⟨fewer, bound, erased fewer⟩
  · obtain ⟨more, rfl⟩ := longer
    have programmed := (List.prefix_append_right_inj _).mp isPrefix
    have reaches {reached : Nat} (streams : Streams chipGeometry target
        (flashBytes cells source (imageLength cells source)) 0 more reached) :
        replay chipGeometry (erases chipGeometry target count ++ more) before =
          overlay (blanked before target (target + 4096 * count)) target
            ((flashBytes cells source (imageLength cells source)).take reached) := by
      have replayed := streams.replay (blanked before target (target + 4096 * count))
      rw [List.take_zero, NorFlash.overlay_nil] at replayed
      rw [NorFlash.replay_append, erased, replayed]
    rcases List.prefix_cons_iff.mp programmed with rfl | ⟨afterFlag, rfl, flagged⟩
    · exact Or.inr ⟨0, by omega, by omega, reaches (.done 0)⟩
    · rcases List.prefix_cons_iff.mp flagged with rfl | ⟨afterLength, rfl, headed⟩
      · exact Or.inr ⟨1, by omega, by unfold imageLength; omega,
          reaches (flag_streams aligned)⟩
      · obtain ⟨reached, bound, streams'⟩ := streams.of_prefix headed
        refine Or.inr ⟨5 + reached, by omega, ?_, reaches (header_streams aligned streams')⟩
        unfold imageLength
        unfold flashSha256Len at bound
        omega

/-- **A restore whose sectors were all erased** leaves the image in them, and ones behind it. -/
theorem Restores.written
    (restores : Restores cells source target (sectorCount (imageLength cells source)) commands)
    (aligned : 4096 ∣ target) (before : Cells) :
    replay chipGeometry commands before =
      writeRange (blanked before target (target + 4096 * sectorCount (imageLength cells source)))
        target (flashBytes cells source (imageLength cells source)) := by
  obtain ⟨tail, streams⟩ := restores
  have streamed := (header_streams aligned streams).replay
    (blanked before target (target + 4096 * sectorCount (imageLength cells source)))
  have whole := (imageLength_eq cells source).symm
  have covered : imageLength cells source ≤ 4096 * sectorCount (imageLength cells source) := by
    unfold sectorCount
    omega
  have taken : (flashBytes cells source (imageLength cells source)).take
      (imageLength cells source) =
      flashBytes cells source (imageLength cells source) :=
    List.take_of_length_le (by rw [flashBytes_length])
  rw [whole, taken, List.take_zero, NorFlash.overlay_nil, NorFlash.overlay_of_blank
    fun x low high => NorFlash.blanked_inside _ low (by rw [flashBytes_length] at high; omega)]
    at streamed
  rw [NorFlash.replay_append,
    NorFlash.replay_erases (show chipGeometry.sector ∣ target from aligned),
    show chipGeometry.sector = 4096 from rfl, streamed]

/-- **A restore whose sectors were all erased copies the image.** -/
theorem Restores.identical
    (restores : Restores cells source target (sectorCount (imageLength cells source)) commands)
    (place : SlotPlace target size) (fits : Fits cells source size) (before : Cells) :
    Identical (replay chipGeometry commands before) target cells source := by
  have image := place.image_le fits
  have onChip := place.onChip
  rw [restores.written place.aligned, Identical,
    flashBytes_plain _ (show target + imageLength cells source ≤ chipSize by omega)]
  have stored := readRange_writeRange_self
    (blanked before target (target + 4096 * sectorCount (imageLength cells source))) target
    (flashBytes cells source (imageLength cells source))
  rwa [flashBytes_length] at stored

end Commands

/-! ### The code carries them out -/

/-- A write inside one page of at most 32 bytes is one command. -/
theorem flashWriteData_single (world : World) (spi3 : world.driver = quadDriver) (addr : Nat)
    (data : List Byte) (some' : data ≠ []) (short : data.length ≤ 32)
    (fits : addr % 256 + data.length ≤ 256) :
    world.run (flashWriteData addr data) =
      (some .ok, world.carryOut (.program (addr % chipSize) data)) := by
  have masked : addr &&& 255 = addr % 256 := Nat.and_two_pow_sub_one_eq_mod addr 8
  have positive := List.length_pos_iff.mpr some'
  have size : (if data.length < 256 - addr % 256 then data.length else 256 - addr % 256) =
      data.length := by
    split <;> omega
  have piece : (if data.length > 32 then 32 else data.length) = data.length := if_neg (by omega)
  have pieces : world.run (programPieces addr data) =
      (some (), world.carryOut (.program (addr % chipSize) data)) := by
    rw [programPieces, dif_pos some']
    dsimp only
    rw [piece, List.take_length, List.drop_length]
    refine (World.run_bind_of_eq (flashPageProgramFun_run world addr data
      (spi3 ▸ quadDriver_programs))).trans ?_
    rw [programPieces, dif_neg (by simp)]
    rfl
  have pages : world.run (writePages addr data) =
      (some (), world.carryOut (.program (addr % chipSize) data)) := by
    rw [writePages, dif_pos some', masked]
    dsimp only
    rw [size, List.take_length, List.drop_length]
    refine (World.run_bind_of_eq pieces).trans ?_
    rw [writePages, dif_neg (by simp)]
    rfl
  exact (World.run_bind_of_eq pages).trans (flashCheckStatus_run _)

/-- The flag and the length of an image are written with one command each. -/
theorem headerWrites_run {α : Type} {target size : Nat} (world : World)
    (spi3 : world.driver = quadDriver) (place : SlotPlace target size) (cells : Cells)
    (source : Nat) (rest : Firmware α) :
    world.run (do
      let _ ← flashWriteData target (flagByte cells source)
      let _ ← flashWriteData (u32 (target + 1)) (lengthBytes cells source)
      rest) =
      (world.carryOutAll [.program target (flagByte cells source),
        .program (target + 1) (lengthBytes cells source)]).run rest := by
  have room := place.room
  have onChip := place.onChip
  have aligned := place.aligned
  have flagLength : (flagByte cells source).length = 1 := flashBytes_length _ _ 1
  have wordLength : (lengthBytes cells source).length = 4 := flashBytes_length _ _ 4
  have flagWrite := flashWriteData_single world spi3 target (flagByte cells source)
    (List.ne_nil_of_length_eq_add_one flagLength) (by omega) (by omega)
  have lengthWrite := flashWriteData_single
    (world.carryOut (.program target (flagByte cells source))) spi3 (target + 1)
    (lengthBytes cells source) (List.ne_nil_of_length_eq_add_one wordLength) (by omega) (by omega)
  rw [Nat.mod_eq_of_lt (by omega)] at flagWrite lengthWrite
  refine (World.run_bind_of_eq flagWrite).trans ?_
  rw [u32_of_onChip (by omega)]
  exact World.run_bind_of_eq lengthWrite

/-- The reads of a restore: the payload and the hash go to RAM. -/
theorem imageReads_run {α : Type} (world : World) (spi3 : world.driver = quadDriver)
    (source ramptr : Nat) (rest : List Byte → List Byte → Firmware α) :
    world.run (do
      let flag ← flashReadData source 1 .quadSingle
      let length ← flashReadData (u32 (source + 1)) 4 .quadSingle
      let codes ← flashReadData (u32 (source + 1 + 4)) (u32 (leNat length + flashSha256Len))
        .quadSingle
      Bus.issue (.store ramptr codes)
      rest flag length) =
      (world.stored ramptr (flashBytes world.chip.cells (source + 5)
        (u32 (codesLength world.chip.cells source + flashSha256Len)))).run
        (rest (flagByte world.chip.cells source) (lengthBytes world.chip.cells source)) := by
  have number : leNat (flashBytes world.chip.cells (source + 1) 4) =
      codesLength world.chip.cells source := rfl
  refine (World.run_bind_of_eq (flashReadData_up _ spi3 _ _)).trans ?_
  refine (World.run_bind_of_eq (flashReadData_up _ spi3 _ _)).trans ?_
  rw [flashBytes_u32, number]
  refine (World.run_bind_of_eq (flashReadData_up _ spi3 _ _)).trans ?_
  rw [flashBytes_u32, Nat.add_assoc source 1 4]
  exact World.run_bind_of_eq (store_run world ramptr _)

/-- **The restore carries out its commands** and leaves the payload and the hash as they are stored
in RAM; Ctrl-C only makes it erase fewer sectors. -/
theorem flashImageBackup_run {source target size : Nat} (ramptr : Nat) (world : World)
    (spi3 : world.driver = quadDriver) (place : SlotPlace target size)
    (fits : Fits world.chip.cells source size) :
    ∃ count commands after,
      world.run (flashImageBackup source target ramptr) = (some (), after) ∧
      Restores world.chip.cells source target count commands ∧
      count ≤ sectorCount (imageLength world.chip.cells source) ∧
      (world.Undisturbed (sectorCount (imageLength world.chip.cells source)) →
        count = sectorCount (imageLength world.chip.cells source)) ∧
      after.chip.cells = replay chipGeometry commands world.chip.cells ∧
      after.chip.log = world.chip.log ++ commands ∧
      after.ram = writeRange world.ram ramptr (flashBytes world.chip.cells (source + 5)
        (codesLength world.chip.cells source + flashSha256Len)) := by
  have room := place.room
  have onChip := place.onChip
  have image := place.image_le fits
  have sectors := place.sectors_le image
  have small := place.small
  have total := imageLength_eq world.chip.cells source
  have payload : u32 (codesLength world.chip.cells source + flashSha256Len) =
      codesLength world.chip.cells source + flashSha256Len := u32_of_onChip (by omega)
  have whole : u32 (1 + 4 + codesLength world.chip.cells source + flashSha256Len) =
      imageLength world.chip.cells source := by
    rw [total, u32_of_onChip (by omega)]
    omega
  have behind : u32 (target + 1 + 4) = target + 5 := by
    rw [Nat.add_assoc target 1 4, u32_of_onChip (by omega)]
  generalize codes : flashBytes world.chip.cells (source + 5)
    (codesLength world.chip.cells source + flashSha256Len) = copied
  have copiedLength : copied.length = codesLength world.chip.cells source + flashSha256Len := by
    rw [← codes, flashBytes_length]
  obtain ⟨count, result, erased, eraseRuns, erasedAfter, erasedDriver, bound, outcome⟩ :=
    doFlashErase_run target (imageLength world.chip.cells source) place.aligned (by omega)
      (by omega) (world.stored ramptr copied)
  have headed := World.After.carryOutAll erased
    [.program target (flagByte world.chip.cells source),
      .program (target + 1) (lengthBytes world.chip.cells source)]
  obtain ⟨tail, after, streams, writeRuns, written, _⟩ := doFlashWrite_run (target + 5)
    (codesLength world.chip.cells source + flashSha256Len) ramptr (by omega)
    (erased.carryOutAll [.program target (flagByte world.chip.cells source),
      .program (target + 1) (lengthBytes world.chip.cells source)])
  have ram : (erased.carryOutAll [.program target (flagByte world.chip.cells source),
      .program (target + 1) (lengthBytes world.chip.cells source)]).ram =
      writeRange world.ram ramptr copied := headed.ram.trans erasedAfter.ram
  have rewritten : readRange (writeRange world.ram ramptr copied) ramptr
      (codesLength world.chip.cells source + flashSha256Len) = copied := by
    rw [← copiedLength, readRange_writeRange_self]
  rw [ram, rewritten, ← codes] at streams
  have together := (erasedAfter.trans headed).trans written
  refine ⟨count, _, after, ?_, .mk tail streams, bound, outcome, ?_, ?_, written.ram.trans ram⟩
  · refine (imageReads_run world spi3 source ramptr _).trans ?_
    rw [← codesLength, payload, codes, whole, behind]
    refine (World.run_bind_of_eq eraseRuns).trans ?_
    refine (headerWrites_run erased erasedDriver place world.chip.cells source _).trans ?_
    exact (World.run_bind_of_eq writeRuns).trans rfl
  · rw [together.cells, List.append_assoc]
    rfl
  · rw [together.log, List.append_assoc]
    rfl

end K210Guard
