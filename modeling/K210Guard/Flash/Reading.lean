/-
**Reading into a buffer** (`flash_read_data` of `drivers/flash.c`, with its stores to `data_buf`).

`flashReadData` returns the bytes that `flash_read_data` stores; here they are stored, chunk by
chunk, as the source does it.

* `flashReadDataTo_run` — the chunks amount to one store of what `flashReadData` returns.
* `flashReadDataTo_agree` — in every read mode the buffer holds the chip's bytes at the addresses
  modulo the chip's size, and nothing else has changed.
-/

import K210Guard.Flash.DriverSpec

namespace K210Guard

/-- The loop of `flash_read_data`, with the chunks stored at `dataBuf`. -/
def flashReadDataTo (addr dataBuf length : Nat) (mode : FlashRead) : Firmware FlashStatus := do
  if _more : length ≠ 0 then
    let readLen := if length > 32 then 32 else length
    let data ← flashRead addr readLen mode
    Bus.issue (.store dataBuf data)
    flashReadDataTo (u32 (addr + readLen)) (dataBuf + readLen) (length - readLen) mode
  else
    pure .ok
termination_by length
decreasing_by split <;> omega

/-- The world with bytes stored in RAM. -/
def World.stored (world : World) (addr : Nat) (bytes : List Byte) : World :=
  { world with ram := writeRange world.ram addr bytes }

theorem store_run (world : World) (addr : Nat) (bytes : List Byte) :
    world.run (Bus.issue (.store addr bytes)) = (some (), world.stored addr bytes) := rfl

/-- Two stores in a row, the second right after the first, are one store. -/
theorem World.stored_stored (world : World) (addr : Nat) (first second : List Byte) :
    (world.stored addr first).stored (addr + first.length) second =
      world.stored addr (first ++ second) := by
  unfold World.stored
  congr 1
  exact (writeRange_append world.ram addr first second).symm

/-- **Chunk by chunk** the chip's bytes arrive in the buffer. -/
theorem flashReadDataTo_run (world : World) (addr dataBuf length : Nat) (mode : FlashRead)
    (spi3 : world.driver.OnSpi3) :
    world.run (flashReadDataTo addr dataBuf length mode) =
      (some .ok, world.stored dataBuf (world.chip.read addr length)) := by
  induction length using Nat.strong_induction_on generalizing world addr dataBuf with
  | _ length ih =>
      rw [flashReadDataTo]
      by_cases more : length ≠ 0
      · rw [dif_pos more]
        generalize size : (if length > 32 then 32 else length) = readLen
        have bound : 0 < readLen ∧ readLen ≤ length := by
          rw [← size]
          split <;> omega
        have wraps : u32 (addr + readLen) % chipSize = (addr + readLen) % chipSize :=
          Nat.mod_mod_of_dvd _ (by decide)
        have whole : world.chip.read addr length = world.chip.read addr readLen ++
            world.chip.read (u32 (addr + readLen)) (length - readLen) := by
          rw [world.chip.read_congr _ wraps, ← Chip.read_add, Nat.add_sub_cancel' bound.2]
        have chunk : (world.chip.read addr readLen).length = readLen := readRange_length _ _ _
        refine (World.run_bind_of_eq (flashRead_run world addr readLen mode spi3)).trans ?_
        refine (World.run_bind_of_eq (store_run world dataBuf _)).trans ?_
        refine (ih (length - readLen) (by omega) (world.stored dataBuf _) _ _ spi3).trans ?_
        show (some FlashStatus.ok, (world.stored dataBuf (world.chip.read addr readLen)).stored
          (dataBuf + readLen) (world.chip.read (u32 (addr + readLen)) (length - readLen))) = _
        rw [whole, ← World.stored_stored, chunk]
      · rw [dif_neg more, not_not.mp more]
        show (some FlashStatus.ok, world) = _
        rw [World.stored, Chip.read, readRange_zero, writeRange_nil]

/-- **All read modes agree**: each fills the buffer with the chip's bytes, from the address on and
modulo the chip's size, and changes nothing else. -/
theorem flashReadDataTo_agree (world : World) (spi3 : world.driver.OnSpi3)
    (addr dataBuf length : Nat) (mode : FlashRead) :
    ∃ after, world.run (flashReadDataTo addr dataBuf length mode) = (some .ok, after) ∧
      (∀ i < length, after.ram (dataBuf + i) = world.chip.cells ((addr + i) % 2 ^ 24)) ∧
      (∀ x, x < dataBuf ∨ dataBuf + length ≤ x → after.ram x = world.ram x) ∧
      after = { world with ram := after.ram } ∧
      ∀ other, world.run (flashReadDataTo addr dataBuf length other) = (some .ok, after) := by
  have size : (world.chip.read addr length).length = length := readRange_length _ _ _
  have runs := fun mode => flashReadDataTo_run world addr dataBuf length mode spi3
  refine ⟨_, runs mode, fun i bound => ?_, fun x outside => ?_, rfl, runs⟩
  · show writeRange world.ram dataBuf (world.chip.read addr length) (dataBuf + i) = _
    rw [writeRange_inside _ (Nat.le_add_right _ _) (by omega)]
    simp only [Nat.add_sub_cancel_left]
    exact getElem_readRange _ _ _ _ _
  · exact writeRange_outside _ (by omega)

/-- Over the end of the chip, in the mode the loader uses. -/
theorem flashReadDataTo_agree_overEnd :
    ∃ after, World.run { World.powerOn u8 with driver := quadDriver }
        (flashReadDataTo 0xFFFFFE 0x80000000 4 .quadSingle) = (some .ok, after) ∧
      after.ram (0x80000000 + 3) = 1#8 ∧
      World.run { World.powerOn u8 with driver := quadDriver }
        (flashReadDataTo 0xFFFFFE 0x80000000 4 .standard) = (some .ok, after) := by
  obtain ⟨after, runs, filled, -, -, agree⟩ := flashReadDataTo_agree
    { World.powerOn u8 with driver := quadDriver } quadDriver_onSpi3 0xFFFFFE 0x80000000 4
    .quadSingle
  exact ⟨after, runs, filled 3 (by decide), agree .standard⟩

end K210Guard
