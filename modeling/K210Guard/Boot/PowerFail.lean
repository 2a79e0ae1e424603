/-
**Power failures during a restore.**

A power failure stops `main` after any number of operations; only the flash survives it.

* `Restores.interrupted`: what it leaves of a restore. The target is untouched, or a beginning of
  the image followed by erased cells, and the beginning does not end inside the length.
* `Bootable`: APP is valid, or BAK is and the stored hashes differ and its hash is not blank. Every
  interrupted run keeps it (`Interrupted.bootable`).
* `boots_after_power_failures`: so after any number of failures an uninterrupted run boots.
-/

import Mathlib.Logic.Relation
import K210Guard.Boot.Redundancy

namespace K210Guard

open NorFlash (Cells Command replay blank)
open Slot

/-! ### What an interrupted restore leaves -/

/-- The target holds the first `reached` bytes of the source's image, then erased cells up to
`cleared`. -/
structure Torn (original : Cells) (source target reached cleared : Nat) (cells : Cells) :
    Prop where
  copied : flashBytes cells target reached = flashBytes original source reached
  erased : ∀ x, target + reached ≤ x → x < target + cleared → cells x = blank
  header : reached ≤ 1 ∨ 5 ≤ reached
  sector : 4096 ≤ cleared
  covers : 5 ≤ reached → imageLength original source ≤ cleared

/-- Erased cells read as ones. -/
theorem flashBytes_blank {cells : Cells} {addr length : Nat} (onChip : addr + length ≤ chipSize)
    (erased : ∀ x, addr ≤ x → x < addr + length → cells x = blank) :
    flashBytes cells addr length = List.replicate length blank := by
  rw [flashBytes_plain _ onChip]
  refine List.eq_replicate_iff.mpr ⟨readRange_length _ _ _, fun value member => ?_⟩
  obtain ⟨index, bound, rfl⟩ := List.getElem_of_mem member
  rw [readRange_length] at bound
  rw [getElem_readRange]
  exact erased _ (by omega) (by omega)

section Torn

variable {original cells : Cells} {source target reached cleared size : Nat}

/-- **The states of an interrupted restore.** -/
theorem Restores.interrupted {commands done : List Command}
    (restores : Restores original source target (sectorCount (imageLength original source))
      commands) (place : SlotPlace target size) (fits : Fits original source size)
    (isPrefix : done <+: commands) :
    replay chipGeometry done original = original ∨
      ∃ reached cleared,
        Torn original source target reached cleared (replay chipGeometry done original) := by
  have image := place.image_le fits
  have onChip := place.onChip
  have sectors : imageLength original source ≤
      4096 * sectorCount (imageLength original source) := by
    unfold sectorCount
    omega
  have some' : 37 ≤ imageLength original source := Nat.le_add_right _ _
  rcases restores.of_prefix place.aligned isPrefix original with
    ⟨fewer, bound, state⟩ | ⟨reached, header, bound, state⟩
  · by_cases none : fewer = 0
    · subst none
      rw [Nat.mul_zero, Nat.add_zero, NorFlash.blanked_empty] at state
      exact Or.inl state
    · refine Or.inr ⟨0, 4096 * fewer, rfl, ?_, by omega, by omega, by omega⟩
      intro x low high
      rw [state]
      exact NorFlash.blanked_inside _ low high
  · have taken : ((flashBytes original source (imageLength original source)).take reached).length =
        reached := by
      rw [List.length_take_of_le (by rwa [flashBytes_length])]
    rw [NorFlash.overlay_of_blank fun x low high => NorFlash.blanked_inside _ low (by omega)]
      at state
    refine Or.inr ⟨reached, 4096 * sectorCount (imageLength original source), ?_, ?_, header,
      by omega, fun _ => sectors⟩
    · have begun : (flashBytes original source (imageLength original source)).take reached =
          flashBytes original source reached := by
        rw [← Nat.add_sub_cancel' bound, flashBytes_add,
          List.take_left' (flashBytes_length _ _ _)]
      rw [state, flashBytes_plain _ (by omega)]
      have stored := readRange_writeRange_self (NorFlash.blanked original target
        (target + 4096 * sectorCount (imageLength original source))) target
        ((flashBytes original source (imageLength original source)).take reached)
      rw [taken] at stored
      rw [stored, begun]
    · intro x low high
      rw [state, writeRange_outside _ (Or.inr (by omega))]
      exact NorFlash.blanked_inside _ (by omega) high

namespace Torn

/-- Without a header the length field reads as all ones, which fits no slot. -/
theorem length_of_blank (torn : Torn original source target reached cleared cells)
    (place : SlotPlace target size) (short : reached ≤ 1) :
    codesLength cells target = 2 ^ 32 - 1 := by
  have sector := torn.sector
  have onChip := place.onChip
  have room := place.room
  rw [codesLength, lengthBytes, flashBytes_blank (by omega) fun x low high =>
    torn.erased x (by omega) (by omega)]
  decide

theorem not_valid_of_blank (torn : Torn original source target reached cleared cells)
    (place : SlotPlace target size) (short : reached ≤ 1) (hash : List Byte → Digest) :
    ¬ Valid cells target hash size := by
  intro valid
  have fits := valid.fits
  have small := place.small
  have chip : chipSize < 2 ^ 32 - 1 := by decide
  rw [Fits, torn.length_of_blank place short] at fits
  omega

/-- And the stored hash is read from the erased cells after it. -/
theorem hash_of_blank (torn : Torn original source target reached cleared cells)
    (place : SlotPlace target size) (short : reached ≤ 1) :
    storedHash cells target = List.replicate 32 blank := by
  have sector := torn.sector
  have onChip := place.onChip
  have room := place.room
  have chip : chipSize < 2 ^ 32 := by decide
  have wraps : u32 (target + 5 + (2 ^ 32 - 1)) = target + 4 := by
    unfold u32
    omega
  rw [storedHash, torn.length_of_blank place short, ← flashBytes_u32, wraps]
  exact flashBytes_blank (by unfold flashSha256Len; omega) fun x low high =>
    torn.erased x (by omega) (by unfold flashSha256Len at high; omega)

/-- With a header, flag and length are the source's. -/
theorem header_copied (torn : Torn original source target reached cleared cells)
    (long : 5 ≤ reached) : flagByte cells target = flagByte original source ∧
      codesLength cells target = codesLength original source := by
  have flag : flashBytes cells (target + 0) 1 = flashBytes original (source + 0) 1 :=
    flashBytes_part torn.copied (by omega)
  have length : flashBytes cells (target + 1) 4 = flashBytes original (source + 1) 4 :=
    flashBytes_part torn.copied (by omega)
  exact ⟨flag, congrArg leNat length⟩

/-- **A stored hash that is the source's** and not blank is the end of a complete copy. -/
theorem identical_of_hash (torn : Torn original source target reached cleared cells)
    (place : SlotPlace target size) (fits : Fits original source size) (long : 5 ≤ reached)
    (same : storedHash cells target = storedHash original source)
    (inked : storedHash original source ≠ List.replicate 32 blank) :
    Identical cells target original source := by
  obtain ⟨_, length⟩ := torn.header_copied long
  have image := place.image_le fits
  have onChip := place.onChip
  have covers := torn.covers long
  have whole : imageLength original source = 5 + codesLength original source + 32 := by
    unfold imageLength
    omega
  rw [storedHash, length] at same
  by_cases payload : 5 + codesLength original source ≤ reached
  · rw [Identical, whole, flashBytes_add cells target (5 + codesLength original source),
      flashBytes_add original source (5 + codesLength original source), ← Nat.add_assoc,
      ← Nat.add_assoc]
    have begun : flashBytes cells (target + 0) (5 + codesLength original source) =
        flashBytes original (source + 0) (5 + codesLength original source) :=
      flashBytes_part torn.copied (by omega)
    exact congrArg₂ (· ++ ·) begun same
  · refine absurd ?_ inked
    rw [← same]
    exact flashBytes_blank (by unfold flashSha256Len; omega) fun x low high =>
      torn.erased x (by omega) (by unfold flashSha256Len at high; omega)

end Torn

end Torn

/-! ### The invariant -/

/-- What every interrupted run keeps. -/
structure Bootable (hash : List Byte → Digest) (stage : Stage) (cells : Cells) : Prop where
  blocks : ∀ slot ∈ stage.slots, WholeBlocks cells slot hash stage.flashNextSize
  boots : Valid cells stage.flashAppAddr hash stage.flashNextSize ∨
    Valid cells stage.flashBakAddr hash stage.flashNextSize ∧
      storedHash cells stage.flashAppAddr ≠ storedHash cells stage.flashBakAddr ∧
      storedHash cells stage.flashBakAddr ≠ List.replicate 32 blank

section Invariant

variable {engines : Engines} {hash : List Byte → Digest} {stage : Stage}
  {original cells : Cells} {source target reached cleared size : Nat}

/-- A slot that keeps its image keeps whole blocks. -/
theorem Slot.Identical.wholeBlocks (same : Identical cells target original source)
    (blocks : WholeBlocks original source hash size) : WholeBlocks cells target hash size := by
  intro valid encrypted
  rw [same.length]
  exact blocks ((same.valid hash size).mp valid) (same.encrypted.mp encrypted)

/-- A torn copy of an image with whole blocks has whole blocks, if it is valid at all. -/
theorem Torn.wholeBlocks (torn : Torn original source target reached cleared cells)
    (place : SlotPlace target size) (valid : Valid original source hash size)
    (blocks : WholeBlocks original source hash size) : WholeBlocks cells target hash size := by
  intro valid' encrypted
  rcases torn.header with short | long
  · exact absurd valid' (torn.not_valid_of_blank place short hash)
  · obtain ⟨flag, length⟩ := torn.header_copied long
    rw [length]
    refine blocks valid ?_
    rwa [Encrypted, ← flag]

/-- **An interrupted restore keeps the invariant.** -/
theorem Torn.bootable (computes : engines.Computes hash) (before : Bootable hash stage original)
    (decided : decision engines.sha stage original = .restore source target)
    (torn : Torn original source target reached cleared cells)
    (kept : Identical cells source original source) : Bootable hash stage cells := by
  obtain ⟨accepts, _, sides⟩ := decision_restore decided
  have place := decision_place decided
  have valid := (accepts_iff_valid computes stage.appPlace.small).mp accepts
  have still := (kept.valid hash stage.flashNextSize).mpr valid
  rcases sides with ⟨rfl, rfl⟩ | ⟨rfl, rfl, invalid⟩
  · -- APP is the source: it stays valid
    have blocks := before.blocks stage.flashAppAddr (by simp [Stage.slots])
    refine ⟨fun slot member => ?_, Or.inl still⟩
    rcases List.mem_pair.mp member with rfl | rfl
    · exact kept.wholeBlocks blocks
    · exact torn.wholeBlocks place valid blocks
  · -- BAK is the source: it stays valid, and APP has another hash until it is a copy
    have blocks := before.blocks stage.flashBakAddr (by simp [Stage.slots])
    have inked : storedHash original stage.flashBakAddr ≠ List.replicate 32 blank := by
      rcases before.boots with app | ⟨_, _, inked⟩
      · exact absurd ((accepts_iff_valid computes stage.appPlace.small).mpr app) invalid
      · exact inked
    refine ⟨fun slot member => ?_, ?_⟩
    · rcases List.mem_pair.mp member with rfl | rfl
      · exact torn.wholeBlocks place valid blocks
      · exact kept.wholeBlocks blocks
    · by_cases same : storedHash cells stage.flashAppAddr = storedHash original stage.flashBakAddr
      · rcases torn.header with short | long
        · rw [torn.hash_of_blank place short] at same
          exact absurd same.symm inked
        · have copy := torn.identical_of_hash place valid.fits long same inked
          exact Or.inl ((copy.valid hash _).mpr valid)
      · rw [kept.hashes]
        exact Or.inr ⟨still, same, inked⟩

end Invariant

/-! ### Interrupted runs -/

/-- One run of `main`, from power-on to a power failure after `count` operations. Only the flash
cells are there before and after it. -/
def Interrupted (engines : Engines) (stage : Stage) (before after : Cells) : Prop :=
  ∃ (world : World) (count : Nat), world.chip.cells = before ∧ world.chip.log = [] ∧
    world.Silent ∧ after = (Prog.cut World.step count (main engines stage) world).chip.cells

/-- What a failure leaves of a program: a prefix of its commands was carried out. -/
theorem cut_commands {α : Type} (program : Firmware α) {world : World}
    (powerOn : world.chip.log = []) (count : Nat) :
    ∃ done, done <+: (world.run program).2.chip.log ∧
      (Prog.cut World.step count program world).chip.cells =
        replay chipGeometry done world.chip.cells := by
  have start : world.Replays world.chip.cells := by
    rw [World.Replays, powerOn]
    rfl
  have replays := Prog.cut_invariant World.step (World.Replays world.chip.cells)
    (fun world op before => world.step_replays op before) count program world start
  have grows := Prog.cut_below_run World.step
    (fun before after => before.chip.log <+: after.chip.log) (fun _ => List.prefix_rfl)
    (fun first second => first.trans second) World.step_log count program world
  exact ⟨_, grows, replays⟩

/-- What a failure leaves of a run of `main`: the cells as they were, or a torn copy of an accepted
slot in the other one. -/
theorem Interrupted.leaves {engines : Engines} {stage : Stage} {before after : Cells}
    (interrupted : Interrupted engines stage before after)
    (whole : WholeImages engines stage before) :
    after = before ∨ ∃ source target reached cleared,
      decision engines.sha stage before = .restore source target ∧
      Torn before source target reached cleared after ∧
      ∀ x, x < target ∨ target + stage.flashNextSize ≤ x → after x = before x := by
  obtain ⟨world, count, rfl, powerOn, silent, rfl⟩ := interrupted
  obtain ⟨done, isPrefix, state⟩ := cut_commands (main engines stage) powerOn count
  rw [state]
  have untouched (quiet : (world.run (main engines stage)).2.chip.log = world.chip.log) :
      replay chipGeometry done world.chip.cells = world.chip.cells := by
    rw [quiet, powerOn] at isPrefix
    rw [List.prefix_nil.mp isPrefix]
    rfl
  cases decided : decision engines.sha stage world.chip.cells with
  | boot =>
      obtain ⟨after, runs, checked⟩ := main_boots whole decided
      exact Or.inl (untouched (by rw [runs]; exact checked.log))
  | fail =>
      obtain ⟨after, runs, checked⟩ := main_fails whole decided
      exact Or.inl (untouched (by rw [runs]; exact checked.log))
  | restore source target =>
      obtain ⟨sectors, commands, after, runs, restores, bound, complete, _, log, _⟩ :=
        main_restores whole decided
      obtain ⟨accepts, _, _⟩ := decision_restore decided
      have place := decision_place decided
      have within := restores.within place accepts.fits bound
      rw [complete silent] at restores
      rw [runs, log, powerOn, List.nil_append] at isPrefix
      rcases restores.interrupted place accepts.fits isPrefix with same | ⟨reached, cleared, torn⟩
      · exact Or.inl same
      · exact Or.inr ⟨source, target, reached, cleared, rfl, torn, fun x far =>
          NorFlash.replay_outside (fun command member => within command (isPrefix.subset member))
            _ far⟩

/-- **Every interrupted run keeps the invariant.** -/
theorem Interrupted.bootable {engines : Engines} {hash : List Byte → Digest}
    (computes : engines.Computes hash) {stage : Stage} {before after : Cells}
    (interrupted : Interrupted engines stage before after)
    (bootable : Bootable hash stage before) : Bootable hash stage after := by
  rcases interrupted.leaves (wholeImages_of_valid computes bootable.blocks) with
    same | ⟨source, target, reached, cleared, decided, torn, outside⟩
  · rwa [same]
  · obtain ⟨accepts, _, _⟩ := decision_restore decided
    obtain ⟨sourcePlace, apart⟩ := decision_apart decided
    exact torn.bootable computes bootable decided (sourcePlace.keeps apart accepts.fits outside)

/-- And so does any number of them. -/
theorem bootable_after_failures {engines : Engines} {hash : List Byte → Digest}
    (computes : engines.Computes hash) {stage : Stage} {first last : Cells}
    (failures : Relation.ReflTransGen (Interrupted engines stage) first last)
    (bootable : Bootable hash stage first) : Bootable hash stage last := by
  induction failures with
  | refl => exact bootable
  | tail _ failure ih => exact failure.bootable computes ih

/-- **After any number of power failures** an uninterrupted run still boots. -/
theorem boots_after_power_failures (engines : Engines) (hash : List Byte → Digest)
    (computes : engines.Computes hash) (stage : Stage) (first last : Cells)
    (blocks : ∀ slot ∈ stage.slots, WholeBlocks first slot hash stage.flashNextSize)
    (inked : ∀ slot ∈ stage.slots, Valid first slot hash stage.flashNextSize →
      storedHash first slot ≠ List.replicate 32 blank)
    (world : World) (start : world.chip.cells = first)
    (boots : (world.run (main engines stage)).1 = some .goBoot)
    (failures : Relation.ReflTransGen (Interrupted engines stage) first last)
    (again : World) (resumed : again.chip.cells = last) :
    (again.run (main engines stage)).1 = some .goBoot := by
  subst start
  have bootable : Bootable hash stage world.chip.cells := by
    refine ⟨blocks, ?_⟩
    rcases (main_boots_iff computes blocks).mp boots with app | ⟨bak, different⟩
    · exact Or.inl app
    · exact Or.inr ⟨bak, different, inked _ (by simp [Stage.slots]) bak⟩
  have survived := bootable_after_failures computes failures bootable
  subst resumed
  refine (main_boots_iff computes survived.blocks).mpr (survived.boots.imp_right ?_)
  exact fun bak => ⟨bak.1, bak.2.1⟩

/-! ### A restore of APP, interrupted -/

/-- An image with whole blocks, when it is encrypted. -/
theorem Slot.Holds.wholeBlocks {cells : Cells} {slot size : Nat} {hash : List Byte → Digest}
    {flag : Byte} {codes : List Byte} (holds : Holds cells slot hash flag codes)
    (small : codes.length < 2 ^ 32) (blocks : flag &&& 1#8 = 1#8 → 16 ∣ codes.length) :
    WholeBlocks cells slot hash size := by
  obtain ⟨flagged, -, length, -, -⟩ := holds.parts small
  intro _ encrypted
  rw [Encrypted, flagged] at encrypted
  rw [length]
  exact blocks encrypted

/-- `nop` -/
def nopCodes : List Byte := [0x13, 0x00, 0x00, 0x00]

/-- BAK holds an image, APP is erased. -/
def bakOnlyCells : Cells :=
  writeRange (fun _ => blank) Stage.stage1.flashBakAddr (imageOf sha256 0 nopCodes)

theorem bakOnly_bak : Holds bakOnlyCells Stage.stage1.flashBakAddr sha256 0 nopCodes :=
  Holds.stored (by decide)

theorem bakOnly_app_length : codesLength bakOnlyCells Stage.stage1.flashAppAddr = 2 ^ 32 - 1 := by
  decide +kernel

/-- Neither slot is encrypted, as far as it is valid. -/
theorem bakOnly_blocks : ∀ slot ∈ Stage.stage1.slots,
    WholeBlocks bakOnlyCells slot sha256 Stage.stage1.flashNextSize := by
  intro slot member
  rcases List.mem_pair.mp member with rfl | rfl
  · intro valid
    have fits := valid.fits
    rw [Fits, bakOnly_app_length] at fits
    exact absurd fits (by decide)
  · exact bakOnly_bak.wholeBlocks (by decide) (by decide)

/-- The stored hash of BAK is not blank. -/
theorem bakOnly_inked : storedHash bakOnlyCells Stage.stage1.flashBakAddr ≠
    List.replicate 32 blank := by
  rw [(bakOnly_bak.parts (by decide)).2.2.2.2]
  decide +kernel

theorem bakOnly_boots :
    ((World.powerOn bakOnlyCells).run (main Engines.sample .stage1)).1 = some .goBoot := by
  refine (main_boots_iff Engines.sample_computes bakOnly_blocks).mpr (Or.inr
    ⟨bakOnly_bak.valid (by decide) (by decide), ?_⟩)
  have app : storedHash bakOnlyCells Stage.stage1.flashAppAddr = List.replicate 32 blank := by
    decide +kernel
  intro same
  exact bakOnly_inked (same.symm.trans app)

/-- A restore into `slot` that gets as far as the first 28 bytes of the hash. -/
def tornCommands (slot : Nat) : List Command :=
  [.erase slot, .program slot [0], .program (slot + 1) [4, 0, 0, 0],
    .program (slot + 5) (nopCodes ++ (sha256 (signedOf 0 nopCodes)).bytes.take 28)]

/-- The restore of APP, cut off after 120 operations. -/
def tornRestore : World :=
  Prog.cut World.step 120 (main Engines.sample .stage1) (World.powerOn bakOnlyCells)

/-- The hash of APP is torn, and the next run boots. -/
theorem boots_after_one_failure :
    tornRestore.chip.log = tornCommands Stage.stage1.flashAppAddr ∧
      ((World.powerOn tornRestore.chip.cells).run (main Engines.sample .stage1)).1 =
        some .goBoot := by
  refine ⟨by decide +kernel, boots_after_power_failures Engines.sample sha256
    Engines.sample_computes .stage1 bakOnlyCells _ bakOnly_blocks ?_ (World.powerOn bakOnlyCells)
    rfl bakOnly_boots
    (.single ⟨World.powerOn bakOnlyCells, 120, rfl, rfl, fun _ => by simp [World.powerOn], rfl⟩)
    _ rfl⟩
  intro slot member valid
  rcases List.mem_pair.mp member with rfl | rfl
  · have fits := valid.fits
    rw [Fits, bakOnly_app_length] at fits
    exact absurd fits (by decide)
  · exact bakOnly_inked

end K210Guard
