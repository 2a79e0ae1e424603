/-
**When a boot leaves two good copies.**

A restore leaves the two slots with the same valid image (`restore_redundant`). But the code
restores only when the stored hashes differ: when a slot rots outside its hash field, APP boots and
the damage stays (`rottedCells`). `redundant_iff` says exactly which flash contents end with two
good copies whenever `main` boots.
-/

import K210Guard.Boot.Availability

namespace K210Guard

open NorFlash (Cells)
open Slot

/-- Both slots hold valid images, the same over header, payload and hash. -/
structure Redundant (hash : List Byte → Digest) (stage : Stage) (cells : Cells) : Prop where
  app : Valid cells stage.flashAppAddr hash stage.flashNextSize
  bak : Valid cells stage.flashBakAddr hash stage.flashNextSize
  same : Identical cells stage.flashBakAddr cells stage.flashAppAddr

section Restore

variable {engines : Engines} {hash : List Byte → Digest} {stage : Stage} {world : World}

/-- Two copies of one image are identical to each other. -/
theorem Slot.Identical.of_copies {cells original : Cells} {first second slot : Nat}
    (copy : Identical cells first original slot) (other : Identical cells second original slot) :
    Identical cells first cells second := by
  have length : imageLength cells second = imageLength original slot := by
    rw [imageLength, imageLength, other.length]
  rw [Identical, length]
  exact copy.trans other.symm

/-- **A restore that no Ctrl-C interrupts** leaves two good copies. -/
theorem restore_redundant (computes : engines.Computes hash)
    (whole : WholeImages engines stage world.chip.cells) (silent : world.Silent)
    {source target : Nat}
    (decided : decision engines.sha stage world.chip.cells = .restore source target) :
    ∃ after, world.run (main engines stage) = (some .goBoot, after) ∧
      Redundant hash stage after.chip.cells := by
  obtain ⟨count, commands, after, runs, restores, bound, complete, cells, _, _⟩ :=
    main_restores whole decided
  obtain ⟨accepts, _, sides⟩ := decision_restore decided
  obtain ⟨sourcePlace, apart⟩ := decision_apart decided
  have place := decision_place decided
  have within := restores.within place accepts.fits bound
  have valid := (accepts_iff_valid computes stage.appPlace.small).mp accepts
  have kept : Identical after.chip.cells source world.chip.cells source := by
    refine sourcePlace.keeps apart accepts.fits fun x far => ?_
    rw [cells, NorFlash.replay_outside within _ far]
  have copied : Identical after.chip.cells target world.chip.cells source := by
    rw [cells]
    rw [complete silent] at restores
    exact restores.identical place accepts.fits _
  refine ⟨after, runs, ?_⟩
  rcases sides with ⟨rfl, rfl⟩ | ⟨rfl, rfl, _⟩
  · exact ⟨(kept.valid hash _).mpr valid, (copied.valid hash _).mpr valid, copied.of_copies kept⟩
  · exact ⟨(copied.valid hash _).mpr valid, (kept.valid hash _).mpr valid, kept.of_copies copied⟩

end Restore

/-- **Which flash contents end with two good copies**: those where APP is invalid, or the stored
hashes differ, or the slots were the same from the start. -/
theorem redundant_iff (engines : Engines) (hash : List Byte → Digest)
    (computes : engines.Computes hash) (stage : Stage) (world : World) (silent : world.Silent)
    (blocks : ∀ slot ∈ stage.slots, WholeBlocks world.chip.cells slot hash stage.flashNextSize) :
    ((world.run (main engines stage)).1 = some .goBoot →
        Redundant hash stage (world.run (main engines stage)).2.chip.cells) ↔
      ¬ Valid world.chip.cells stage.flashAppAddr hash stage.flashNextSize ∨
        storedHash world.chip.cells stage.flashAppAddr ≠
          storedHash world.chip.cells stage.flashBakAddr ∨
        Identical world.chip.cells stage.flashBakAddr world.chip.cells stage.flashAppAddr := by
  have whole := wholeImages_of_valid computes blocks
  have table := @decision_of_valid engines hash stage world.chip.cells computes
  cases decided : decision engines.sha stage world.chip.cells with
  | boot =>
      obtain ⟨after, runs, checked⟩ := main_boots whole decided
      rw [runs, checked.cells]
      rw [decided] at table
      split_ifs at table with same app
      constructor
      · intro redundant
        exact Or.inr (Or.inr (redundant rfl).same)
      · rintro (invalid | different | identical) _
        · exact absurd app invalid
        · exact absurd same different
        · exact ⟨app, (identical.valid hash _).mpr app, identical⟩
  | restore source target =>
      obtain ⟨after, runs, redundant⟩ := restore_redundant computes whole silent decided
      rw [runs]
      exact iff_of_true (fun _ => redundant) (Or.inr (Or.inl (decision_restore decided).2.1))
  | fail =>
      obtain ⟨after, runs, _⟩ := main_fails whole decided
      rw [runs]
      rw [decided] at table
      split_ifs at table with same app app' bak
      · exact iff_of_true (fun boots => by simp at boots) (Or.inl app)
      · exact iff_of_true (fun boots => by simp at boots) (Or.inl app')

/-! ### A rotted flag -/

/-- Both slots hold the same empty image. -/
def twinCells : Cells :=
  writeRange (writeRange (fun _ => NorFlash.blank) Stage.stage1.flashAppAddr (imageOf sha256 0 []))
    Stage.stage1.flashBakAddr (imageOf sha256 0 [])

/-- The same, but bit 1 of the flag of BAK has rotted. -/
def rottedCells : Cells := writeRange twinCells Stage.stage1.flashBakAddr [2]

theorem twin_bak : Holds twinCells Stage.stage1.flashBakAddr sha256 0 [] :=
  Holds.stored (by decide)

theorem rotted_app : Holds rottedCells Stage.stage1.flashAppAddr sha256 0 [] := by
  rw [Holds, rottedCells, flashBytes_writeRange _ (by decide) (Or.inl (by decide)), twinCells,
    flashBytes_writeRange _ (by decide) (Or.inl (by decide))]
  exact Holds.stored (by decide)

theorem rotted_hashes : storedHash rottedCells Stage.stage1.flashAppAddr =
    storedHash rottedCells Stage.stage1.flashBakAddr := by
  have length : codesLength rottedCells Stage.stage1.flashBakAddr = 0 := by decide +kernel
  have twin : codesLength twinCells Stage.stage1.flashBakAddr = 0 :=
    (twin_bak.parts (by decide)).2.2.1
  have bak : storedHash rottedCells Stage.stage1.flashBakAddr =
      storedHash twinCells Stage.stage1.flashBakAddr := by
    rw [storedHash, storedHash, length, twin]
    exact flashBytes_writeRange _ (by decide) (Or.inr (by decide))
  rw [bak, (twin_bak.parts (by decide)).2.2.2.2, (rotted_app.parts (by decide)).2.2.2.2]

/-- Neither slot is encrypted. -/
theorem rotted_plain : ∀ slot ∈ Stage.stage1.slots, ¬ Encrypted rottedCells slot := by
  intro slot member
  rcases List.mem_pair.mp member with rfl | rfl
  · rw [Encrypted, (rotted_app.parts (by decide)).1]
    decide
  · decide +kernel

theorem rotted_different : ¬ Identical rottedCells Stage.stage1.flashBakAddr rottedCells
    Stage.stage1.flashAppAddr := by
  intro same
  have flags := same.flag
  rw [(rotted_app.parts (by decide)).1] at flags
  exact absurd flags (by decide +kernel)

/-- The assumptions of `redundant_iff` are met there. -/
theorem redundant_iff_rotted :
    (((World.powerOn rottedCells).run (main Engines.sample .stage1)).1 = some .goBoot →
        Redundant sha256 .stage1
          ((World.powerOn rottedCells).run (main Engines.sample .stage1)).2.chip.cells) ↔
      ¬ Valid rottedCells Stage.stage1.flashAppAddr sha256 Stage.stage1.flashNextSize ∨
        storedHash rottedCells Stage.stage1.flashAppAddr ≠
          storedHash rottedCells Stage.stage1.flashBakAddr ∨
        Identical rottedCells Stage.stage1.flashBakAddr rottedCells Stage.stage1.flashAppAddr :=
  redundant_iff Engines.sample sha256 Engines.sample_computes .stage1
    (World.powerOn rottedCells) (fun _ => by simp [World.powerOn]) fun slot member _ encrypted =>
      absurd encrypted (rotted_plain slot member)

/-- **A rotted flag stays**: `main` boots, and BAK is not the image of APP. -/
theorem rotted_stays :
    Engines.sample.Computes sha256 ∧ (World.powerOn rottedCells).Silent ∧
      (∀ slot ∈ Stage.stage1.slots,
        WholeBlocks rottedCells slot sha256 Stage.stage1.flashNextSize) ∧
      ((World.powerOn rottedCells).run (main Engines.sample .stage1)).1 = some .goBoot ∧
      ¬ Redundant sha256 .stage1
          ((World.powerOn rottedCells).run (main Engines.sample .stage1)).2.chip.cells := by
  have blocks : ∀ slot ∈ Stage.stage1.slots,
      WholeBlocks rottedCells slot sha256 Stage.stage1.flashNextSize :=
    fun slot member _ encrypted => absurd encrypted (rotted_plain slot member)
  have valid : Valid rottedCells Stage.stage1.flashAppAddr sha256 Stage.stage1.flashNextSize :=
    rotted_app.valid (by decide) (by decide)
  have decided : decision Engines.sample.sha .stage1 rottedCells = .boot := by
    rw [decision_of_valid Engines.sample_computes, if_pos rotted_hashes, if_pos valid]
  obtain ⟨after, runs, checked⟩ := @main_boots Engines.sample .stage1
    (World.powerOn rottedCells) (wholeImages_of_valid Engines.sample_computes blocks) decided
  refine ⟨Engines.sample_computes, fun _ => by simp [World.powerOn], blocks, by rw [runs], ?_⟩
  rw [runs, checked.cells]
  exact fun redundant => rotted_different redundant.same

end K210Guard
