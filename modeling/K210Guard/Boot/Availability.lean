/-
**When the loader boots.**

`main_boots_iff`: with an engine that computes the hash, `main` boots when APP is valid, or when BAK
is valid and the stored hashes differ. A valid BAK alone is not enough: when the stored hashes agree
the code looks at the check of APP only, and a damaged length field of APP can make both reads meet
the same 32 bytes (`crossedCells`). `boots_of_valid_iff` says exactly which flash contents with a
valid image boot.
-/

import K210Guard.Boot.MainSpec

namespace K210Guard

open NorFlash (Cells)
open Slot

section Hash

variable {engines : Engines} {hash : List Byte → Digest} {stage : Stage} {cells : Cells}

/-- The valid encrypted images have whole blocks, so the accepted ones have. -/
theorem wholeImages_of_valid (computes : engines.Computes hash)
    (blocks : ∀ slot ∈ stage.slots, WholeBlocks cells slot hash stage.flashNextSize) :
    WholeImages engines stage cells := by
  intro slot member accepts
  exact blocks slot member ((accepts_iff_valid computes stage.appPlace.small).mp accepts)

/-- The decision in terms of valid images. -/
theorem decision_of_valid (computes : engines.Computes hash) :
    decision engines.sha stage cells =
      if storedHash cells stage.flashAppAddr = storedHash cells stage.flashBakAddr then
        if Valid cells stage.flashAppAddr hash stage.flashNextSize then .boot else .fail
      else if Valid cells stage.flashAppAddr hash stage.flashNextSize then
        .restore stage.flashAppAddr stage.flashBakAddr
      else if Valid cells stage.flashBakAddr hash stage.flashNextSize then
        .restore stage.flashBakAddr stage.flashAppAddr
      else .fail := by
  unfold decision
  simp only [accepts_iff_valid computes stage.appPlace.small]

/-- **`main` boots** when APP is valid, or BAK is and the stored hashes differ. -/
theorem main_boots_iff (computes : engines.Computes hash) {world : World}
    (blocks : ∀ slot ∈ stage.slots, WholeBlocks world.chip.cells slot hash stage.flashNextSize) :
    (world.run (main engines stage)).1 = some .goBoot ↔
      Valid world.chip.cells stage.flashAppAddr hash stage.flashNextSize ∨
        Valid world.chip.cells stage.flashBakAddr hash stage.flashNextSize ∧
          storedHash world.chip.cells stage.flashAppAddr ≠
            storedHash world.chip.cells stage.flashBakAddr := by
  rw [main_goBoot_iff (wholeImages_of_valid computes blocks), decision_of_valid computes]
  split_ifs with same app app' bak
  · exact iff_of_true (by simp) (Or.inl app)
  · refine iff_of_false (by simp) ?_
    rintro (app' | ⟨_, different⟩)
    · exact app app'
    · exact different same
  · exact iff_of_true (by simp) (Or.inl app')
  · exact iff_of_true (by simp) (Or.inr ⟨bak, same⟩)
  · refine iff_of_false (by simp) ?_
    rintro (app | ⟨bak', _⟩)
    · exact app' app
    · exact bak bak'

end Hash

/-- **Which flash contents with a valid image boot**: all but those where only BAK is valid and the
stored hashes agree. -/
theorem boots_of_valid_iff (engines : Engines) (hash : List Byte → Digest)
    (computes : engines.Computes hash) (stage : Stage) (world : World)
    (blocks : ∀ slot ∈ stage.slots, WholeBlocks world.chip.cells slot hash stage.flashNextSize) :
    ((∃ slot ∈ stage.slots, Valid world.chip.cells slot hash stage.flashNextSize) →
        (world.run (main engines stage)).1 = some .goBoot) ↔
      Valid world.chip.cells stage.flashAppAddr hash stage.flashNextSize ∨
        ¬ Valid world.chip.cells stage.flashBakAddr hash stage.flashNextSize ∨
          storedHash world.chip.cells stage.flashAppAddr ≠
            storedHash world.chip.cells stage.flashBakAddr := by
  have either : (∃ slot ∈ stage.slots, Valid world.chip.cells slot hash stage.flashNextSize) ↔
      Valid world.chip.cells stage.flashAppAddr hash stage.flashNextSize ∨
        Valid world.chip.cells stage.flashBakAddr hash stage.flashNextSize := by
    simp [Stage.slots]
  rw [either, main_boots_iff computes blocks]
  constructor
  · intro boots
    by_cases app : Valid world.chip.cells stage.flashAppAddr hash stage.flashNextSize
    · exact Or.inl app
    · by_cases bak : Valid world.chip.cells stage.flashBakAddr hash stage.flashNextSize
      · rcases boots (Or.inr bak) with app' | ⟨_, different⟩
        · exact Or.inl app'
        · exact Or.inr (Or.inr different)
      · exact Or.inr (Or.inl bak)
  · rintro (app | bak | different) (app' | bak')
    · exact Or.inl app
    · exact Or.inl app
    · exact Or.inl app'
    · exact absurd bak' bak
    · exact Or.inl app'
    · exact Or.inr ⟨bak', different⟩

/-! ### Crossed slots -/

/-- BAK holds an empty valid image; the length field of APP is just so large that its stored hash
is read from BAK. -/
def crossedCells : Cells :=
  writeRange (writeRange (fun _ => NorFlash.blank) Stage.stage1.flashAppAddr
    (0 :: leBytes 4 (Stage.stage1.flashBakAddr - Stage.stage1.flashAppAddr)))
    Stage.stage1.flashBakAddr (imageOf sha256 0 [])

theorem crossed_bak : Holds crossedCells Stage.stage1.flashBakAddr sha256 0 [] :=
  Holds.stored (by decide)

theorem crossed_length : codesLength crossedCells Stage.stage1.flashAppAddr = 0x10000 := by
  decide +kernel

/-- Neither slot is encrypted. -/
theorem crossed_plain : ∀ slot ∈ Stage.stage1.slots, ¬ Encrypted crossedCells slot := by
  intro slot member
  rcases List.mem_pair.mp member with rfl | rfl
  · decide +kernel
  · rw [Encrypted, (crossed_bak.parts (by decide)).1]
    decide

theorem crossed_hashes : storedHash crossedCells Stage.stage1.flashAppAddr =
    storedHash crossedCells Stage.stage1.flashBakAddr := by
  rw [storedHash, storedHash, crossed_length, (crossed_bak.parts (by decide)).2.2.1]
  rfl

/-- The assumptions of `boots_of_valid_iff` are met there. -/
theorem boots_of_valid_iff_crossed :
    ((∃ slot ∈ Stage.stage1.slots, Valid crossedCells slot sha256 Stage.stage1.flashNextSize) →
        ((World.powerOn crossedCells).run (main Engines.sample .stage1)).1 = some .goBoot) ↔
      Valid crossedCells Stage.stage1.flashAppAddr sha256 Stage.stage1.flashNextSize ∨
        ¬ Valid crossedCells Stage.stage1.flashBakAddr sha256 Stage.stage1.flashNextSize ∨
          storedHash crossedCells Stage.stage1.flashAppAddr ≠
            storedHash crossedCells Stage.stage1.flashBakAddr :=
  boots_of_valid_iff Engines.sample sha256 Engines.sample_computes .stage1
    (World.powerOn crossedCells) fun slot member _ encrypted =>
      absurd encrypted (crossed_plain slot member)

/-- **Crossed slots do not boot**, though BAK is valid. -/
theorem crossed_fails :
    Engines.sample.Computes sha256 ∧ (World.powerOn crossedCells).Silent ∧
      (∀ slot ∈ Stage.stage1.slots,
        WholeBlocks crossedCells slot sha256 Stage.stage1.flashNextSize) ∧
      (∃ slot ∈ Stage.stage1.slots,
        Valid crossedCells slot sha256 Stage.stage1.flashNextSize) ∧
      ((World.powerOn crossedCells).run (main Engines.sample .stage1)).1 ≠ some .goBoot := by
  have blocks : ∀ slot ∈ Stage.stage1.slots,
      WholeBlocks crossedCells slot sha256 Stage.stage1.flashNextSize :=
    fun slot member _ encrypted => absurd encrypted (crossed_plain slot member)
  have app : ¬ Valid crossedCells Stage.stage1.flashAppAddr sha256
      Stage.stage1.flashNextSize := by
    intro valid
    have fits := valid.fits
    rw [Fits, crossed_length] at fits
    exact absurd fits (by decide)
  refine ⟨Engines.sample_computes, fun _ => by simp [World.powerOn], blocks,
    ⟨_, by simp [Stage.slots], crossed_bak.valid (by decide) (by decide)⟩, ?_⟩
  rw [ne_eq, main_boots_iff Engines.sample_computes blocks]
  rintro (valid | ⟨_, different⟩)
  · exact app valid
  · exact different crossed_hashes

end K210Guard
