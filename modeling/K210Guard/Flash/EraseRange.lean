/-
**What a successful erase erases** (`do_flash_erase`).

The erase command sends the low 24 bits of each sector address and does not compare the end of its
range with the size of the chip: past the top it goes on at address 0.

* `erased_iff` — the cells erased by a call that returns 0: the sectors of the range, with their
  addresses wrapped.
* `doFlashErase_erasesItsRange_iff` — they are the sectors that cover the range if and only if the
  range ends on the chip.
* `topErase_eats_loader` — a range over the top: the sector of the first stage is erased.
-/

import K210Guard.Flash.Commands

namespace K210Guard

open NorFlash (Command erases)

/-! ### The cells of a call -/

/-- A cell erased by one of the commands that the chip has carried out in between. -/
def World.ErasedUntil (before after : World) (x : Nat) : Prop :=
  ∃ addr, Command.erase addr ∈ after.chip.log.drop before.chip.log.length ∧
    x / 4096 = addr / 4096

/-- The smallest union of sectors that covers `[offset, offset + length)`. -/
def InCoveringSectors (offset length x : Nat) : Prop :=
  ∃ y, offset ≤ y ∧ y < offset + length ∧ x / 4096 = y / 4096

/-- A call that returns 0 erases the sectors that cover its range and nothing below it. -/
def World.ErasesItsRange (world : World) (offset length : Nat) : Prop :=
  ∀ after, world.run (doFlashErase offset length) = (some 0, after) →
    (∀ x, world.ErasedUntil after x ↔ InCoveringSectors offset length x) ∧
    ∀ x < offset, ¬ world.ErasedUntil after x

/-- The commands after a world are the ones to look at. -/
theorem World.After.erasedUntil_iff {before after : World} {commands : List Command}
    (done : before.After commands after) (x : Nat) :
    before.ErasedUntil after x ↔
      ∃ addr, Command.erase addr ∈ commands ∧ x / 4096 = addr / 4096 := by
  unfold World.ErasedUntil
  rw [done.log, List.drop_left]

/-- A sector erase of a list of them. -/
theorem mem_sectorErases {offset count addr : Nat} :
    Command.erase addr ∈ sectorErases offset 0 count ↔
      ∃ index < count, u32 (4096 * index + offset) % chipSize = addr := by
  simp only [sectorErases, List.mem_map, List.mem_range, Command.erase.injEq, Nat.zero_add]

/-- **What a successful call has erased.** -/
theorem erased_iff {offset length : Nat} {world after : World}
    (runs : world.run (doFlashErase offset length) = (some 0, after)) (x : Nat) :
    world.ErasedUntil after x ↔ ∃ index < sectorCount length,
      x / 4096 = u32 (4096 * index + offset) % chipSize / 4096 := by
  obtain ⟨result, other, otherRuns, -, success⟩ := doFlashErase_result offset length world
  rw [runs] at otherRuns
  obtain ⟨same, -⟩ := Prod.mk.inj otherRuns
  obtain ⟨aligned, positive, -⟩ := success.mp (Option.some.inj same).symm
  obtain ⟨count, answer, stopped, loopRuns, erased, -, -, outcome⟩ :=
    eraseSectors_run offset 0 (sectorCount length) world.unlocked
  rw [doFlashErase_loop aligned positive, loopRuns] at runs
  obtain ⟨answered, rfl⟩ := Prod.mk.inj runs
  have zero : answer = 0 := Option.some.inj answered
  have all : count = sectorCount length := by
    rcases outcome with ⟨-, all, -⟩ | ⟨failed, -, -⟩
    · exact all
    · exact absurd (failed.symm.trans zero) (by decide)
  rw [((World.After.unlocked world).trans erased).erasedUntil_iff, List.nil_append, all]
  constructor
  · rintro ⟨addr, member, same⟩
    obtain ⟨index, bound, rfl⟩ := mem_sectorErases.mp member
    exact ⟨index, bound, same⟩
  · rintro ⟨index, bound, same⟩
    exact ⟨_, mem_sectorErases.mpr ⟨index, bound, rfl⟩, same⟩

/-! ### When they are the range -/

/-- The sectors of an aligned range are the ones that cover it. -/
theorem inCoveringSectors_iff {offset length : Nat} (aligned : offset % 4096 = 0) (x : Nat) :
    InCoveringSectors offset length x ↔
      ∃ index < sectorCount length, x / 4096 = (4096 * index + offset) / 4096 := by
  unfold sectorCount
  constructor
  · rintro ⟨y, above, below, same⟩
    exact ⟨(y - offset) / 4096, by omega, by omega⟩
  · rintro ⟨index, bound, same⟩
    exact ⟨4096 * index + offset, by omega, by omega, same⟩

/-- No sector address of a range on the chip wraps. -/
theorem sectorAddress_onChip {offset length index : Nat} (aligned : offset % 4096 = 0)
    (onChip : offset + length ≤ chipSize) (bound : index < sectorCount length) :
    u32 (4096 * index + offset) % chipSize = 4096 * index + offset := by
  have low : 4096 * index + offset < chipSize := by
    unfold sectorCount at bound
    simp only [chipSize] at onChip ⊢
    omega
  rw [u32, Nat.mod_eq_of_lt (lt_trans low (by decide)), Nat.mod_eq_of_lt low]

/-- **Erase range**: a call that returns 0 erases what it should if and only if its range ends on
the chip. -/
theorem doFlashErase_erasesItsRange_iff (world : World) (offset length : Nat) :
    world.ErasesItsRange offset length ↔
      (offset % 4096 = 0 ∧ length ≠ 0 ∧ world.Undisturbed (sectorCount length) →
        offset + length ≤ 2 ^ 24) := by
  obtain ⟨result, after, runs, -, success⟩ := doFlashErase_result offset length world
  constructor
  · intro erases good
    obtain rfl := success.mpr good
    by_contra beyond
    -- the last byte of the range lies in no sector of the chip
    have last : InCoveringSectors offset length (offset + length - 1) :=
      ⟨offset + length - 1, by omega, by omega, rfl⟩
    obtain ⟨index, -, same⟩ := (erased_iff runs _).mp (((erases after runs).1 _).mpr last)
    have low := Nat.mod_lt (u32 (4096 * index + offset)) (show 0 < 2 ^ 24 by decide)
    rw [show chipSize = 2 ^ 24 from rfl] at same
    omega
  · intro fits other otherRuns
    rw [runs] at otherRuns
    obtain ⟨same, rfl⟩ := Prod.mk.inj otherRuns
    obtain rfl : result = 0 := Option.some.inj same
    have good := success.mp rfl
    have exact' : ∀ x, world.ErasedUntil after x ↔ InCoveringSectors offset length x := by
      intro x
      rw [erased_iff runs, inCoveringSectors_iff good.1]
      constructor
      · rintro ⟨index, bound, sector⟩
        rw [sectorAddress_onChip good.1 (fits good) bound] at sector
        exact ⟨index, bound, sector⟩
      · rintro ⟨index, bound, sector⟩
        refine ⟨index, bound, ?_⟩
        rw [sectorAddress_onChip good.1 (fits good) bound]
        exact sector
    refine ⟨exact', fun x below erased => ?_⟩
    obtain ⟨y, above, -, sector⟩ := (exact' x).mp erased
    have aligned := good.1
    omega

/-- Two sectors from the last one on: the second is the sector of the first stage. -/
theorem topErase_eats_loader :
    ¬ (World.powerOn fun _ => 0x00#8).ErasesItsRange 0xFFF000 0x2000 := by
  intro erases
  obtain ⟨result, after, runs, -, success⟩ :=
    doFlashErase_result 0xFFF000 0x2000 (World.powerOn fun _ => 0x00#8)
  obtain rfl := success.mpr ⟨rfl, by decide, fun _ _ => by simp [World.powerOn]⟩
  exact (erases after runs).2 0 (by decide) ((erased_iff runs 0).mpr ⟨1, by decide, by decide⟩)

end K210Guard
