/-
**When the check ends, and what it leaves behind.**

`CheckEnds` asks three things of `flash_image_check`: it returns, it writes RAM only inside the
payload rounded up to whole AES blocks, and it leaves the OTP key output off when it found it off.
The decryption loop takes 16 from the length until nothing is left; nothing checks that the length
is a multiple of 16, so `checkEnds_iff`: the check ends for all images but the accepted encrypted
ones with a ragged length. `raggedCells` holds one: an encrypted payload padded as
`genimg_single.py` pads it.
-/

import K210Guard.Boot.CheckSpec

namespace K210Guard

open NorFlash (Cells)
open Slot

/-- A length rounded up to whole AES blocks. -/
def blockCeil (length : Nat) : Nat := (length + 15) / 16 * 16

theorem le_blockCeil (length : Nat) : length ≤ blockCeil length := by
  unfold blockCeil
  omega

/-- The check returns, writes RAM only inside the payload rounded up to whole blocks, and leaves the
OTP key output off when it was off. -/
def CheckEnds (engines : Engines) (slot boot size : Nat) (world : World) : Prop :=
  ∃ result after, world.run (flashImageCheck engines slot boot size) = (some result, after) ∧
    (∀ x, x < boot ∨ boot + blockCeil (codesLength world.chip.cells slot) ≤ x →
      after.ram x = world.ram x) ∧
    (world.otpKeyOutput = false → after.otpKeyOutput = false)

section Check

variable (engines : Engines) (slot boot size : Nat) (world : World)

/-- What the check leaves in RAM is no longer than the payload. -/
theorem loadedImage_length {cells : Cells}
    (blocks : Accepts cells slot engines.sha size → Encrypted cells slot →
      16 ∣ codesLength cells slot) :
    (loadedImage engines size cells slot).length ≤ codesLength cells slot := by
  unfold loadedImage
  split
  · split
    · rename_i fits accepts
      unfold plaintext
      split
      · rename_i encrypted
        rw [engines.aes.decipher_length (by
          rw [payload_length]
          exact blocks accepts encrypted), payload_length]
      · exact (payload_length cells slot).le
    · exact (payload_length cells slot).le
  · exact Nat.zero_le _

/-- The end of the check closes the gate again when it has opened it. -/
theorem verdict_otpKeyOutput {before after : World} {result : Int}
    (returned : before.run (verdict engines slot boot world) = (some result, after))
    (off : before.otpKeyOutput = false) : after.otpKeyOutput = false := by
  unfold verdict at returned
  split at returned
  · cases returned
    exact off
  · split at returned
    · obtain ⟨_, opened, _, returned⟩ := Prog.run_bind_inv _ returned
      obtain ⟨_, deciphered, _, returned⟩ := Prog.run_bind_inv _ returned
      obtain ⟨_, closed, gate, returned⟩ := Prog.run_bind_inv _ returned
      cases returned
      cases gate
      rfl
    · cases returned
      exact off

/-- **A check that returns leaves the OTP key output off** when it was off. -/
theorem flashImageCheck_otpKeyOutput {after : World} {result : Int}
    (returned : world.run (flashImageCheck engines slot boot size) = (some result, after))
    (off : world.otpKeyOutput = false) : after.otpKeyOutput = false := by
  have up : world.broughtUp.otpKeyOutput = false := by rw [World.broughtUp_otpKeyOutput, off]
  by_cases fits : Fits world.chip.cells slot size
  · rw [flashImageCheck_load engines slot boot size world fits] at returned
    exact verdict_otpKeyOutput engines slot boot world returned up
  · rw [flashImageCheck_oversize engines slot boot size world fits] at returned
    cases returned
    exact up

/-- **When the check ends**: always, but for an accepted encrypted image whose length is no multiple
of 16. -/
theorem checkEnds_iff :
    CheckEnds engines slot boot size world ↔
      (Accepts world.chip.cells slot engines.sha size → Encrypted world.chip.cells slot →
        16 ∣ codesLength world.chip.cells slot) := by
  constructor
  · rintro ⟨result, after, returned, _⟩ accepts encrypted
    by_contra ragged
    obtain ⟨stuck, never, _⟩ :=
      flashImageCheck_stuck engines slot boot size world accepts encrypted ragged
    rw [never] at returned
    cases returned
  · intro blocks
    obtain ⟨after, returned, loaded⟩ := flashImageCheck_run engines slot boot size world blocks
    refine ⟨_, after, returned, fun x outside => ?_,
      flashImageCheck_otpKeyOutput engines slot boot size world returned⟩
    have length := loadedImage_length engines slot size blocks
    have ceil := le_blockCeil (codesLength world.chip.cells slot)
    rw [loaded.ram]
    exact writeRange_outside _ (by omega)

end Check

/-! ### A ragged image -/

/-- APP holds an encrypted image whose payload is an empty binary padded to 27 bytes. -/
def raggedCells : Cells :=
  writeRange (fun _ => NorFlash.blank) Stage.stage1.flashAppAddr
    (imageOf sha256 1 (List.replicate 27 0))

theorem ragged_app : Holds raggedCells Stage.stage1.flashAppAddr sha256 1 (List.replicate 27 0) :=
  Holds.stored (by decide)

/-- **The check of a ragged image does not end.** -/
theorem ragged_checks_on : ¬ CheckEnds Engines.sample Stage.stage1.flashAppAddr Stage.stage1.boot
    Stage.stage1.flashNextSize (World.powerOn raggedCells) := by
  obtain ⟨flag, _, length, _⟩ := ragged_app.parts (by decide)
  have accepts : Accepts raggedCells Stage.stage1.flashAppAddr Engines.sample.sha
      Stage.stage1.flashNextSize :=
    (accepts_iff_valid Engines.sample_computes (by decide)).mpr
      (ragged_app.valid (by decide) (by decide))
  have encrypted : Encrypted raggedCells Stage.stage1.flashAppAddr := by
    rw [Encrypted, flag]
    decide
  rintro ⟨result, after, returned, _⟩
  obtain ⟨stuck, never, _⟩ := flashImageCheck_stuck Engines.sample Stage.stage1.flashAppAddr
    Stage.stage1.boot Stage.stage1.flashNextSize (World.powerOn raggedCells) accepts encrypted
    (by
      show ¬ 16 ∣ codesLength raggedCells Stage.stage1.flashAppAddr
      rw [length]
      decide)
  rw [never] at returned
  cases returned

end K210Guard
