/-
**What the check and the comparison do.**

* `flashImageCheck_run`: the check answers `checkResult` and leaves `loadedImage` in RAM; the flash
  cells stay as they are.
* `flashImageCheck_stuck`: on an accepted encrypted image whose length is no multiple of 16 the
  decryption never ends; the flash cells stay as they are here too.
* `flashImageCompare_run`: the comparison is 0 exactly when the two stored hashes agree.
-/

import K210Guard.Boot.Slot
import K210Guard.Flash.Reading

namespace K210Guard

open NorFlash (Cells)
open Slot

/-! ### Worlds that differ by what was loaded -/

theorem load_run (world : World) (addr length : Nat) :
    world.run (Bus.issue (.load addr length)) =
      (some (readRange world.ram addr length), world) := rfl

/-- The world with the OTP key output on or off. -/
def World.gated (world : World) (otpKeyOutput : Bool) : World :=
  { world with otpKeyOutput := otpKeyOutput }

theorem gate_run (world : World) (otpKeyOutput : Bool) :
    world.run (Bus.issue (.setOtpKeyOutput otpKeyOutput)) =
      (some (), world.gated otpKeyOutput) := rfl

/-- After an image was loaded: it is in RAM, and the flash is as before. -/
structure World.Loaded (before : World) (boot : Nat) (image : List Byte) (after : World) :
    Prop where
  cells : after.chip.cells = before.chip.cells
  log : after.chip.log = before.chip.log
  received : after.uart.received = before.uart.received
  driver : after.driver = quadDriver
  ram : after.ram = writeRange before.ram boot image

theorem World.Loaded.broughtUp (world : World) (boot : Nat) :
    world.Loaded boot [] world.broughtUp :=
  ⟨by simp, by simp, by simp, rfl, by simp⟩

theorem World.Loaded.stored (world : World) (boot : Nat) (image : List Byte) :
    world.Loaded boot image (world.broughtUp.stored boot image) :=
  ⟨by simp [World.stored], by simp [World.stored], by simp [World.stored], rfl,
    by simp [World.stored]⟩

theorem World.Loaded.gated {before after : World} {boot : Nat} {image : List Byte}
    (loaded : before.Loaded boot image after) (otpKeyOutput : Bool) :
    before.Loaded boot image (after.gated otpKeyOutput) :=
  ⟨loaded.cells, loaded.log, loaded.received, loaded.driver, loaded.ram⟩

/-- A longer image stored at the same place hides the first one. -/
theorem World.Loaded.covered {before after : World} {boot : Nat} {image other : List Byte}
    (loaded : before.Loaded boot image after) (covers : image.length ≤ other.length) :
    before.Loaded boot other (after.stored boot other) where
  cells := loaded.cells
  log := loaded.log
  received := loaded.received
  driver := loaded.driver
  ram := by
    show writeRange after.ram boot other = _
    rw [loaded.ram, writeRange_covered _ _ covers]

/-- A read once the flash is brought up. -/
theorem flashReadData_up (world : World) (spi3 : world.driver = quadDriver) (addr length : Nat) :
    world.run (flashReadData addr length .quadSingle) =
      (some (flashBytes world.chip.cells addr length), world) :=
  flashReadData_run world addr length .quadSingle (spi3.symm ▸ quadDriver_onSpi3)

/-! ### The decryption loop -/

/-- The loop asks for RAM and for the OTP gate only. -/
def Bus.OnRam : Bus → Prop
  | .load .. | .store .. | .getOtpKeyOutput => True
  | _ => False

theorem decipherLoop_onRam (aes : AesEngine) (rounds : Nat) (previous : List Byte)
    (ptr length : Nat) : Prog.Issues Bus.OnRam (decipherLoop aes rounds previous ptr length) := by
  induction rounds generalizing previous ptr length with
  | zero => exact .spin
  | succ rounds ih =>
      rw [decipherLoop]
      split
      · refine Prog.Issues.bind (Prog.Issues.perform trivial) fun block => ?_
        refine Prog.Issues.bind ?_ fun aesOutput => ?_
        · exact Prog.Issues.bind (Prog.Issues.perform trivial) fun otpKey => .pure _
        · exact Prog.Issues.bind (Prog.Issues.perform trivial) fun _ => ih _ _ _
      · exact .pure ()

/-- Such operations leave everything but RAM alone. -/
theorem World.step_onRam (world : World) (op : Bus) (onRam : op.OnRam) :
    (world.step op).2.chip = world.chip := by
  cases op with
  | load | store | getOtpKeyOutput => rfl
  | _ => exact onRam.elim

/-- A length that is no multiple of 16 never reaches 0. -/
theorem decipherLoop_stuck (aes : AesEngine) (rounds : Nat) (previous : List Byte)
    (ptr length : Nat) (ragged : ¬ 16 ∣ length) (small : length < 2 ^ 32) (world : World) :
    ∃ after, world.run (decipherLoop aes rounds previous ptr length) = (none, after) := by
  induction rounds generalizing previous ptr length world with
  | zero => exact ⟨world, rfl⟩
  | succ rounds ih =>
      have positive : length > 0 := by omega
      rw [decipherLoop, if_pos positive]
      exact ih _ _ (u32 (length + 2 ^ 32 - 16)) (by unfold u32; omega) (by unfold u32; omega) _

/-- **The loop decrypts in place.** -/
theorem decipherLoop_run (aes : AesEngine) (count rounds : Nat) (enough : count < rounds)
    (small : 16 * count < 2 ^ 32) (previous : List Byte) (first : previous.length = 16) (ptr : Nat)
    (world : World) (otpKey : world.otpKeyOutput = true) :
    world.run (decipherLoop aes rounds previous ptr (16 * count)) =
      (some (), world.stored ptr (cbcDecrypt (aes.decryptBlock true) count previous
        (readRange world.ram ptr (16 * count)))) := by
  induction count generalizing rounds previous ptr world with
  | zero =>
      obtain ⟨rounds, rfl⟩ : ∃ fewer, rounds = fewer + 1 := ⟨rounds - 1, by omega⟩
      rw [decipherLoop, if_neg (by omega)]
      simp [World.stored, cbcDecrypt]
  | succ count ih =>
      obtain ⟨rounds, rfl⟩ : ∃ fewer, rounds = fewer + 1 := ⟨rounds - 1, by omega⟩
      have next : u32 (16 * (count + 1) + 2 ^ 32 - 16) = 16 * count := by unfold u32; omega
      have block16 : (readRange world.ram ptr 16).length = 16 := readRange_length _ _ _
      have output16 : (cbcBlock (aes.decryptBlock true) previous
          (readRange world.ram ptr 16)).length = 16 :=
        cbcBlock_length (aes.decryptBlock_length true) first block16
      have data : readRange world.ram ptr (16 * (count + 1)) =
          readRange world.ram ptr 16 ++ readRange world.ram (ptr + 16) (16 * count) := by
        rw [← readRange_add, Nat.mul_succ, Nat.add_comm 16]
      have unread : readRange (writeRange world.ram ptr (cbcBlock (aes.decryptBlock true) previous
          (readRange world.ram ptr 16))) (ptr + 16) (16 * count) =
          readRange world.ram (ptr + 16) (16 * count) :=
        readRange_writeRange_disjoint _ (Or.inr (by omega))
      rw [decipherLoop, if_pos (by omega), next, data, cbcDecrypt, List.take_left' block16,
        List.drop_left' block16]
      have decrypted : world.run (aesProcess aes previous (readRange world.ram ptr 16)) =
          (some (cbcBlock (aes.decryptBlock true) previous (readRange world.ram ptr 16)),
            world) := by
        show (some (cbcBlock (aes.decryptBlock world.otpKeyOutput) _ _), world) = _
        rw [otpKey]
      refine (World.run_bind_of_eq (load_run world ptr 16)).trans ?_
      refine (World.run_bind_of_eq decrypted).trans ?_
      refine (World.run_bind_of_eq (store_run world ptr _)).trans ?_
      have rest := ih rounds (by omega) (by omega) (readRange world.ram ptr 16) block16 (ptr + 16)
        (world.stored ptr (cbcBlock (aes.decryptBlock true) previous (readRange world.ram ptr 16)))
        otpKey
      refine rest.trans (congrArg (fun ram => (some (), { world with ram := ram })) ?_)
      show writeRange (writeRange world.ram ptr _) (ptr + 16) (cbcDecrypt _ count _
        (readRange (writeRange world.ram ptr _) (ptr + 16) (16 * count))) = _
      rw [unread, writeRange_append, output16]

/-! ### The check -/

/-- What the check answers. -/
def checkResult (sha : ShaEngine) (size : Nat) (cells : Cells) (slot : Nat) : Int :=
  if Fits cells slot size then
    if Accepts cells slot sha size then 0 else -exitReasonSha256Flash
  else -exitReasonOversize

/-- What the check leaves at the boot address. -/
def loadedImage (engines : Engines) (size : Nat) (cells : Cells) (slot : Nat) : List Byte :=
  if Fits cells slot size then
    if Accepts cells slot engines.sha size then plaintext cells slot engines.aes
    else payload cells slot
  else []

/-- The check answers 0 exactly when it accepts. -/
theorem checkResult_eq_zero {sha : ShaEngine} {size : Nat} {cells : Cells} {slot : Nat} :
    checkResult sha size cells slot = 0 ↔ Accepts cells slot sha size := by
  unfold checkResult
  split
  · split
    · simp_all
    · simp_all [exitReasonSha256Flash]
  · rename_i oversize
    exact iff_of_false (by decide) fun accepts => oversize accepts.fits

section Check

variable (engines : Engines) (slot boot size : Nat) (world : World)

/-- The end of the check, after the payload is in RAM. -/
def verdict : Firmware Int :=
  if storedHash world.chip.cells slot ≠
      (engines.sha.digest (u32 (codesLength world.chip.cells slot + 5))
        [flagByte world.chip.cells slot, lengthBytes world.chip.cells slot,
          payload world.chip.cells slot]).bytes then
    pure (-exitReasonSha256Flash)
  else if Encrypted world.chip.cells slot then do
    Bus.issue (.setOtpKeyOutput true)
    decipherLoop engines.aes (2 ^ 28) zeroIv boot (codesLength world.chip.cells slot)
    Bus.issue (.setOtpKeyOutput false)
    pure 0
  else pure 0

/-- An image whose length fits is loaded before its hash is checked. -/
theorem flashImageCheck_load (fits : Fits world.chip.cells slot size) :
    world.run (flashImageCheck engines slot boot size) =
      (world.broughtUp.stored boot (payload world.chip.cells slot)).run
        (verdict engines slot boot world) := by
  have up : world.broughtUp.driver = quadDriver := rfl
  have cells : world.broughtUp.chip.cells = world.chip.cells := by simp
  unfold flashImageCheck
  rw [flashBringUp_run]
  refine (World.run_bind_of_eq (flashReadData_up _ up _ _)).trans ?_
  refine (World.run_bind_of_eq (flashReadData_up _ up _ _)).trans ?_
  rw [flashBytes_u32, cells]
  have bound : ¬ leNat (flashBytes world.chip.cells (slot + 1) 4) >
      size - 1 - 4 - flashSha256Len := by
    have fits' : leNat (flashBytes world.chip.cells (slot + 1) 4) ≤ size - 37 := fits
    unfold flashSha256Len
    omega
  rw [if_neg bound]
  refine (World.run_bind_of_eq (flashReadData_up _ up _ _)).trans ?_
  rw [flashBytes_u32, cells]
  refine (World.run_bind_of_eq
    (store_run world.broughtUp boot (payload world.chip.cells slot))).trans ?_
  refine (World.run_bind_of_eq (flashReadData_up _ rfl _ _)).trans ?_
  have hashed : readRange (world.broughtUp.stored boot (payload world.chip.cells slot)).ram boot
      (codesLength world.chip.cells slot) = payload world.chip.cells slot := by
    have stored := readRange_writeRange_self world.broughtUp.ram boot
      (payload world.chip.cells slot)
    rwa [payload_length] at stored
  refine (World.run_bind_of_eq (load_run _ boot (codesLength world.chip.cells slot))).trans ?_
  rw [hashed, flashBytes_u32, show (world.broughtUp.stored boot
    (payload world.chip.cells slot)).chip.cells = world.chip.cells from cells]
  rfl

/-- An image whose length does not fit is not loaded. -/
theorem flashImageCheck_oversize (oversize : ¬ Fits world.chip.cells slot size) :
    world.run (flashImageCheck engines slot boot size) =
      (some (-exitReasonOversize), world.broughtUp) := by
  have up : world.broughtUp.driver = quadDriver := rfl
  have cells : world.broughtUp.chip.cells = world.chip.cells := by simp
  unfold flashImageCheck
  rw [flashBringUp_run]
  refine (World.run_bind_of_eq (flashReadData_up _ up _ _)).trans ?_
  refine (World.run_bind_of_eq (flashReadData_up _ up _ _)).trans ?_
  rw [flashBytes_u32, cells]
  have bound : leNat (flashBytes world.chip.cells (slot + 1) 4) >
      size - 1 - 4 - flashSha256Len := by
    have oversize' : ¬ leNat (flashBytes world.chip.cells (slot + 1) 4) ≤ size - 37 := oversize
    unfold flashSha256Len
    omega
  rw [if_pos bound]
  rfl

/-- The payload in RAM is decrypted in place. -/
theorem deciphered (count : Nat) (whole : codesLength world.chip.cells slot = 16 * count) :
    ∃ after, (world.broughtUp.stored boot (payload world.chip.cells slot)).run (do
        Bus.issue (.setOtpKeyOutput true)
        decipherLoop engines.aes (2 ^ 28) zeroIv boot (codesLength world.chip.cells slot)
        Bus.issue (.setOtpKeyOutput false)
        pure (0 : Int)) = (some 0, after) ∧
      world.Loaded boot (engines.aes.decipher (payload world.chip.cells slot)) after := by
  have small := codesLength_lt world.chip.cells slot
  have length16 : (payload world.chip.cells slot).length = 16 * count := by
    rw [payload_length, whole]
  have loaded : readRange (writeRange world.broughtUp.ram boot (payload world.chip.cells slot)) boot
      (16 * count) = payload world.chip.cells slot := by
    rw [← length16, readRange_writeRange_self]
  have plain : cbcDecrypt (engines.aes.decryptBlock true) count zeroIv
      (payload world.chip.cells slot) = engines.aes.decipher (payload world.chip.cells slot) := by
    rw [AesEngine.decipher, length16, Nat.mul_div_cancel_left _ (by decide)]
  have covers : (payload world.chip.cells slot).length ≤
      (engines.aes.decipher (payload world.chip.cells slot)).length := by
    rw [engines.aes.decipher_length (length16 ▸ Nat.dvd_mul_right 16 count)]
  have runs := decipherLoop_run engines.aes count (2 ^ 28) (by omega) (by omega) zeroIv rfl boot
    ((world.broughtUp.stored boot (payload world.chip.cells slot)).gated true) rfl
  rw [show ((world.broughtUp.stored boot (payload world.chip.cells slot)).gated true).ram =
    writeRange world.broughtUp.ram boot (payload world.chip.cells slot) from rfl, loaded, plain,
    ← whole] at runs
  exact ⟨_, (World.run_bind_of_eq (gate_run _ true)).trans (World.run_bind_of_eq runs),
    (((World.Loaded.stored world boot _).gated true).covered covers).gated false⟩

/-- **The check** answers `checkResult` and leaves `loadedImage` in RAM. -/
theorem flashImageCheck_run
    (blocks : Accepts world.chip.cells slot engines.sha size →
      Encrypted world.chip.cells slot → 16 ∣ codesLength world.chip.cells slot) :
    ∃ after, world.run (flashImageCheck engines slot boot size) =
        (some (checkResult engines.sha size world.chip.cells slot), after) ∧
      world.Loaded boot (loadedImage engines size world.chip.cells slot) after := by
  by_cases fits : Fits world.chip.cells slot size
  · rw [flashImageCheck_load engines slot boot size world fits, checkResult, loadedImage,
      if_pos fits, if_pos fits, verdict]
    by_cases accepts : Accepts world.chip.cells slot engines.sha size
    · rw [if_neg (not_not.mpr accepts.hashed), if_pos accepts, if_pos accepts, plaintext]
      by_cases encrypted : Encrypted world.chip.cells slot
      · obtain ⟨count, whole⟩ := blocks accepts encrypted
        obtain ⟨after, runs, loaded⟩ := deciphered engines slot boot world count whole
        rw [if_pos encrypted, if_pos encrypted]
        exact ⟨after, runs, loaded⟩
      · rw [if_neg encrypted, if_neg encrypted]
        exact ⟨_, rfl, World.Loaded.stored world boot _⟩
    · have different := fun same => accepts ⟨fits, same⟩
      rw [if_pos different, if_neg accepts, if_neg accepts]
      exact ⟨_, rfl, World.Loaded.stored world boot _⟩
  · rw [flashImageCheck_oversize engines slot boot size world fits, checkResult, loadedImage,
      if_neg fits, if_neg fits]
    exact ⟨_, rfl, World.Loaded.broughtUp world boot⟩

/-- **A check that never ends** leaves the flash alone. -/
theorem flashImageCheck_stuck (accepts : Accepts world.chip.cells slot engines.sha size)
    (encrypted : Encrypted world.chip.cells slot)
    (ragged : ¬ 16 ∣ codesLength world.chip.cells slot) :
    ∃ after, world.run (flashImageCheck engines slot boot size) = (none, after) ∧
      after.chip.cells = world.chip.cells ∧ after.chip.log = world.chip.log := by
  have loop := decipherLoop_stuck engines.aes (2 ^ 28) zeroIv boot _ ragged
    (codesLength_lt world.chip.cells slot)
  have quiet := (decipherLoop_onRam engines.aes (2 ^ 28) zeroIv boot
    (codesLength world.chip.cells slot)).frame World.step_onRam
  obtain ⟨after, runs⟩ := loop ((world.broughtUp.stored boot
    (payload world.chip.cells slot)).gated true)
  have same := quiet ((world.broughtUp.stored boot (payload world.chip.cells slot)).gated true)
  rw [show Prog.run World.step _ _ = _ from runs] at same
  refine ⟨after, ?_, by rw [same]; simp [World.stored, World.gated],
    by rw [same]; simp [World.stored, World.gated]⟩
  rw [flashImageCheck_load engines slot boot size world accepts.fits, verdict,
    if_neg (not_not.mpr accepts.hashed), if_pos encrypted]
  exact (World.run_bind_of_eq (gate_run _ true)).trans (World.run_bind_of_none runs)

end Check

/-! ### The comparison -/

theorem memcmp_eq_zero {first second : List Byte} (lengths : first.length = second.length) :
    memcmp first second = 0 ↔ first = second := by
  induction first generalizing second with
  | nil =>
      have empty : second = [] := List.length_eq_zero_iff.mp lengths.symm
      subst empty
      exact iff_of_true rfl rfl
  | cons value rest ih =>
      obtain ⟨other, tail, rfl⟩ := List.exists_cons_of_length_eq_add_one lengths.symm
      rw [memcmp]
      by_cases same : value = other
      · rw [if_pos same, ih (by simpa using lengths), same]
        simp
      · have apart : value.toNat ≠ other.toNat := fun equal => same (BitVec.eq_of_toNat_eq equal)
        rw [if_neg same]
        refine iff_of_false (by omega) fun equal => same ?_
        exact (List.cons.inj equal).1

/-- **The comparison** looks at the two stored hashes only. -/
theorem flashImageCompare_run (world : World) (spi3 : world.driver = quadDriver)
    (slot1 slot2 : Nat) :
    ∃ different : Int, world.run (flashImageCompare slot1 slot2) = (some different, world) ∧
      (different = 0 ↔
        storedHash world.chip.cells slot1 = storedHash world.chip.cells slot2) := by
  refine ⟨memcmp (storedHash world.chip.cells slot1) (storedHash world.chip.cells slot2), ?_,
    memcmp_eq_zero (by simp)⟩
  unfold flashImageCompare
  refine (World.run_bind_of_eq (flashReadData_up _ spi3 _ _)).trans ?_
  refine (World.run_bind_of_eq (flashReadData_up _ spi3 _ _)).trans ?_
  refine (World.run_bind_of_eq (flashReadData_up _ spi3 _ _)).trans ?_
  refine (World.run_bind_of_eq (flashReadData_up _ spi3 _ _)).trans ?_
  simp only [flashBytes_u32]
  rfl

end K210Guard
