/-
**Image slots.**

An image in a slot is a flag, a length, a payload of that length and the hash of all of these. The
functions of `Slot` read them off the flash cells, with whatever length the slot holds.

* `Slot.Valid`: the length fits the slot and the stored hash is the hash of the rest.
* `Slot.Accepts`: what the loader's check computes of it with its own engine, in pieces.
* `Slot.Identical`: two slots agree on the whole of one's image; then they agree on every field.
-/

import K210Guard.Boot.Main

namespace K210Guard

open NorFlash (Cells)

/-! ### Reading the cells -/

/-- The bytes a read of the chip returns. -/
def flashBytes (cells : Cells) (addr length : Nat) : List Byte :=
  readRange (fun x => cells (x % chipSize)) addr length

@[simp] theorem flashBytes_length (cells : Cells) (addr length : Nat) :
    (flashBytes cells addr length).length = length := readRange_length _ _ _

theorem flashBytes_add (cells : Cells) (addr first second : Nat) :
    flashBytes cells addr (first + second) =
      flashBytes cells addr first ++ flashBytes cells (addr + first) second :=
  readRange_add _ _ _ _

/-- An address is taken modulo the chip's size, so its wrap at `2 ^ 32` does not matter. -/
@[simp] theorem flashBytes_u32 (cells : Cells) (addr length : Nat) :
    flashBytes cells (u32 addr) length = flashBytes cells addr length := by
  refine readRange_eq_iff.mpr fun index _ => congrArg cells ?_
  rw [Nat.add_mod, u32, Nat.mod_mod_of_dvd _ (by decide), ← Nat.add_mod]

theorem flashBytes_plain (cells : Cells) {addr length : Nat} (onChip : addr + length ≤ chipSize) :
    flashBytes cells addr length = readRange cells addr length :=
  readRange_congr fun _ _ high => congrArg cells (Nat.mod_eq_of_lt (by omega))

/-- A read elsewhere does not see what is stored. -/
theorem flashBytes_writeRange (cells : Cells) {addr length at' : Nat} {data : List Byte}
    (onChip : addr + length ≤ chipSize)
    (disjoint : addr + length ≤ at' ∨ at' + data.length ≤ addr) :
    flashBytes (writeRange cells at' data) addr length = flashBytes cells addr length := by
  rw [flashBytes_plain _ onChip, flashBytes_plain _ onChip,
    readRange_writeRange_disjoint _ disjoint]

/-- Reads of two flashes that agree agree on every part. -/
theorem flashBytes_part {cells other : Cells} {addr from' length offset count : Nat}
    (same : flashBytes cells addr length = flashBytes other from' length)
    (inside : offset + count ≤ length) :
    flashBytes cells (addr + offset) count = flashBytes other (from' + offset) count := by
  have cell := readRange_eq_iff.mp same
  refine readRange_eq_iff.mpr fun index bound => ?_
  rw [Nat.add_assoc, Nat.add_assoc]
  exact cell (offset + index) (by omega)

/-! ### The fields of an image -/

namespace Slot

variable (cells : Cells) (slot : Nat)

/-- The AES flag, a list of one byte as it is read. -/
def flagByte : List Byte := flashBytes cells slot 1

def lengthBytes : List Byte := flashBytes cells (slot + 1) 4

/-- The length field; nothing bounds it but its width. -/
def codesLength : Nat := leNat (lengthBytes cells slot)

def payload : List Byte := flashBytes cells (slot + 5) (codesLength cells slot)

/-- The hash field, at the place the length field points to. -/
def storedHash : List Byte := flashBytes cells (slot + 5 + codesLength cells slot) flashSha256Len

/-- The length of the whole image. -/
def imageLength : Nat := 37 + codesLength cells slot

/-- The header, and what follows it. -/
theorem imageLength_eq :
    imageLength cells slot = 5 + (codesLength cells slot + flashSha256Len) := by
  unfold imageLength flashSha256Len
  omega

/-- The header and the payload, which the hash is over. -/
def signedBytes : List Byte := flagByte cells slot ++ lengthBytes cells slot ++ payload cells slot

/-- Bit 0 of the flag. -/
def Encrypted : Prop := (flagByte cells slot).headD 0 &&& 1#8 = 1#8

instance : Decidable (Encrypted cells slot) := inferInstanceAs (Decidable (_ = _))

/-- The length field fits a slot of `size` bytes. -/
def Fits (size : Nat) : Prop := codesLength cells slot ≤ size - 37

instance (size : Nat) : Decidable (Fits cells slot size) := inferInstanceAs (Decidable (_ ≤ _))

/-- **A valid image**: the length fits and the stored hash is the hash of the rest. -/
structure Valid (hash : List Byte → Digest) (size : Nat) : Prop where
  fits : Fits cells slot size
  hashed : storedHash cells slot = (hash (signedBytes cells slot)).bytes

instance (hash : List Byte → Digest) (size : Nat) : Decidable (Valid cells slot hash size) :=
  decidable_of_iff
    (Fits cells slot size ∧ storedHash cells slot = (hash (signedBytes cells slot)).bytes)
    ⟨fun both => ⟨both.1, both.2⟩, fun valid => ⟨valid.fits, valid.hashed⟩⟩

/-- What the loader's check computes, with its own engine. -/
structure Accepts (sha : ShaEngine) (size : Nat) : Prop where
  fits : Fits cells slot size
  hashed : storedHash cells slot = (sha.digest (u32 (codesLength cells slot + 5))
    [flagByte cells slot, lengthBytes cells slot, payload cells slot]).bytes

instance (sha : ShaEngine) (size : Nat) : Decidable (Accepts cells slot sha size) :=
  decidable_of_iff (Fits cells slot size ∧ storedHash cells slot =
      (sha.digest (u32 (codesLength cells slot + 5))
        [flagByte cells slot, lengthBytes cells slot, payload cells slot]).bytes)
    ⟨fun both => ⟨both.1, both.2⟩, fun accepts => ⟨accepts.fits, accepts.hashed⟩⟩

/-- The plaintext of a payload. -/
def plaintext (aes : AesEngine) : List Byte :=
  if Encrypted cells slot then aes.decipher (payload cells slot) else payload cells slot

/-- The length of an encrypted image that is valid is a multiple of 16. -/
def WholeBlocks (hash : List Byte → Digest) (size : Nat) : Prop :=
  Valid cells slot hash size → Encrypted cells slot → 16 ∣ codesLength cells slot

@[simp] theorem payload_length : (payload cells slot).length = codesLength cells slot :=
  flashBytes_length _ _ _

@[simp] theorem storedHash_length : (storedHash cells slot).length = flashSha256Len :=
  flashBytes_length _ _ _

theorem codesLength_lt : codesLength cells slot < 2 ^ 32 := by
  have bound := leNat_lt (lengthBytes cells slot)
  rwa [lengthBytes, flashBytes_length] at bound

variable {cells slot}

/-- The pieces that the check hashes are the header and the payload. -/
theorem pieces_flatten :
    [flagByte cells slot, lengthBytes cells slot, payload cells slot].flatten =
      signedBytes cells slot := by
  simp [signedBytes]

theorem signedBytes_length : (signedBytes cells slot).length = codesLength cells slot + 5 := by
  rw [signedBytes, List.length_append, List.length_append, payload_length, flagByte, lengthBytes,
    flashBytes_length, flashBytes_length]
  omega

/-- An engine that computes the hash computes it of a slot whose length fits. -/
theorem digest_eq {engines : Engines} {hash : List Byte → Digest}
    (computes : engines.Computes hash) {size : Nat} (small : size ≤ chipSize)
    (fits : Fits cells slot size) :
    engines.sha.digest (u32 (codesLength cells slot + 5))
      [flagByte cells slot, lengthBytes cells slot, payload cells slot] =
      hash (signedBytes cells slot) := by
  have onChip : codesLength cells slot + 5 ≤ chipSize := by
    have room : 37 ≤ chipSize := by decide
    have bound : codesLength cells slot ≤ size - 37 := fits
    omega
  have total : u32 (codesLength cells slot + 5) =
      [flagByte cells slot, lengthBytes cells slot, payload cells slot].flatten.length := by
    rw [u32_of_onChip onChip, pieces_flatten, signedBytes_length]
  rw [total, computes, pieces_flatten]

/-- When the engine computes the hash, the check accepts the valid images. -/
theorem accepts_iff_valid {engines : Engines} {hash : List Byte → Digest}
    (computes : engines.Computes hash) {size : Nat} (small : size ≤ chipSize) :
    Accepts cells slot engines.sha size ↔ Valid cells slot hash size := by
  constructor
  · intro accepts
    exact ⟨accepts.fits, by rw [accepts.hashed, digest_eq computes small accepts.fits]⟩
  · intro valid
    exact ⟨valid.fits, by rw [valid.hashed, digest_eq computes small valid.fits]⟩

/-! ### Making an image -/

/-- The bytes that an image signs. -/
def signedOf (flag : Byte) (codes : List Byte) : List Byte :=
  flag :: leBytes 4 codes.length ++ codes

/-- An image made out of a flag and a payload. -/
def imageOf (hash : List Byte → Digest) (flag : Byte) (codes : List Byte) : List Byte :=
  signedOf flag codes ++ (hash (signedOf flag codes)).bytes

theorem imageOf_length (hash : List Byte → Digest) (flag : Byte) (codes : List Byte) :
    (imageOf hash flag codes).length = 37 + codes.length := by
  rw [imageOf, List.length_append, (hash _).size, signedOf, List.length_append, List.length_cons,
    leBytes_length]
  omega

/-- The slot holds an image made out of a flag and a payload. -/
def Holds (cells : Cells) (slot : Nat) (hash : List Byte → Digest) (flag : Byte)
    (codes : List Byte) : Prop :=
  flashBytes cells slot (37 + codes.length) = imageOf hash flag codes

namespace Holds

variable {hash : List Byte → Digest} {flag : Byte} {codes : List Byte}

/-- The parts of the image are where they are read. -/
theorem parts (holds : Holds cells slot hash flag codes) (small : codes.length < 2 ^ 32) :
    flagByte cells slot = [flag] ∧ lengthBytes cells slot = leBytes 4 codes.length ∧
      codesLength cells slot = codes.length ∧ payload cells slot = codes ∧
      storedHash cells slot = (hash (signedOf flag codes)).bytes := by
  have split : 37 + codes.length = 1 + 4 + codes.length + flashSha256Len := by
    unfold flashSha256Len
    omega
  rw [Holds, split, flashBytes_add, flashBytes_add, flashBytes_add] at holds
  change _ = [flag] ++ leBytes 4 codes.length ++ codes ++
    (hash (signedOf flag codes)).bytes at holds
  obtain ⟨signed, stored⟩ := List.append_inj holds (by simp; omega)
  obtain ⟨header, loaded⟩ := List.append_inj signed (by simp)
  obtain ⟨flagged, lengthed⟩ := List.append_inj header (by simp)
  have length : codesLength cells slot = codes.length := by
    rw [codesLength, lengthBytes, lengthed, leNat_leBytes]
    exact Nat.mod_eq_of_lt small
  refine ⟨flagged, lengthed, length, ?_, ?_⟩
  · rw [payload, length]
    exact loaded
  · rw [storedHash, length, Nat.add_assoc]
    exact stored

/-- A slot holds the image that was stored there. -/
theorem stored {before : Cells} (onChip : slot + (37 + codes.length) ≤ chipSize) :
    Holds (writeRange before slot (imageOf hash flag codes)) slot hash flag codes := by
  rw [Holds, flashBytes_plain _ onChip, ← imageOf_length hash flag codes,
    readRange_writeRange_self]

theorem valid (holds : Holds cells slot hash flag codes) {size : Nat}
    (fits : 37 + codes.length ≤ size) (small : codes.length < 2 ^ 32) :
    Valid cells slot hash size := by
  obtain ⟨flagged, lengthed, length, loaded, stored⟩ := holds.parts small
  refine ⟨?_, ?_⟩
  · rw [Fits, length]
    omega
  · rw [stored, signedBytes, flagged, lengthed, loaded, signedOf]
    rfl

end Holds

/-! ### Identical images -/

/-- Slot `copy` agrees with slot `slot` on the whole image that `slot` holds. -/
def Identical (cells : Cells) (copy : Nat) (original : Cells) (slot : Nat) : Prop :=
  flashBytes cells copy (imageLength original slot) =
    flashBytes original slot (imageLength original slot)

instance (cells original : Cells) (copy slot : Nat) :
    Decidable (Identical cells copy original slot) := inferInstanceAs (Decidable (_ = _))

namespace Identical

variable {original : Cells} {copy : Nat}

theorem flag (same : Identical cells copy original slot) :
    flagByte cells copy = flagByte original slot := by
  have part : flashBytes cells (copy + 0) 1 = flashBytes original (slot + 0) 1 :=
    flashBytes_part same (by unfold imageLength; omega)
  exact part

theorem lengthField (same : Identical cells copy original slot) :
    lengthBytes cells copy = lengthBytes original slot :=
  flashBytes_part same (by unfold imageLength; omega)

theorem length (same : Identical cells copy original slot) :
    codesLength cells copy = codesLength original slot :=
  congrArg leNat same.lengthField

theorem payloads (same : Identical cells copy original slot) :
    payload cells copy = payload original slot := by
  unfold payload
  rw [same.length]
  exact flashBytes_part same (by unfold imageLength; omega)

theorem hashes (same : Identical cells copy original slot) :
    storedHash cells copy = storedHash original slot := by
  unfold storedHash
  rw [same.length, Nat.add_assoc, Nat.add_assoc]
  exact flashBytes_part same (by unfold imageLength flashSha256Len; omega)

theorem signed (same : Identical cells copy original slot) :
    signedBytes cells copy = signedBytes original slot := by
  unfold signedBytes
  rw [same.flag, same.lengthField, same.payloads]

theorem valid (same : Identical cells copy original slot) (hash : List Byte → Digest)
    (size : Nat) : Valid cells copy hash size ↔ Valid original slot hash size := by
  constructor
  · intro valid
    exact ⟨by rw [Fits, ← same.length]; exact valid.fits,
      by rw [← same.hashes, ← same.signed]; exact valid.hashed⟩
  · intro valid
    exact ⟨by rw [Fits, same.length]; exact valid.fits,
      by rw [same.hashes, same.signed]; exact valid.hashed⟩

theorem encrypted (same : Identical cells copy original slot) :
    Encrypted cells copy ↔ Encrypted original slot := by
  rw [Encrypted, Encrypted, same.flag]

end Identical

end Slot

end K210Guard
