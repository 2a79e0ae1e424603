/-
**The image tools** (`utils/genimg.py`, `utils/genimg_whole.py`).

Both scripts have the same `genimgfile`, which pads a binary and puts a header and a hash around
it; they differ in what they put the images after. A result `none` is an exception, raised before
the output file is opened.

* `genimgfile_eq`: the image of a padded binary that fits the length field.
* `holds_flashed`: a flash that starts with a file holds what the file has at a place.
-/

import K210Guard.Boot.Slot

namespace K210Guard

open NorFlash (Cells)
open Slot

/-! ### The code -/

/-- `struct.pack('I', value)`, which raises an exception for a value of more than 4 bytes. -/
def structPackI (value : Nat) : Option (List Byte) :=
  if value < 2 ^ 32 then some (leBytes 4 value) else none

/-- `bytearray(b'\xff') * count`: nothing for a negative count. -/
def filler (count : Int) : List Byte := List.replicate count.toNat 0xFF#8

/-- The binary after the 64-byte alignment. -/
def aligned (firmwareBin : List Byte) : List Byte :=
  let padLen := (firmwareBin.length + 37) % 64
  if padLen ≠ 0 then firmwareBin ++ List.replicate (64 - padLen) 0 else firmwareBin

def genimgfile (firmwareBin : List Byte) : Option (List Byte) := do
  let firmwareLen ← structPackI (aligned firmwareBin).length
  let data := [0x00#8] ++ firmwareLen ++ aligned firmwareBin
  pure (data ++ (sha256 data).bytes)

/-- `genimg.py`: the file it writes. -/
def genimg (loader1Bin loader2Bin : List Byte) : Option (List Byte) := do
  let loader1Img ← genimgfile loader1Bin
  let loader2Img ← genimgfile loader2Bin
  pure (loader1Img ++ filler (64 * 1024 - loader1Img.length) ++ loader2Img ++
    filler (64 * 1024 - loader2Img.length) ++ loader2Img)

/-- `genimg_whole.py`: the file it writes. -/
def genimgWhole (loaderImg appBin : List Byte) : Option (List Byte) := do
  let appImg ← genimgfile appBin
  pure (loaderImg ++ filler (3 * 64 * 1024 - loaderImg.length) ++ appImg ++
    filler (320 * 1024 - appImg.length) ++ appImg)

/-! ### The images -/

/-- The padded binary makes a whole number of blocks together with header and hash. -/
theorem aligned_length (firmwareBin : List Byte) :
    ((aligned firmwareBin).length + 37) % 64 = 0 := by
  unfold aligned
  simp only
  split
  · rw [List.length_append, List.length_replicate]
    omega
  · omega

/-- The padding is zeros behind the binary, fewer than a block. -/
theorem aligned_eq (firmwareBin : List Byte) :
    ∃ zeros < 64, aligned firmwareBin = firmwareBin ++ List.replicate zeros 0 := by
  unfold aligned
  simp only
  split
  · exact ⟨_, by omega, rfl⟩
  · exact ⟨0, by omega, (List.append_nil _).symm⟩

/-- So the binary grows by less than a block. -/
theorem aligned_length_bounds (firmwareBin : List Byte) :
    firmwareBin.length ≤ (aligned firmwareBin).length ∧
      (aligned firmwareBin).length < firmwareBin.length + 64 := by
  obtain ⟨zeros, few, same⟩ := aligned_eq firmwareBin
  rw [same, List.length_append, List.length_replicate]
  omega

/-- The image of a binary. -/
def imageFile (firmwareBin : List Byte) : List Byte := imageOf sha256 0 (aligned firmwareBin)

@[simp] theorem imageFile_length (firmwareBin : List Byte) :
    (imageFile firmwareBin).length = 37 + (aligned firmwareBin).length :=
  imageOf_length _ _ _

theorem genimgfile_eq (firmwareBin : List Byte) :
    genimgfile firmwareBin =
      if (aligned firmwareBin).length < 2 ^ 32 then some (imageFile firmwareBin) else none := by
  unfold genimgfile structPackI
  split <;> rfl

@[simp] theorem filler_length (count : Int) : (filler count).length = count.toNat :=
  List.length_replicate

/-! ### Flashing a file -/

/-- A flash that starts with a file and is erased behind it. -/
def flashed (file : List Byte) : Cells := writeRange (fun _ => NorFlash.blank) 0 file

theorem flashBytes_flashed {before piece after : List Byte} {place : Nat}
    (starts : before.length = place) (onChip : place + piece.length ≤ chipSize) :
    flashBytes (flashed (before ++ piece ++ after)) place piece.length = piece := by
  rw [flashed, writeRange_append, writeRange_append, Nat.zero_add, starts,
    flashBytes_writeRange _ onChip (Or.inl (by rw [List.length_append, starts]; omega)),
    flashBytes_plain _ onChip, readRange_writeRange_self]

/-- **A flash that starts with a file** holds the image that the file has at a place. -/
theorem holds_flashed {before after firmwareBin : List Byte} {place : Nat}
    (starts : before.length = place)
    (onChip : place + (imageFile firmwareBin).length ≤ chipSize) :
    Holds (flashed (before ++ imageFile firmwareBin ++ after)) place sha256 0
      (aligned firmwareBin) := by
  have bytes := @flashBytes_flashed before (imageFile firmwareBin) after place starts onChip
  rwa [imageFile_length] at bytes

end K210Guard
