/-
**The ROM image script** (`utils/adjhex.py`).

It pads a binary with zeros to whole words of 8 bytes and prints them in hexadecimal digits, one
word a line behind a line with the address; with `--ecc` each word is followed by 8 check bits. The
standard input is a list of bytes, the standard output a text.
-/

import K210Guard.Memory.LittleEndian
import K210Guard.Text.Hex

namespace K210Guard

/-! ### The code -/

/-- `ecc_table` -/
def eccTable : List Nat := [
  0xCE, 0xCB, 0xD3, 0xD5, 0xD6, 0xD9, 0xDA, 0xDC,
  0x23, 0x25, 0x26, 0x29, 0x2A, 0x2C, 0x31, 0x34,
  0x0E, 0x0B, 0x13, 0x15, 0x16, 0x19, 0x1A, 0x1C,
  0xE3, 0xE5, 0xE6, 0xE9, 0xEA, 0xEC, 0xF1, 0xF4,
  0x4F, 0x4A, 0x52, 0x54, 0x57, 0x58, 0x5B, 0x5D,
  0xA2, 0xA4, 0xA7, 0xA8, 0xAB, 0xAD, 0xB0, 0xB5,
  0x8F, 0x8A, 0x92, 0x94, 0x97, 0x98, 0x9B, 0x9D,
  0x62, 0x64, 0x67, 0x68, 0x6B, 0x6D, 0x70, 0x75]

/-- The body of the loop of `ecc`. -/
def eccStep (word ecc i : Nat) : Nat :=
  if word &&& 1 <<< i ≠ 0 then ecc ^^^ eccTable.getD i 0 else ecc

def ecc (word : Nat) : Nat := (List.range 64).foldl (eccStep word) 0x0C

end K210Guard
