/-
**The text of a dump** (`print_buffer`, `cli/command.c`).

A row is an address, up to sixteen bytes in columns of three characters, and the same bytes as text.
`readDump` reads such a text by its columns; `readDump_text` says that it finds the rows again.
-/

import K210Guard.Printf.ReadBack
import K210Guard.Text.Hex

namespace K210Guard

open Printf (charOf textOf digitsOf digitByte)

/-! ### Writing -/

/-- A number to base 16, with zeros up to a width. -/
def hexText (uc : Bool) (width n : Nat) : List Byte := List.leftpad width 0x30 (textOf 16 uc n)

/-- A byte in its column. -/
def column (byte : Byte) : List Byte := 0x20 :: hexText false 2 byte.toNat

/-- A byte as text. -/
def asciiByte (byte : Byte) : Byte := BitVec.ofNat 8 (asciiChar byte).toNat

/-- A row without its newline. -/
def rowBody (row : Nat × List Byte) : List Byte :=
  hexText true 8 row.1 ++ 0x3A :: (row.2.flatMap column ++
    List.replicate ((16 - row.2.length) * 3) 0x20 ++ List.replicate 4 0x20 ++ row.2.map asciiByte)

def rowText (row : Nat × List Byte) : List Byte := rowBody row ++ [0x0A]

/-! ### Reading -/

/-- A row, by its columns. -/
def readRow (line : List Char) : Nat × List Byte :=
  (simpleStrtoul (line.take 8) 16,
    ((groups 3 ((line.drop 9).take 48)).filter (· ≠ [' ', ' ', ' '])).map fun piece =>
      BitVec.ofNat 8 (simpleStrtoul (piece.drop 1) 16))

/-- A text of rows. -/
def readDump (text : List Byte) : List (Nat × List Byte) :=
  (textLines (text.map charOf)).map readRow

/-! ### The columns -/

section Hex

variable {uc : Bool} {width n : Nat}

theorem hexText_length (positive : 0 < width) (fits : n < 16 ^ width) :
    (hexText uc width n).length = width := by
  rw [hexText, List.length_leftpad, textOf, List.length_map, digitsOf]
  refine max_eq_left ?_
  split
  · exact positive
  · rw [List.length_reverse]
    exact (Nat.digits_length_le_iff (by decide) n).mpr fits

/-- **The digits are read back.** -/
theorem strtoul_hexText (fits : n < 2 ^ 64) :
    simpleStrtoul ((hexText uc width n).map charOf) 16 = n := by
  have below := Printf.digitsOf_lt (by decide : 1 < 16) n
  have reads := Printf.read_digitsOf 16 n
  have text : (hexText uc width n).map charOf = (List.replicate (width - (textOf 16 uc n).length)
      0x30 ++ (digitsOf 16 n).map (digitByte uc) ++ List.replicate 0 0x20).map charOf := by
    simp [hexText, List.leftpad, textOf]
  rw [text, simpleStrtoul, Printf.parseIntegerFixupRadix_plain (by decide)
    (Printf.padded_plain (le_refl 16) uc below _ 0)]
  exact Printf.strtoulDigits_padded (le_refl 16) uc fits below reads (by decide) _ 0

/-- The characters of a number are digits. -/
theorem mem_hexText {byte : Byte} (member : byte ∈ hexText uc width n) :
    ∃ d < 16, byte = digitByte uc d := by
  obtain zero | digit := List.mem_append.mp member
  · refine ⟨0, by decide, ?_⟩
    rw [List.eq_of_mem_replicate zero]
    cases uc <;> rfl
  · obtain ⟨d, within, rfl⟩ := List.mem_map.mp digit
    exact ⟨d, Printf.digitsOf_lt (by decide) n d within, rfl⟩

end Hex

theorem column_length (byte : Byte) : (column byte).length = 3 := by
  rw [column, List.length_cons, hexText_length (by decide) byte.isLt]

/-- A column holds its byte, and is not blank. -/
theorem read_column (byte : Byte) :
    (column byte).map charOf ≠ [' ', ' ', ' '] ∧
      BitVec.ofNat 8 (simpleStrtoul (((column byte).map charOf).drop 1) 16) = byte := by
  have digits : ((column byte).map charOf).drop 1 = (hexText false 2 byte.toNat).map charOf := rfl
  refine ⟨fun blank => ?_, ?_⟩
  · have table : ∀ d < 16, charOf (digitByte false d) ≠ ' ' := by decide +kernel
    obtain ⟨high, low, two⟩ := List.length_eq_two.mp
      (hexText_length (by decide) byte.isLt : (hexText false 2 byte.toNat).length = 2)
    obtain ⟨d, small, rfl⟩ : ∃ d < 16, high = digitByte false d := mem_hexText (by
      rw [two]
      exact List.mem_cons_self)
    rw [column, two] at blank
    exact table d small (List.cons.inj (List.cons.inj blank).2).1
  · rw [digits, strtoul_hexText (byte.isLt.trans (by decide)), BitVec.ofNat_toNat,
      BitVec.setWidth_eq]

/-! ### Rows -/

/-- A row that fits its columns. -/
structure RowFits (row : Nat × List Byte) : Prop where
  address : row.1 < 2 ^ 32
  bytes : row.2.length ≤ 16

section Row

variable {row : Nat × List Byte}

/-- The columns of a row, blank behind its bytes. -/
def columns (bytes : List Byte) : List (List Char) :=
  bytes.map (fun byte => (column byte).map charOf) ++
    List.replicate (16 - bytes.length) [' ', ' ', ' ']

theorem columns_length {bytes : List Byte} : ∀ piece ∈ columns bytes, piece.length = 3 := by
  intro piece member
  obtain full | blank := List.mem_append.mp member
  · obtain ⟨byte, -, rfl⟩ := List.mem_map.mp full
    rw [List.length_map, column_length]
  · rw [List.eq_of_mem_replicate blank]
    rfl

/-- **The columns hold the bytes.** -/
theorem read_columns (bytes : List Byte) :
    ((columns bytes).filter (· ≠ [' ', ' ', ' '])).map (fun piece =>
      BitVec.ofNat 8 (simpleStrtoul (piece.drop 1) 16)) = bytes := by
  have full : (bytes.map fun byte => (column byte).map charOf).filter (· ≠ [' ', ' ', ' ']) =
      bytes.map fun byte => (column byte).map charOf := by
    rw [List.filter_eq_self]
    intro piece member
    obtain ⟨byte, -, rfl⟩ := List.mem_map.mp member
    exact decide_eq_true (read_column byte).1
  rw [columns, List.filter_append, full, List.filter_replicate, if_neg (by decide),
    List.append_nil, List.map_map]
  conv_rhs => rw [← List.map_id bytes]
  exact List.map_congr_left fun byte _ => (read_column byte).2

theorem blanks_flatten (count : Nat) :
    (List.replicate count [' ', ' ', ' ']).flatten = List.replicate (count * 3) ' ' := by
  show (List.replicate count (List.replicate 3 ' ')).flatten = _
  exact List.flatten_replicate_replicate

/-- The text of a row, by its columns. -/
theorem rowBody_chars (row : Nat × List Byte) :
    (rowBody row).map charOf = (hexText true 8 row.1).map charOf ++ ':' ::
      ((columns row.2).flatten ++ (List.replicate 4 ' ' ++ (row.2.map asciiByte).map charOf)) := by
  rw [columns, List.flatten_append, blanks_flatten]
  simp [rowBody, List.flatMap_def, charOf]
  rfl

theorem flatten_length {pieces : List (List Char)} (each : ∀ piece ∈ pieces, piece.length = 3) :
    pieces.flatten.length = pieces.length * 3 := by
  induction pieces with
  | nil => rfl
  | cons piece pieces ih =>
      rw [List.flatten_cons, List.length_append, each piece List.mem_cons_self,
        ih fun other later => each other (List.mem_cons_of_mem piece later), List.length_cons]
      omega

/-- **A row is read by its columns.** -/
theorem readRow_rowBody (fits : RowFits row) (rest : List Char) :
    readRow ((rowBody row).map charOf ++ rest) = row := by
  have address : ((hexText true 8 row.1).map charOf).length = 8 := by
    rw [List.length_map, hexText_length (by decide) fits.address]
  have wide : (columns row.2).flatten.length = 48 := by
    rw [flatten_length columns_length, columns, List.length_append, List.length_map,
      List.length_replicate]
    have := fits.bytes
    omega
  rw [rowBody_chars, readRow, List.append_assoc, List.take_left' address,
    strtoul_hexText (fits.address.trans (by decide))]
  refine Prod.ext rfl ?_
  have behind : ((hexText true 8 row.1).map charOf ++ (':' :: ((columns row.2).flatten ++
      (List.replicate 4 ' ' ++ (row.2.map asciiByte).map charOf)) ++ rest)).drop 9 =
      (columns row.2).flatten ++ ((List.replicate 4 ' ' ++
        (row.2.map asciiByte).map charOf) ++ rest) := by
    rw [List.drop_append, address, List.drop_of_length_le (by omega)]
    simp
  dsimp only
  rw [behind, List.take_left' wide, groups_flatten (by decide) columns_length]
  exact read_columns row.2

/-- No character of a row is a newline. -/
theorem newline_notMem_rowBody (row : Nat × List Byte) : '\n' ∉ (rowBody row).map charOf := by
  have digits : ∀ uc, ∀ d < 16, charOf (digitByte uc d) ≠ '\n' := by decide +kernel
  have ascii : ∀ byte, charOf (asciiByte byte) ≠ '\n' := by decide +kernel
  have number (uc : Bool) (width n : Nat) : '\n' ∉ (hexText uc width n).map charOf := by
    intro member
    obtain ⟨byte, within, same⟩ := List.mem_map.mp member
    obtain ⟨d, small, rfl⟩ := mem_hexText within
    exact digits uc d small same
  have column (byte : Byte) : '\n' ∉ (column byte).map charOf := by
    rw [K210Guard.column, List.map_cons, List.mem_cons, not_or]
    exact ⟨by decide, number false 2 byte.toNat⟩
  rw [rowBody_chars, List.mem_append, List.mem_cons, List.mem_append, List.mem_append]
  rintro (address | colon | columns | blank | text)
  · exact number true 8 row.1 address
  · exact absurd colon (by decide)
  · obtain ⟨piece, member, within⟩ := List.mem_flatten.mp columns
    obtain full | blank := List.mem_append.mp member
    · obtain ⟨byte, -, rfl⟩ := List.mem_map.mp full
      exact column byte within
    · rw [List.eq_of_mem_replicate blank] at within
      exact absurd within (by decide)
  · exact absurd (List.eq_of_mem_replicate blank) (by decide)
  · obtain ⟨char, member, same⟩ := List.mem_map.mp text
    obtain ⟨byte, -, rfl⟩ := List.mem_map.mp member
    exact ascii byte same

end Row

/-- **A text of rows is read back** as these rows. -/
theorem readDump_text {rows : List (Nat × List Byte)} (fit : ∀ row ∈ rows, RowFits row) :
    readDump (rows.flatMap rowText) = rows := by
  have lines : (rows.flatMap rowText).map charOf =
      (rows.map fun row => (rowBody row).map charOf).flatMap (· ++ ['\n']) := by
    rw [List.map_flatMap, List.flatMap_map]
    refine List.flatMap_congr fun row _ => ?_
    rw [rowText, List.map_append]
    rfl
  have plain : ∀ line ∈ rows.map fun row => (rowBody row).map charOf, '\n' ∉ line := by
    rw [List.forall_mem_map]
    exact fun row _ => newline_notMem_rowBody row
  rw [readDump, lines, textLines_flatMap plain, List.map_map, List.map_map]
  conv_rhs => rw [← List.map_id rows]
  exact List.map_congr_left fun row member => readRow_rowBody (fit row member) ['\n']

end K210Guard
