/-
**The handler of misaligned loads** (`handle_misaligned_load` of `bsp/syscalls.c`).

The handler decodes the instruction at `epc`, takes the base register from the frame, loads the
bytes one by one and stores the result into the slot of the destination. The words at `epc` are a
parameter: code is not written while it runs. Log messages are left out.

* `handleMisalignedLoad_eq` — what the handler does for the word of a load: all nine kinds in one
  statement.
-/

import Mathlib.Tactic.Ring
import K210Guard.Trap.Decode

namespace K210Guard

open Rv64 (Word Mem Load LoadKind dword storeDword slotAddr bytesAt byteLoads)

/-! ### The code -/

/-- The byte loop: the data so far and the byte loads made. -/
def loadLoop (mem : Mem) (addr : Word) :
    (i remaining : Nat) → Word → List (Word × Byte) → Word × List (Word × Byte)
  | _, 0, dataLoad, loaded => (dataLoad, loaded)
  | i, remaining + 1, dataLoad, loaded =>
      let byte := mem (addr.up i)
      loadLoop mem addr (i + 1) remaining (dataLoad ||| byte.setWidth 64 <<< (8 * i))
        (loaded ++ [(addr.up i, byte)])

/-- `adjust sign` -/
def adjustSign (len : Nat) (dataLoad : Word) : Word :=
  match len with
  | 1 => (dataLoad.setWidth 8).signExtend 64
  | 2 => (dataLoad.setWidth 16).signExtend 64
  | 4 => (dataLoad.setWidth 32).signExtend 64
  | _ => dataLoad

/-- `instruct` is the word at `epc`. -/
def handleMisalignedLoad (instruct : BitVec 32) : TrapHandler := fun epc regs fregs mem =>
  if instruct.setWidth 16 &&& 3 ≠ 3 then none
  else
    let opcode := instruct &&& 0x7F
    let dst := ((instruct >>> 7) &&& 0x1F).toNat
    let len := 1 <<< ((instruct >>> 12) &&& 3).toNat
    let isUnsigned := (instruct >>> 14) &&& 1
    let src := ((instruct >>> 15) &&& 0x1F).toNat
    let offset := (instruct >>> 20).toNat
    if opcode = 3 ∨ opcode = 7 then
      let fpu := opcode = 7
      let addr := dword mem (slotAddr regs src) + BitVec.ofInt 64 (signedOffset offset)
      let looped := loadLoop mem addr 0 len 0 []
      let dataLoad := if isUnsigned = 0 ∧ ¬fpu then adjustSign len looped.1 else looped.1
      some
        { epc := epc + 4
          mem := storeDword mem (slotAddr (if fpu then fregs else regs) dst) dataLoad
          accesses := looped.2 }
    else none

/-! ### The byte loop -/

theorem leNat_snoc (bytes : List Byte) (last : Byte) :
    leNat (bytes ++ [last]) = last.toNat * 256 ^ bytes.length + leNat bytes := by
  induction bytes with
  | nil => simp [leNat]
  | cons first bytes ih =>
      rw [List.cons_append, leNat, leNat, ih, List.length_cons, Nat.pow_succ]
      ring

/-- One more byte above the others. -/
theorem or_byte (bytes : List Byte) (short : bytes.length < 8) (last : Byte) :
    BitVec.ofNat 64 (leNat bytes) ||| last.setWidth 64 <<< (8 * bytes.length) =
      BitVec.ofNat 64 (leNat (bytes ++ [last])) := by
  have power : 256 ^ bytes.length = 2 ^ (8 * bytes.length) := by rw [Nat.pow_mul]
  have below : leNat bytes < 2 ^ (8 * bytes.length) := power ▸ leNat_lt bytes
  have fits : 2 ^ (8 * bytes.length) * 256 ≤ 2 ^ 64 := by
    calc 2 ^ (8 * bytes.length) * 256 = 2 ^ (8 * bytes.length + 8) := by rw [Nat.pow_add]
      _ ≤ 2 ^ 64 := Nat.pow_le_pow_right (by decide) (by omega)
  have small := last.isLt
  have high : last.toNat * 2 ^ (8 * bytes.length) + 2 ^ (8 * bytes.length) ≤ 2 ^ 64 := by
    calc last.toNat * 2 ^ (8 * bytes.length) + 2 ^ (8 * bytes.length)
        = 2 ^ (8 * bytes.length) * (last.toNat + 1) := by ring
      _ ≤ 2 ^ (8 * bytes.length) * 256 := Nat.mul_le_mul_left _ (by omega)
      _ ≤ 2 ^ 64 := fits
  apply BitVec.eq_of_toNat_eq
  rw [leNat_snoc, power, BitVec.toNat_or, BitVec.toNat_shiftLeft, BitVec.toNat_setWidth,
    BitVec.toNat_ofNat, BitVec.toNat_ofNat, Nat.mod_eq_of_lt (show last.toNat < 2 ^ 64 by omega),
    Nat.mod_eq_of_lt (show leNat bytes < 2 ^ 64 by omega), Nat.shiftLeft_eq,
    Nat.mod_eq_of_lt (show last.toNat * 2 ^ (8 * bytes.length) < 2 ^ 64 by omega),
    Nat.mod_eq_of_lt (by omega), Nat.or_comm, ← Nat.shiftLeft_eq,
    Nat.shiftLeft_add_eq_or_of_lt below]

theorem loadLoop_from (mem : Mem) (addr : Word) (i remaining : Nat) (fits : i + remaining ≤ 8) :
    loadLoop mem addr i remaining (BitVec.ofNat 64 (leNat (bytesAt mem addr i)))
        (byteLoads mem addr i) =
      (BitVec.ofNat 64 (leNat (bytesAt mem addr (i + remaining))),
        byteLoads mem addr (i + remaining)) := by
  induction remaining generalizing i with
  | zero => rfl
  | succ remaining ih =>
      have next := or_byte (bytesAt mem addr i) (by rw [Rv64.bytesAt_length]; omega)
        (mem (addr.up i))
      rw [Rv64.bytesAt_length] at next
      rw [loadLoop, next, ← Rv64.bytesAt_succ, ← Rv64.byteLoads_succ, ih (i + 1) (by omega),
        show i + 1 + remaining = i + (remaining + 1) by omega]

/-- **The loop reads the little-endian number**, one byte after the other. -/
theorem loadLoop_eq (mem : Mem) (addr : Word) {len : Nat} (fits : len ≤ 8) :
    loadLoop mem addr 0 len 0 [] =
      (BitVec.ofNat 64 (leNat (bytesAt mem addr len)), byteLoads mem addr len) := by
  have whole := loadLoop_from mem addr 0 len (by omega)
  rw [Nat.zero_add] at whole
  exact whole

/-! ### Decoding -/

section Fields

variable (word : BitVec 32)

/-- The low two bits of `funct3`. -/
theorem length_field :
    ((word >>> 12) &&& 3).toNat = (word.extractLsb' 12 3).toNat % 4 := by
  refine (field_eq word 12 2 (by decide)).trans ?_
  rw [BitVec.extractLsb'_toNat, BitVec.extractLsb'_toNat]
  omega

/-- The high bit of `funct3`. -/
theorem unsigned_field :
    (word >>> 14) &&& 1 = 0 ↔ (word.extractLsb' 12 3).toNat / 4 = 0 := by
  have field := field_eq word 14 1 (by decide)
  rw [BitVec.extractLsb'_toNat, Nat.shiftRight_eq_div_pow] at field
  rw [← BitVec.toNat_inj, BitVec.extractLsb'_toNat, Nat.shiftRight_eq_div_pow]
  refine (show _ ↔ ((word >>> 14) &&& 1#32).toNat = 0 from Iff.rfl).trans ?_
  rw [show ((word >>> 14) &&& 1#32).toNat = _ from field]
  omega

theorem offset_field : (word >>> 20).toNat = (word.extractLsb' 20 12).toNat := by
  have small := word.isLt
  rw [BitVec.toNat_ushiftRight, BitVec.extractLsb'_toNat, Nat.shiftRight_eq_div_pow]
  omega

end Fields

/-- The value the handler stores for a kind of load; a single-precision one is not boxed. -/
def storedValue (kind : LoadKind) (number : Nat) : Word :=
  if kind = .flw then BitVec.ofNat 64 number else kind.value number

/-- What the handler makes of the opcode and `funct3` of a load. -/
theorem kind_fields {opcode funct3 : Nat} {kind : LoadKind}
    (decoded : LoadKind.decode opcode funct3 = some kind) :
    (opcode = 3 ∨ opcode = 7) ∧ (opcode = 7 ↔ kind.float = true) ∧
      1 <<< (funct3 % 4) = kind.width ∧
      ∀ number, (if funct3 / 4 = 0 ∧ ¬opcode = 7 then
          adjustSign (1 <<< (funct3 % 4)) (BitVec.ofNat 64 number)
        else BitVec.ofNat 64 number) = storedValue kind number := by
  have narrowed : ∀ {width : Nat} (number : Nat), width ≤ 64 →
      ((BitVec.ofNat 64 number).setWidth width).signExtend 64 =
        (BitVec.ofNat width number).signExtend 64 := fun number fits => by
    rw [BitVec.setWidth_ofNat_of_le fits]
  unfold LoadKind.decode at decoded
  split at decoded
  case h_10 => exact absurd decoded (by simp)
  all_goals
    obtain rfl := Option.some.inj decoded
    refine ⟨by decide, by decide, by decide, fun number => ?_⟩
  case h_1 | h_2 | h_3 => exact narrowed number (by decide)
  all_goals rfl

/-- The lengths are those of the loop. -/
theorem width_bounds (kind : LoadKind) : 0 < kind.width ∧ kind.width ≤ 8 := by
  cases kind <;> decide

/-- The address the handler computes. -/
def handlerAddr (mem : Mem) (regs : Word) (load : Load) : Word :=
  dword mem (slotAddr regs load.rs1.toNat) + BitVec.ofInt 64 (signedOffset load.imm.toNat)

/-- **What the handler does for a load.** -/
theorem handleMisalignedLoad_eq {word : BitVec 32} {load : Load}
    (encoded : Load.decode word = some load) (epc regs fregs : Word) (mem : Mem) :
    handleMisalignedLoad word epc regs fregs mem = some
      { epc := epc + 4
        mem := storeDword mem (slotAddr (if load.kind.float then fregs else regs) load.rd.toNat)
          (storedValue load.kind (leNat (bytesAt mem (handlerAddr mem regs load) load.kind.width)))
        accesses := byteLoads mem (handlerAddr mem regs load) load.kind.width } := by
  obtain ⟨kind, decoded, rfl⟩ := Option.map_eq_some_iff.mp encoded
  obtain ⟨known, isFloat, width, stored⟩ := kind_fields decoded
  have long : ¬(word.setWidth 16 &&& 3 ≠ 3) := not_not_intro (uncompressed word (by omega))
  have load' : word &&& 0x7F = 3 ∨ word &&& 0x7F = 7 := by
    rw [opcode_eq_iff, opcode_eq_iff]
    exact known
  unfold handleMisalignedLoad
  rw [if_neg long, if_pos load']
  dsimp only
  rw [show ((word >>> 7) &&& 0x1F).toNat = _ from field_eq word 7 5 (by decide),
    show ((word >>> 15) &&& 0x1F).toNat = _ from field_eq word 15 5 (by decide),
    length_field, offset_field, width, loadLoop_eq _ _ (width_bounds kind).2]
  have value := stored (leNat (bytesAt mem (handlerAddr mem regs
    ⟨kind, word.extractLsb' 7 5, word.extractLsb' 15 5, word.extractLsb' 20 12⟩) kind.width))
  rw [width] at value
  rw [← value]
  simp only [unsigned_field, opcode_eq_iff, ← isFloat]
  rfl

end K210Guard
