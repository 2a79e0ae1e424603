/-
**A hart and its loads.**

The integer registers, with `x0` zero, the floating-point registers, the memory and the program
counter; the encoding of the RV64 loads and what each does.
-/

import Mathlib.Logic.Function.Basic
import K210Guard.Rv64.Memory

namespace K210Guard.Rv64

/-! ### State -/

/-- A register number. -/
abbrev Reg := BitVec 5

/-- The stack pointer. -/
def sp : Reg := 2

/-- The integer registers; `x0` is zero. -/
@[ext] structure XRegs where
  val : Reg → Word
  zero : val 0 = 0

namespace XRegs

/-- A write; writes to `x0` are ignored. -/
def set (x : XRegs) (rd : Reg) (value : Word) : XRegs where
  val := fun r => if r = rd ∧ rd ≠ 0 then value else x.val r
  zero := by
    rw [if_neg (by rintro ⟨rfl, absurd⟩; exact absurd rfl), x.zero]

theorem set_self (x : XRegs) {rd : Reg} (nonzero : rd ≠ 0) (value : Word) :
    (x.set rd value).val rd = value := if_pos ⟨rfl, nonzero⟩

theorem set_other (x : XRegs) {rd r : Reg} (differ : r ≠ rd) (value : Word) :
    (x.set rd value).val r = x.val r := if_neg fun same => differ same.1

end XRegs

@[ext] structure Hart where
  x : XRegs
  f : Reg → Word
  mem : Mem
  pc : Word

/-! ### Loads -/

inductive LoadKind
  | lb
  | lh
  | lw
  | ld
  | lbu
  | lhu
  | lwu
  | flw
  | fld
  deriving DecidableEq

namespace LoadKind

/-- The number of bytes. -/
def width : LoadKind → Nat
  | .lb | .lbu => 1
  | .lh | .lhu => 2
  | .lw | .lwu | .flw => 4
  | .ld | .fld => 8

/-- Whether the destination is a floating-point register. -/
def float : LoadKind → Bool
  | .flw | .fld => true
  | _ => false

/-- What the destination receives for the little-endian number that was read: sign-extended,
zero-extended, or with ones in the upper half. -/
def value : LoadKind → Nat → Word
  | .lb, number => (BitVec.ofNat 8 number).signExtend 64
  | .lh, number => (BitVec.ofNat 16 number).signExtend 64
  | .lw, number => (BitVec.ofNat 32 number).signExtend 64
  | .flw, number => 0xFFFFFFFF#32 ++ BitVec.ofNat 32 number
  | .ld, number | .lbu, number | .lhu, number | .lwu, number | .fld, number =>
      BitVec.ofNat 64 number

/-- The kinds by their major opcode and `funct3`. -/
def decode (opcode funct3 : Nat) : Option LoadKind :=
  match opcode, funct3 with
  | 0x03, 0 => some .lb
  | 0x03, 1 => some .lh
  | 0x03, 2 => some .lw
  | 0x03, 3 => some .ld
  | 0x03, 4 => some .lbu
  | 0x03, 5 => some .lhu
  | 0x03, 6 => some .lwu
  | 0x07, 2 => some .flw
  | 0x07, 3 => some .fld
  | _, _ => none

end LoadKind

/-- A load instruction. -/
structure Load where
  kind : LoadKind
  rd : Reg
  rs1 : Reg
  imm : BitVec 12
  deriving DecidableEq

/-- The load a word encodes (I-type). -/
def Load.decode (word : BitVec 32) : Option Load :=
  (LoadKind.decode (word.extractLsb' 0 7).toNat (word.extractLsb' 12 3).toNat).map fun kind =>
    { kind
      rd := word.extractLsb' 7 5
      rs1 := word.extractLsb' 15 5
      imm := word.extractLsb' 20 12 }

namespace Hart

/-- `rs1` plus the sign-extended immediate. -/
def loadAddr (hart : Hart) (load : Load) : Word :=
  hart.x.val load.rs1 + load.imm.signExtend 64

/-- What the destination of a load receives. -/
def loadValue (hart : Hart) (load : Load) : Word :=
  load.kind.value (leNat (bytesAt hart.mem (hart.loadAddr load) load.kind.width))

/-- The effect of a load. -/
def load (hart : Hart) (load : Load) : Hart :=
  if load.kind.float then
    { hart with f := Function.update hart.f load.rd (hart.loadValue load), pc := hart.pc + 4 }
  else
    { hart with x := hart.x.set load.rd (hart.loadValue load), pc := hart.pc + 4 }

end Hart

/-- The byte loads of a range, in order: each address with the byte found there. -/
def byteLoads (mem : Mem) (addr : Word) (count : Nat) : List (Word × Byte) :=
  List.ofFn fun i : Fin count => (addr.up i, mem (addr.up i))

theorem byteLoads_succ (mem : Mem) (addr : Word) (count : Nat) :
    byteLoads mem addr (count + 1) =
      byteLoads mem addr count ++ [(addr.up count, mem (addr.up count))] := by
  unfold byteLoads
  rw [List.ofFn_succ_last]
  rfl

/-- Two ranges give the same byte loads if and only if they begin at one address and hold the same
bytes. -/
theorem byteLoads_eq_iff {mem other : Mem} {addr start : Word} {count : Nat} (some' : 0 < count) :
    byteLoads mem addr count = byteLoads other start count ↔
      addr = start ∧ ∀ i < count, mem (start.up i) = other (start.up i) := by
  unfold byteLoads
  rw [List.ofFn_inj, funext_iff]
  constructor
  · intro same
    have first := congrArg Prod.fst (same ⟨0, some'⟩)
    obtain rfl : addr = start := by simpa using first
    exact ⟨rfl, fun i below => congrArg Prod.snd (same ⟨i, below⟩)⟩
  · rintro ⟨rfl, same⟩ i
    rw [same i i.isLt]

end K210Guard.Rv64
