/-
**Decoding a misaligned access.**

What the handlers of misaligned loads and stores (`bsp/syscalls.c`) have in common: the fields they
take out of the instruction, the sign they put on the offset, and the base they find in the frame.

* `reaches_iff` — when the base and the offset give the address of the instruction.
-/

import K210Guard.Trap.Frame

namespace K210Guard

open Rv64 (Word Reg Hart dword slotAddr)

/-! ### The fields -/

/-- A field taken out by a shift and a mask. -/
theorem field_eq (word : BitVec 32) (start count : Nat) (fits : count < 32) :
    ((word >>> start) &&& BitVec.ofNat 32 (2 ^ count - 1)).toNat =
      (word.extractLsb' start count).toNat := by
  have mask : 2 ^ count - 1 < 2 ^ 32 :=
    Nat.lt_of_le_of_lt (Nat.sub_le _ _) (Nat.pow_lt_pow_right (by decide) fits)
  rw [BitVec.toNat_and, BitVec.toNat_ofNat, Nat.mod_eq_of_lt mask, Nat.and_two_pow_sub_one_eq_mod,
    BitVec.extractLsb'_toNat, BitVec.toNat_ushiftRight]

section Fields

variable (word : BitVec 32)

theorem opcode_field : (word &&& 0x7F).toNat = (word.extractLsb' 0 7).toNat := by
  have field := field_eq word 0 7 (by decide)
  rwa [BitVec.ushiftRight_zero] at field

theorem opcode_eq_iff (value : BitVec 32) :
    word &&& 0x7F = value ↔ (word.extractLsb' 0 7).toNat = value.toNat := by
  rw [← BitVec.toNat_inj, opcode_field]

/-- An instruction of 32 bits has its two low bits set. -/
theorem uncompressed (low : (word.extractLsb' 0 7).toNat % 4 = 3) :
    word.setWidth 16 &&& 3 = 3 := by
  apply BitVec.eq_of_toNat_eq
  rw [BitVec.extractLsb'_toNat, Nat.shiftRight_zero] at low
  rw [BitVec.toNat_and, BitVec.toNat_setWidth]
  refine (Nat.and_two_pow_sub_one_eq_mod _ 2).trans ?_
  show _ = 3
  omega

end Fields

/-! ### The offset -/

/-- The 12-bit offset field as an `int`, negated when its top bit is set. -/
def signedOffset (offset : Nat) : Int :=
  if offset >>> 11 ≠ 0 then -(((offset &&& 0x3FF) + 1 : Nat) : Int) else offset

/-- The handler's offset is the immediate if that is not negative, and never otherwise. -/
theorem signedOffset_eq (imm : BitVec 12) :
    signedOffset imm.toNat = if 0 ≤ imm.toInt then imm.toInt else -(imm.toInt % 1024 + 1) := by
  have small := imm.isLt
  rw [signedOffset, Nat.shiftRight_eq_div_pow,
    show imm.toNat &&& 0x3FF = _ from Nat.and_two_pow_sub_one_eq_mod imm.toNat 10,
    BitVec.toInt_eq_toNat_cond]
  split <;> split <;> omega

/-- Small integers are told apart modulo `2 ^ 64`. -/
theorem ofInt_eq_iff {value other : Int} (small : -2 ^ 62 < value ∧ value < 2 ^ 62)
    (smallOther : -2 ^ 62 < other ∧ other < 2 ^ 62) :
    BitVec.ofInt 64 value = BitVec.ofInt 64 other ↔ value = other := by
  rw [← BitVec.toInt_inj, BitVec.toInt_ofInt, BitVec.toInt_ofInt, Int.bmod_eq_of_le,
    Int.bmod_eq_of_le]
  all_goals omega

theorem ofInt_sub (value other : Int) :
    BitVec.ofInt 64 (value - other) = BitVec.ofInt 64 value - BitVec.ofInt 64 other := by
  rw [Int.sub_eq_add_neg, BitVec.ofInt_add, BitVec.ofInt_neg, ← BitVec.sub_eq_add_neg]

theorem imm_bounds (imm : BitVec 12) : -2048 ≤ imm.toInt ∧ imm.toInt < 2048 := by
  have small := imm.isLt
  rw [BitVec.toInt_eq_toNat_cond]
  split <;> omega

/-! ### The address -/

/-- The base and the offset give the instruction's address: the base is a register other than `x0`
and `x2` and the immediate is not negative; or the base is `x0` and the stale doubleword in its slot
makes up for the immediate. -/
def Reaches (hart : Hart) (rs1 : Reg) (imm : BitVec 12) : Prop :=
  (rs1 ≠ 0 ∧ rs1 ≠ Rv64.sp ∧ 0 ≤ imm.toInt) ∨
    (rs1 = 0 ∧ staleSlot hart = BitVec.ofInt 64
      (if 0 ≤ imm.toInt then 0 else imm.toInt + imm.toInt % 1024 + 1))

/-- **When the address is right.** -/
theorem reaches_iff (hart : Hart) (rs1 : Reg) (imm : BitVec 12) :
    dword (framedMem hart) (slotAddr (frameBase hart) rs1.toNat) +
        BitVec.ofInt 64 (signedOffset imm.toNat) = hart.x.val rs1 + imm.signExtend 64 ↔
      Reaches hart rs1 imm := by
  have bounds := imm_bounds imm
  have extended : imm.signExtend 64 = BitVec.ofInt 64 imm.toInt := rfl
  have offset := signedOffset_eq imm
  rw [dword_integerSlot, extended, Reaches]
  by_cases zero : rs1 = 0
  · -- the sum is right when the stale slot is the difference of the two offsets
    have difference : imm.toInt - signedOffset imm.toNat =
        if 0 ≤ imm.toInt then 0 else imm.toInt + imm.toInt % 1024 + 1 := by
      rw [offset]
      split <;> omega
    have base : (0 : Word) + BitVec.ofInt 64 imm.toInt = BitVec.ofInt 64 imm.toInt :=
      BitVec.zero_add _
    rw [if_pos zero, zero, hart.x.zero, base, ← difference, ofInt_sub, BitVec.eq_sub_iff_add_eq]
    exact ⟨fun same => Or.inr ⟨rfl, same⟩, fun either => by
      rcases either with ⟨absurd', -⟩ | ⟨-, same⟩
      · exact absurd rfl absurd'
      · exact same⟩
  rw [if_neg zero]
  by_cases isSp : rs1 = Rv64.sp
  · -- the trap's stack pointer is 512 lower than the instruction's
    have lowered : frameBase hart + BitVec.ofInt 64 (signedOffset imm.toNat) =
        hart.x.val Rv64.sp + BitVec.ofInt 64 (signedOffset imm.toNat - 512) := by
      rw [ofInt_sub, frameBase, show BitVec.ofInt 64 512 = 512#64 from rfl]
      generalize BitVec.ofInt 64 (signedOffset imm.toNat) = added
      bv_omega
    rw [isSp, framed_sp, lowered, BitVec.add_right_inj, ofInt_eq_iff (by omega) (by omega)]
    refine iff_of_false ?_ ?_
    · omega
    · rintro (⟨-, notSp, -⟩ | ⟨absurd', -⟩)
      · exact notSp rfl
      · exact absurd absurd' (by decide)
  · rw [framed_other hart isSp, BitVec.add_right_inj, ofInt_eq_iff (by omega) (by omega)]
    constructor
    · intro same
      exact Or.inl ⟨zero, isSp, by omega⟩
    · rintro (⟨-, -, positive⟩ | ⟨isZero, -⟩)
      · omega
      · exact absurd isZero zero

/-- The sample for both: a hart with `s0` at `0x80010000` and the stack pointer at `0x80020000`. -/
def sampleHart : Hart where
  x :=
    { val := fun r => if r = 8 then 0x80010000 else if r = Rv64.sp then 0x80020000 else 0
      zero := rfl }
  f := fun _ => 0
  mem := fun _ => 0
  pc := 0x80000000

end K210Guard
