/-
**The handler of misaligned stores** (`handle_misaligned_store` of `bsp/syscalls.c`).

The handler decodes the instruction at `epc`, takes base and data from the frame and stores the
bytes one by one. The word at `epc` is a parameter, as for the loads.

* `handleMisalignedStore_eq` — what the handler does for the word of a store: all six kinds in one
  statement.
-/

import K210Guard.Rv64.Store
import K210Guard.Trap.Decode

namespace K210Guard

open Rv64 (Word Mem Store StoreKind dword slotAddr byteStores storeBytes)

/-! ### The code -/

/-- The byte loop: the memory and the byte stores made. -/
def storeLoop (addr dataStore : Word) :
    (i remaining : Nat) → Mem → List (Word × Byte) → Mem × List (Word × Byte)
  | _, 0, mem, stored => (mem, stored)
  | i, remaining + 1, mem, stored =>
      let byte := ((dataStore >>> (i * 8)) &&& 0xFF).setWidth 8
      storeLoop addr dataStore (i + 1) remaining (Function.update mem (addr.up i) byte)
        (stored ++ [(addr.up i, byte)])

/-- `instruct` is the word at `epc`. -/
def handleMisalignedStore (instruct : BitVec 32) : TrapHandler := fun epc regs fregs mem =>
  if instruct.setWidth 16 &&& 3 ≠ 3 then none
  else
    let opcode := instruct &&& 0x7F
    let len := 1 <<< ((instruct >>> 12) &&& 7).toNat
    let dst := ((instruct >>> 15) &&& 0x1F).toNat
    let src := ((instruct >>> 20) &&& 0x1F).toNat
    let offset := (((instruct >>> 7) &&& 0x1F#32) ||| ((instruct >>> 20) &&& 0xFE0#32)).toNat
    if opcode = 0x23 ∨ opcode = 0x27 then
      let fpu := opcode = 0x27
      let addr := dword mem (slotAddr regs dst) + BitVec.ofInt 64 (signedOffset offset)
      let dataStore := dword mem (slotAddr (if fpu then fregs else regs) src)
      let looped := storeLoop addr dataStore 0 len mem []
      some
        { epc := epc + 4
          mem := looped.1
          accesses := looped.2 }
    else none

/-! ### The byte loop -/

/-- The byte the loop stores. -/
theorem shifted_byte (value : Word) (i : Nat) :
    ((value >>> (i * 8)) &&& 0xFF).setWidth 8 = value.extractLsb' (8 * i) 8 := by
  apply BitVec.eq_of_toNat_eq
  rw [BitVec.toNat_setWidth, BitVec.toNat_and, BitVec.toNat_ushiftRight, BitVec.extractLsb'_toNat,
    show ((value.toNat >>> (i * 8)) &&& (0xFF : Word).toNat) = _ from
      Nat.and_two_pow_sub_one_eq_mod _ 8, Nat.mod_mod, Nat.mul_comm]

theorem storeLoop_from (mem : Mem) (addr value : Word) (i remaining : Nat) :
    storeLoop addr value i remaining (storeBytes mem (byteStores addr value i))
        (byteStores addr value i) =
      (storeBytes mem (byteStores addr value (i + remaining)),
        byteStores addr value (i + remaining)) := by
  induction remaining generalizing i with
  | zero => rfl
  | succ remaining ih =>
      rw [storeLoop, shifted_byte, ← Rv64.storeBytes_succ, ← Rv64.byteStores_succ, ih (i + 1),
        show i + 1 + remaining = i + (remaining + 1) by omega]

/-- **The loop stores the low bytes of the value**, one after the other. -/
theorem storeLoop_eq (mem : Mem) (addr value : Word) (len : Nat) :
    storeLoop addr value 0 len mem [] =
      (storeBytes mem (byteStores addr value len), byteStores addr value len) := by
  have whole := storeLoop_from mem addr value 0 len
  rw [Nat.zero_add] at whole
  exact whole

/-! ### Decoding -/

/-- A mask that is shifted up takes a field in its place. -/
theorem and_shiftLeft_mask (value mask count : Nat) :
    value &&& (mask <<< count) = ((value >>> count) &&& mask) <<< count := by
  apply Nat.eq_of_testBit_eq
  intro i
  rw [Nat.testBit_and, Nat.testBit_shiftLeft, Nat.testBit_shiftLeft, Nat.testBit_and,
    Nat.testBit_shiftRight]
  by_cases above : i ≥ count
  · rw [Nat.add_sub_cancel' above]
    simp [above]
  · simp [above]

/-- The two fields of the immediate, put together. -/
theorem split_offset (word : BitVec 32) :
    (((word >>> 7) &&& 0x1F#32) ||| ((word >>> 20) &&& 0xFE0#32)).toNat =
      (word.extractLsb' 25 7 ++ word.extractLsb' 7 5 : BitVec 12).toNat := by
  have high : ((word >>> 20) &&& 0xFE0#32).toNat = (word.extractLsb' 25 7).toNat <<< 5 := by
    have field := field_eq word 25 7 (by decide)
    rw [BitVec.toNat_and, BitVec.toNat_ushiftRight] at field
    rw [← field, BitVec.toNat_and, BitVec.toNat_ushiftRight]
    refine (and_shiftLeft_mask (word.toNat >>> 20) 0x7F 5).trans ?_
    rw [← Nat.shiftRight_add]
    rfl
  have low : ((word >>> 7) &&& 0x1F#32).toNat = (word.extractLsb' 7 5).toNat :=
    field_eq word 7 5 (by decide)
  rw [BitVec.toNat_or, BitVec.toNat_append, low, high, Nat.or_comm]

/-- What the handler makes of the opcode and `funct3` of a store. -/
theorem store_fields {opcode funct3 : Nat} {kind : StoreKind}
    (decoded : StoreKind.decode opcode funct3 = some kind) :
    (opcode = 0x23 ∨ opcode = 0x27) ∧ (opcode = 0x27 ↔ kind.float = true) ∧
      1 <<< funct3 = kind.width := by
  unfold StoreKind.decode at decoded
  split at decoded
  case h_7 => exact absurd decoded (by simp)
  all_goals
    obtain rfl := Option.some.inj decoded
    exact ⟨by decide, by decide, rfl⟩

/-- The address the handler computes. -/
def handlerStoreAddr (mem : Mem) (regs : Word) (store : Store) : Word :=
  dword mem (slotAddr regs store.rs1.toNat) + BitVec.ofInt 64 (signedOffset store.imm.toNat)

/-- The data the handler takes from the frame. -/
def handlerData (mem : Mem) (regs fregs : Word) (store : Store) : Word :=
  dword mem (slotAddr (if store.kind.float then fregs else regs) store.rs2.toNat)

/-- **What the handler does for a store.** -/
theorem handleMisalignedStore_eq {word : BitVec 32} {store : Store}
    (encoded : Store.decode word = some store) (epc regs fregs : Word) (mem : Mem) :
    handleMisalignedStore word epc regs fregs mem = some
      { epc := epc + 4
        mem := storeBytes mem (byteStores (handlerStoreAddr mem regs store)
          (handlerData mem regs fregs store) store.kind.width)
        accesses := byteStores (handlerStoreAddr mem regs store)
          (handlerData mem regs fregs store) store.kind.width } := by
  obtain ⟨kind, decoded, rfl⟩ := Option.map_eq_some_iff.mp encoded
  obtain ⟨known, isFloat, width⟩ := store_fields decoded
  have long : ¬(word.setWidth 16 &&& 3 ≠ 3) := not_not_intro (uncompressed word (by omega))
  have store' : word &&& 0x7F = 0x23 ∨ word &&& 0x7F = 0x27 := by
    rw [opcode_eq_iff, opcode_eq_iff]
    exact known
  unfold handleMisalignedStore
  rw [if_neg long, if_pos store']
  dsimp only
  rw [show ((word >>> 12) &&& 7).toNat = _ from field_eq word 12 3 (by decide),
    show ((word >>> 15) &&& 0x1F).toNat = _ from field_eq word 15 5 (by decide),
    show ((word >>> 20) &&& 0x1F).toNat = _ from field_eq word 20 5 (by decide),
    split_offset, width, storeLoop_eq]
  simp only [opcode_eq_iff, handlerData, ← isFloat]
  rfl

end K210Guard
