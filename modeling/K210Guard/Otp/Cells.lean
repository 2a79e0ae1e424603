/-
**One-time programmable cells.**

An array of cells that programming takes from 0 to 1 and never back, read eight at a time, and the
bits of a buffer that is written into it one by one.
-/

import Mathlib.Data.Nat.Bitwise
import Mathlib.Logic.Function.Basic
import K210Guard.Interaction.Prog
import K210Guard.Memory.Range

namespace K210Guard

namespace Otp

/-- The array, one cell for each bit address. -/
abbrev Cells := Nat → Bool

/-- A cell is set, or stays as it is. -/
def Cells.program (cells : Cells) (address : Nat) (value : Bool) : Cells :=
  Function.update cells address (cells address || value)

/-- The eight cells from an address, the first one in bit 0. -/
def Cells.byte (cells : Cells) (address : Nat) : Byte :=
  BitVec.ofBoolListLE [cells address, cells (address + 1), cells (address + 2), cells (address + 3),
    cells (address + 4), cells (address + 5), cells (address + 6), cells (address + 7)]

theorem Cells.program_apply (cells : Cells) (address at' : Nat) (value : Bool) :
    cells.program address value at' = (cells at' || (decide (at' = address) && value)) := by
  by_cases same : at' = address
  · subst same
    simp [Cells.program]
  · simp [Cells.program, same]

/-- Nothing that is set is ever cleared. -/
theorem Cells.program_le (cells : Cells) (address at' : Nat) (value : Bool)
    (set : cells at' = true) : cells.program address value at' = true := by
  rw [Cells.program_apply, set, Bool.true_or]

theorem Cells.getLsbD_byte (cells : Cells) (address : Nat) {i : Nat} (small : i < 8) :
    (cells.byte address).getLsbD i = cells (address + i) := by
  rw [Cells.byte, BitVec.getLsbD_ofBoolListLE]
  match i, small with
  | 0, _ | 1, _ | 2, _ | 3, _ | 4, _ | 5, _ | 6, _ | 7, _ => rfl

/-! ### The bits of a buffer -/

/-- The `j`-th bit of a buffer, the lowest bit of its first byte being the first one. -/
def bufferBit (ram : Nat → Byte) (dataBuf j : Nat) : Bool := (ram (dataBuf + j / 8)).getLsbD (j % 8)

/-- What `data` holds before the `j`-th bit: the rest of its byte. -/
def dataAt (ram : Nat → Byte) (dataBuf j : Nat) : Byte := ram (dataBuf + j / 8) >>> (j % 8)

@[simp] theorem dataAt_zero (ram : Nat → Byte) (dataBuf : Nat) :
    dataAt ram dataBuf 0 = ram dataBuf := by
  rw [dataAt, Nat.zero_mod, BitVec.ushiftRight_zero]
  rfl

theorem dataAt_getLsbD (ram : Nat → Byte) (dataBuf j : Nat) :
    (dataAt ram dataBuf j).getLsbD 0 = bufferBit ram dataBuf j := by
  rw [dataAt, BitVec.getLsbD_ushiftRight, bufferBit, Nat.add_zero]

/-- Within a byte, the next bit is one shift away. -/
theorem dataAt_succ (ram : Nat → Byte) (dataBuf : Nat) {j : Nat} (inside : j % 8 + 1 ≠ 8) :
    dataAt ram dataBuf j >>> 1 = dataAt ram dataBuf (j + 1) := by
  rw [dataAt, dataAt, ← BitVec.shiftRight_add, show (j + 1) / 8 = j / 8 by omega,
    show (j + 1) % 8 = j % 8 + 1 by omega]

/-- Behind the last bit of a byte stands the next byte. -/
theorem dataAt_next (ram : Nat → Byte) (dataBuf : Nat) {j : Nat} (last : j % 8 + 1 = 8) :
    ram (dataBuf + j / 8 + 1) = dataAt ram dataBuf (j + 1) := by
  rw [dataAt, show (j + 1) / 8 = j / 8 + 1 by omega, show (j + 1) % 8 = 0 by omega,
    BitVec.ushiftRight_zero]
  rfl

/-- The address of the next bit. -/
theorem bitAddress_succ (addr : BitVec 32) (j : Nat) :
    addr + BitVec.ofNat 32 j + 1 = addr + BitVec.ofNat 32 (j + 1) := by
  rw [BitVec.add_assoc, BitVec.ofNat_add]
  rfl

/-- The bytes of the buffer that are fetched behind `length` bits from the `j`-th on. -/
def fetched (dataBuf j length : Nat) : List Nat :=
  ((List.range' j length).filter (· % 8 = 7)).map fun i => dataBuf + i / 8 + 1

theorem fetched_cons (dataBuf j length : Nat) :
    fetched dataBuf j (length + 1) = fetched dataBuf j 1 ++ fetched dataBuf (j + 1) length := by
  rw [fetched, fetched, fetched, ← List.map_append, ← List.filter_append, Nat.add_comm length 1,
    ← List.range'_append_1]

theorem fetched_one (dataBuf j : Nat) :
    fetched dataBuf j 1 = if j % 8 = 7 then [dataBuf + j / 8 + 1] else [] := by
  by_cases last : j % 8 = 7 <;> simp [fetched, last]

section Walk

variable {Op : Type} {Ans : Op → Type}

/-- `data >>= 1` or, behind the last bit of a byte, `data = *data_buf++`; with the index and the
pointer. -/
def nextBit (load : Nat → Prog Op Ans Byte) (data : Byte) (index dataBuf : Nat) :
    Prog Op Ans (Byte × Nat × Nat) :=
  if index + 1 = 8 then do
    let data ← load dataBuf
    pure (data, 0, dataBuf + 1)
  else pure (data >>> 1, index + 1, dataBuf)

/-- From one bit of the buffer to the next; the byte behind is fetched after each eighth bit. -/
theorem nextBit_run {σ : Type} {step : σ → (op : Op) → Ans op × σ} {load : Nat → Prog Op Ans Byte}
    {ram : Nat → Byte} {s : σ} {loaded : Nat → σ} (dataBuf j : Nat)
    (loads : ∀ a, Prog.run step (load a) s = (some (ram a), loaded a)) :
    Prog.run step (nextBit load (dataAt ram dataBuf j) (j % 8) (dataBuf + j / 8 + 1)) s =
      (some (dataAt ram dataBuf (j + 1), (j + 1) % 8, dataBuf + (j + 1) / 8 + 1),
        if j % 8 = 7 then loaded (dataBuf + j / 8 + 1) else s) := by
  by_cases last : j % 8 + 1 = 8
  · rw [nextBit, if_pos last, if_pos (by omega), ← dataAt_next ram dataBuf last,
      show (j + 1) % 8 = 0 by omega, show (j + 1) / 8 = j / 8 + 1 by omega]
    exact Prog.run_bind_of_eq step (loads _)
  · rw [nextBit, if_neg last, if_neg (by omega), dataAt_succ ram dataBuf last,
      show (j + 1) % 8 = j % 8 + 1 by omega, show (j + 1) / 8 = j / 8 by omega]
    rfl

end Walk

end Otp

end K210Guard
