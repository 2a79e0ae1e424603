/-
**Writing data and reading it back** (`drivers/otp.c`).

* `otpWriteData_exact`: what `otp_write_data` programs when the controller takes every bit it is
  offered: the set bits of the data and the last bit, in ascending order and in front of the
  self-repair data, and `otp_read_data` then returns the old bytes with the data or-ed in.
-/

import K210Guard.Otp.Reading

namespace K210Guard

open Prog (run run_bind_of_eq)

namespace Otp

variable {c : Controller}

/-! ### Cells and bits -/

/-- A cell is set by the bits that are programmed there, and only by these. -/
theorem programAll_iff (cells : Cells) (bits : List Programming) (a : Nat) :
    cells.programAll bits a = true ↔
      cells a = true ∨ ∃ p ∈ bits, p.address = a ∧ p.value = true := by
  induction bits generalizing cells with
  | nil => simp [Cells.programAll]
  | cons p bits ih =>
      have rest := ih (cells.program p.address p.value)
      rw [Cells.program_apply, Bool.or_eq_true, Bool.and_eq_true, decide_eq_true_iff] at rest
      rw [List.exists_mem_cons_iff, ← or_assoc, eq_comm (a := p.address)]
      exact rest

/-- When a byte reads as its old value with `data` or-ed in. -/
theorem byte_eq_or_iff {cells after : Cells} {address : Nat} {data : Byte} :
    after.byte address = cells.byte address ||| data ↔
      ∀ i < 8, after (address + i) = (cells (address + i) || data.getLsbD i) := by
  rw [BitVec.eq_of_getLsbD_eq_iff]
  refine forall₂_congr fun i small => ?_
  rw [BitVec.getLsbD_or, Cells.getLsbD_byte _ _ small, Cells.getLsbD_byte _ _ small]

theorem bufferBit_byte (ram : Nat → Byte) (dataBuf k : Nat) {i : Nat} (small : i < 8) :
    bufferBit ram dataBuf (8 * k + i) = (ram (dataBuf + k)).getLsbD i := by
  rw [bufferBit, Nat.mul_add_div (by decide), Nat.div_eq_of_lt small, Nat.mul_add_mod,
    Nat.mod_eq_of_lt small, Nat.add_zero]

theorem mem_offered {ram : Nat → Byte} {dataBuf count i : Nat} :
    i ∈ offered ram dataBuf count 0 count ↔
      i < count ∧ (i + 1 = count ∨ bufferBit ram dataBuf i = true) := by
  simp [offered, List.mem_range'_1]

theorem offered_ascending (ram : Nat → Byte) (dataBuf count j length : Nat) :
    (offered ram dataBuf count j length).Pairwise (· < ·) :=
  (List.pairwise_lt_range' 1).filter _

/-! ### Addresses -/

/-- The bytes of a length from a byte address on that are in front of the self-repair data. -/
def dataBytes (addr length : Word) : Nat :=
  min length.toNat (otpBisrDataAddr.toNat - addr.toNat)

theorem clampLength_toNat {addr length : Word} (inside : addr < otpBisrDataAddr) :
    (clampLength addr length).toNat = dataBytes addr length := by
  have room : (otpBisrDataAddr - addr).toNat = otpBisrDataAddr.toNat - addr.toNat :=
    BitVec.toNat_sub_of_le (BitVec.le_of_lt inside)
  rw [clampLength, dataBytes]
  by_cases fits : length ≤ otpBisrDataAddr - addr
  · rw [if_pos fits, min_eq_left]
    rwa [← room]
  · rw [if_neg fits, room, min_eq_right]
    rw [← room]
    exact (not_le.mp fits).le

theorem dataBytes_inside {addr : Word} (length : Word) (inside : addr < otpBisrDataAddr) :
    addr.toNat + dataBytes addr length ≤ otpBisrDataAddr.toNat := by
  have room : dataBytes addr length ≤ otpBisrDataAddr.toNat - addr.toNat := min_le_right _ _
  have below : addr.toNat < otpBisrDataAddr.toNat := inside
  omega

theorem dataBytes_pos {addr length : Word} (inside : addr < otpBisrDataAddr)
    (nonempty : 1 ≤ length) : 0 < dataBytes addr length :=
  lt_min nonempty (Nat.sub_pos_of_lt inside)

/-- The bits of the clamped length do not wrap. -/
theorem clampLength_bits {addr length : Word} (inside : addr < otpBisrDataAddr) :
    (clampLength addr length * 8).toNat = 8 * dataBytes addr length := by
  have bound : otpBisrDataAddr.toNat = 0x3DD0 := rfl
  have room := dataBytes_inside length inside
  rw [BitVec.toNat_mul, clampLength_toNat inside]
  show dataBytes addr length * 8 % 2 ^ 32 = _
  omega

/-- A bit address that fits does not wrap. -/
theorem toNat_bitAddress {addr : Word} {i : Nat} (fits : 8 * addr.toNat + i < 2 ^ 32) :
    (addr * 8 + BitVec.ofNat 32 i).toNat = 8 * addr.toNat + i := by
  rw [BitVec.toNat_add, BitVec.toNat_mul, BitVec.toNat_ofNat]
  show (addr.toNat * 8 % 2 ^ 32 + i % 2 ^ 32) % 2 ^ 32 = _
  omega

/-- Nor does one of a byte in front of the self-repair data. -/
theorem bitAddress_toNat {addr : Word} {bytes i : Nat}
    (inside : addr.toNat + bytes ≤ otpBisrDataAddr.toNat) (below : i < 8 * bytes) :
    (addr * 8 + BitVec.ofNat 32 i).toNat = 8 * addr.toNat + i := by
  have bound : otpBisrDataAddr.toNat = 0x3DD0 := rfl
  exact toNat_bitAddress (by omega)

/-! ### The data as a whole -/

/-- The bits of `bytes` bytes of data, programmed from the byte address `addr` on: in ascending
order, in front of the self-repair data, those that are set and the last one, each with its own
value, and the mark on the last one alone. -/
structure ProgramsData (addr bytes : Nat) (data : Nat → Byte) (bits : List Programming) :
    Prop where
  ascending : bits.Pairwise fun p q => p.address < q.address
  inside : ∀ p ∈ bits, p.address < 8 * otpBisrDataAddr.toNat
  exactly : ∀ a, (∃ p ∈ bits, p.address = a) ↔
    (∃ k < bytes, ∃ i < 8, (data k).getLsbD i = true ∧ a = 8 * addr + 8 * k + i) ∨
      a = 8 * addr + 8 * bytes - 1
  value : ∀ p ∈ bits, ∀ k < bytes, ∀ i < 8, p.address = 8 * addr + 8 * k + i →
    p.value = (data k).getLsbD i
  marked : ∀ p ∈ bits, p.last = true ↔ p.address = 8 * addr + 8 * bytes - 1

/-- The offered bits are the data. -/
theorem programsData_offered (ram : Nat → Byte) (dataBuf : Nat) {addr : Word} {bytes : Nat}
    (nonempty : 0 < bytes) (inside : addr.toNat + bytes ≤ otpBisrDataAddr.toNat) :
    ProgramsData addr.toNat bytes (fun k => ram (dataBuf + k))
      ((offered ram dataBuf (8 * bytes) 0 (8 * bytes)).map
        (programming ram dataBuf (8 * bytes) (addr * 8))) := by
  have address : ∀ i ∈ offered ram dataBuf (8 * bytes) 0 (8 * bytes),
      (programming ram dataBuf (8 * bytes) (addr * 8) i).address = 8 * addr.toNat + i :=
    fun i among => bitAddress_toNat inside (mem_offered.mp among).1
  refine ⟨?_, ?_, fun a => ?_, ?_, ?_⟩
  · rw [List.pairwise_map]
    refine (offered_ascending ram dataBuf _ _ _).imp_of_mem fun first second below => ?_
    rw [address _ first, address _ second]
    exact Nat.add_lt_add_left below _
  · rw [List.forall_mem_map]
    intro i among
    rw [address i among]
    have below := (mem_offered.mp among).1
    omega
  · constructor
    · rintro ⟨p, given, rfl⟩
      obtain ⟨i, among, rfl⟩ := List.mem_map.mp given
      rw [address i among]
      obtain ⟨below, last | set⟩ := mem_offered.mp among
      · exact .inr (by omega)
      · exact .inl ⟨i / 8, by omega, i % 8, by omega, set, by omega⟩
    · rintro (⟨k, below, i, small, set, rfl⟩ | rfl)
      · have among : 8 * k + i ∈ offered ram dataBuf (8 * bytes) 0 (8 * bytes) := by
          rw [mem_offered, bufferBit_byte ram dataBuf k small]
          exact ⟨by omega, .inr set⟩
        exact ⟨_, List.mem_map_of_mem among, (address _ among).trans (Nat.add_assoc _ _ _).symm⟩
      · have among : 8 * bytes - 1 ∈ offered ram dataBuf (8 * bytes) 0 (8 * bytes) := by
          rw [mem_offered]
          exact ⟨by omega, .inl (by omega)⟩
        exact ⟨_, List.mem_map_of_mem among, (address _ among).trans (by omega)⟩
  · rw [List.forall_mem_map]
    intro i among k below b small same
    rw [address i among, Nat.add_assoc] at same
    rw [programming, Nat.add_left_cancel same, bufferBit_byte ram dataBuf k small]
  · rw [List.forall_mem_map]
    intro i among
    rw [address i among, programming, decide_eq_true_iff]
    omega

/-- The cells of the data, once it has been programmed. -/
theorem ProgramsData.byte {addr bytes : Nat} {data : Nat → Byte} {bits : List Programming}
    (programs : ProgramsData addr bytes data bits) (cells : Cells) {k : Nat} (below : k < bytes) :
    (cells.programAll bits).byte (8 * addr + 8 * k) =
      cells.byte (8 * addr + 8 * k) ||| data k := by
  refine byte_eq_or_iff.mpr fun i small => ?_
  rw [Bool.eq_iff_iff, programAll_iff, Bool.or_eq_true]
  refine or_congr_right ⟨?_, fun set => ?_⟩
  · rintro ⟨p, among, same, set⟩
    rwa [← programs.value p among k below i small same]
  · obtain ⟨p, among, same⟩ :=
      (programs.exactly (8 * addr + 8 * k + i)).mpr (.inl ⟨k, below, i, small, set, rfl⟩)
    exact ⟨p, among, same, (programs.value p among k below i small same).trans set⟩

/-! ### Writing, then reading -/

/-- **`otp_read_data`**, for every controller. -/
theorem otpReadData_run {addr : Word} (length : Word) (dataBuf : Nat) (m : Machine)
    (inside : addr < otpBisrDataAddr) :
    ∃ status t, run (Machine.step c) (otpReadData addr dataBuf length) m = (some status, t) ∧
      (status = .ok ↔ ∀ n < dataBytes addr length, c.Serves (m.rounds + n)) ∧
      (status = .ok → ∀ k < dataBytes addr length,
        t.ram (dataBuf + k) = m.cells.byte (8 * addr.toNat + 8 * k)) := by
  obtain ⟨status, t, reads, served, copied⟩ :=
    otpReadByte_run (c := c) addr dataBuf (clampLength addr length) m
  rw [clampLength_toNat inside] at served copied
  have kept : (if status = .errorAddress then OtpStatus.errorNull else status) = .ok ↔
      status = .ok := by
    cases status <;> decide
  refine ⟨_, t, ?_, kept.trans served, fun ok k below => ?_⟩
  · rw [otpReadData, if_neg (BitVec.not_le.mpr inside)]
    exact run_bind_of_eq _ reads
  · rw [(copied (kept.mp ok)).bytes k below,
      bitAddress_toNat (dataBytes_inside length inside) (by omega)]

/-- **What is written is exactly the data, and is read back.** -/
theorem otpWriteData_exact (c : Controller) (m : Machine) (addr length : Word) (dataBuf : Nat)
    (inside : addr < otpBisrDataAddr) (nonempty : 1 ≤ length)
    (accepted : c.TakesAll m.rounds (offered m.ram dataBuf (8 * dataBytes addr length) 0
      (8 * dataBytes addr length)).length) :
    ∃ status t bits, run (Machine.step c) (otpWriteData addr dataBuf length) m =
        (some status, t) ∧
      t.programmed = m.programmed ++ bits ∧
      ProgramsData addr.toNat (dataBytes addr length) (fun k => m.ram (dataBuf + k)) bits ∧
      ∀ s out, s.cells = t.cells → ∃ status u,
        run (Machine.step c) (otpReadData addr out length) s = (some status, u) ∧
        (status = .ok ↔ ∀ n < dataBytes addr length, c.Serves (s.rounds + n)) ∧
        (status = .ok → ∀ k < dataBytes addr length,
          u.ram (out + k) = m.cells.byte (8 * addr.toNat + 8 * k) ||| m.ram (dataBuf + k)) := by
  obtain ⟨status, t, writes, -, taken, -⟩ :=
    otpWriteByte_run (c := c) addr dataBuf (clampLength addr length) m
  rw [clampLength_bits inside] at taken
  obtain ⟨programmed, cells, -⟩ := taken accepted
  have programs := programsData_offered m.ram dataBuf (dataBytes_pos inside nonempty)
    (dataBytes_inside length inside)
  refine ⟨if status = .errorAddress then .blockProtected else status, t, _, ?_, programmed,
    programs, fun s out same => ?_⟩
  · rw [otpWriteData, if_neg (BitVec.not_le.mpr inside)]
    exact run_bind_of_eq _ writes
  · obtain ⟨status, u, reads, served, bytes⟩ := otpReadData_run (c := c) length out s inside
    refine ⟨status, u, reads, served, fun ok k below => ?_⟩
    rw [bytes ok k below, same, cells, programs.byte m.cells below]

/-- A controller that takes every address and every bit at once. -/
def Controller.prompt : Controller where
  adrDelay := fun _ => 0
  answerDelay := fun _ => 0
  dataAcp := fun _ => 2
  wrgAdr := fun _ => 0
  status := fun _ _ => 0

theorem Controller.prompt_takes (n : Nat) : Controller.prompt.Takes n :=
  ⟨Nat.succ_pos _, Nat.succ_pos _, nofun, nofun, nofun⟩

/-- The machine before anything was asked of it. -/
def Machine.initial (cells : Cells) (ram : Nat → Byte) : Machine where
  registers := fun _ => 0
  cells := cells
  ram := ram
  clock := 0
  rounds := 0
  adrPolls := 0
  answerPolls := 0
  lastDat := false
  programmed := []
  loads := []

/-- Two bytes at the last byte in front of the self-repair data: one of them is written. -/
theorem otpWriteData_exact_last :
    let m := Machine.initial (fun _ => false) fun _ => 0x05
    ∃ status t bits,
      run (Machine.step .prompt) (otpWriteData 0x3DCF 0 2) m = (some status, t) ∧
      t.programmed = m.programmed ++ bits ∧
      ProgramsData 0x3DCF (dataBytes 0x3DCF 2) (fun k => m.ram (0 + k)) bits ∧
      ∀ s out, s.cells = t.cells → ∃ status u,
        run (Machine.step .prompt) (otpReadData 0x3DCF out 2) s = (some status, u) ∧
        (status = .ok ↔ ∀ n < dataBytes 0x3DCF 2, Controller.prompt.Serves (s.rounds + n)) ∧
        (status = .ok → ∀ k < dataBytes 0x3DCF 2,
          u.ram (out + k) = m.cells.byte (8 * 0x3DCF + 8 * k) ||| m.ram (0 + k)) :=
  otpWriteData_exact .prompt (Machine.initial (fun _ => false) fun _ => 0x05) 0x3DCF 2 0 (by decide)
    (by decide) fun n _ => Controller.prompt_takes _

end Otp

end K210Guard
