/-
**Reading back in bypass mode** (`drivers/otp.c`).

`otp_soft_write` takes its address in bytes, `otp_soft_read` in bits. `softRead_softWrite_iff` says
for which contents a read of the same address and length still sees the data or-ed in: every bit of
the data is covered by a cell that was set, or equals the bit `7 * addr` before it, which is the one
that was programmed there.
-/

import K210Guard.Otp.SoftAccess

namespace K210Guard

open Prog (run run_bind_of_eq)

namespace Otp

namespace Bypass

variable {c : Checks}

/-- The cells behind a write that no bit address of wraps. -/
theorem programAll_pulsed {addr : Word} {bytes : Nat} (cells : Cells) (ram : Nat → Byte)
    (dataBuf a : Nat) (fits : 8 * (addr.toNat + bytes) ≤ 2 ^ 32) :
    cells.programAll (pulsed ram dataBuf (addr * 8) 0 (8 * bytes)) a = true ↔
      cells a = true ∨
        ∃ i < 8 * bytes, 8 * addr.toNat + i = a ∧ bufferBit ram dataBuf i = true := by
  have address : ∀ i < 8 * bytes,
      (addr * 8 + BitVec.ofNat 32 i).toNat = 8 * addr.toNat + i :=
    fun i below => toNat_bitAddress (by omega)
  rw [programAll_iff, pulsed]
  refine or_congr_right ⟨?_, ?_⟩
  · rintro ⟨p, given, same, set⟩
    obtain ⟨i, among, rfl⟩ := List.mem_map.mp given
    have below : i < 8 * bytes := by simpa using among
    exact ⟨i, below, (address i below).symm.trans same, set⟩
  · rintro ⟨i, below, same, set⟩
    have among : i ∈ List.range' 0 (8 * bytes) := by simpa using below
    exact ⟨_, List.mem_map_of_mem among, (address i below).trans same, set⟩

/-- The same, for the cells that a read of the same address sees. -/
theorem programAll_pulsed_seen {addr : Word} {bytes j : Nat} (cells : Cells) (ram : Nat → Byte)
    (dataBuf : Nat) (fits : 8 * (addr.toNat + bytes) ≤ 2 ^ 32) (below : j < 8 * bytes) :
    cells.programAll (pulsed ram dataBuf (addr * 8) 0 (8 * bytes)) (addr.toNat + j) =
      (cells (addr.toNat + j) || (decide (7 * addr.toNat ≤ j) &&
        bufferBit ram dataBuf (j - 7 * addr.toNat))) := by
  rw [Bool.eq_iff_iff, programAll_pulsed cells ram dataBuf _ fits, Bool.or_eq_true,
    Bool.and_eq_true, decide_eq_true_iff]
  refine or_congr_right ⟨?_, ?_⟩
  · rintro ⟨i, -, same, set⟩
    refine ⟨by omega, ?_⟩
    rwa [show j - 7 * addr.toNat = i by omega]
  · rintro ⟨late, set⟩
    exact ⟨j - 7 * addr.toNat, by omega, by omega, set⟩

theorem or_eq_or_iff (a b d : Bool) : (a || b) = (a || d) ↔ a = true ∨ b = d := by
  cases a <;> simp

/-- Bit by bit is byte by byte. -/
theorem forall_bytes_iff (P : Nat → Prop) (bytes : Nat) :
    (∀ k < bytes, ∀ i < 8, P (8 * k + i)) ↔ ∀ j < 8 * bytes, P j := by
  constructor
  · intro all j below
    have one := all (j / 8) (by omega) (j % 8) (Nat.mod_lt j (by decide))
    rwa [Nat.div_add_mod] at one
  · intro all k below i small
    exact all (8 * k + i) (by omega)

/-- A byte that is read after a write of the same address and length. -/
theorem readBack_run {m t : Machine} {addr length : Word} (dataBuf out : Nat)
    (fits : 8 * (addr.toNat + length.toNat) < 2 ^ 32)
    (written : run (Machine.step c) (otpSoftWrite addr dataBuf length) m = (some .ok, t)) :
    ∃ u, run (Machine.step c) (otpSoftRead addr out length) t = (some .ok, u) ∧
      ∀ k < length.toNat,
        (u.ram (out + k) = m.cells.byte (addr.toNat + 8 * k) ||| m.ram (dataBuf + k) ↔
          ∀ i < 8, m.cells (addr.toNat + (8 * k + i)) = true ∨
            bufferBit m.ram dataBuf (8 * k + i) = (decide (7 * addr.toNat ≤ 8 * k + i) &&
              bufferBit m.ram dataBuf (8 * k + i - 7 * addr.toNat))) := by
  obtain ⟨status, last, writes, -, -, done, -⟩ := otpSoftWrite_run (c := c) addr dataBuf length m
  rw [written] at writes
  obtain ⟨same, rfl⟩ := Prod.mk.inj writes
  obtain ⟨cells, -⟩ := done (Option.some.inj same).symm
  have bits : (length * 8).toNat = 8 * length.toNat := by
    rw [BitVec.toNat_mul]
    show length.toNat * 8 % 2 ^ 32 = _
    omega
  rw [bits] at cells
  obtain ⟨u, reads, copied⟩ := otpSoftRead_run (c := c) addr out length t
  refine ⟨u, reads, fun k below => ?_⟩
  have address : (addr + BitVec.ofNat 32 (8 * k)).toNat = addr.toNat + 8 * k := by
    rw [BitVec.toNat_add, BitVec.toNat_ofNat]
    omega
  rw [copied.bytes k below, address, cells, byte_eq_or_iff]
  refine forall₂_congr fun i small => ?_
  rw [Nat.add_assoc, programAll_pulsed_seen m.cells m.ram dataBuf fits.le (by omega),
    or_eq_or_iff, bufferBit_byte m.ram dataBuf k small]
  exact or_congr_right eq_comm

/-- **When a bypass read sees what a bypass write wrote.** -/
theorem softRead_softWrite_iff (c : Checks) (m t : Machine) (addr length : Word)
    (dataBuf out : Nat) (fits : 8 * (addr.toNat + length.toNat) < 2 ^ 32)
    (written : run (Machine.step c) (otpSoftWrite addr dataBuf length) m = (some .ok, t)) :
    ∃ u, run (Machine.step c) (otpSoftRead addr out length) t = (some .ok, u) ∧
      ((∀ k < length.toNat, u.ram (out + k) =
          m.cells.byte (addr.toNat + 8 * k) ||| m.ram (dataBuf + k)) ↔
        ∀ j < 8 * length.toNat, m.cells (addr.toNat + j) = true ∨
          bufferBit m.ram dataBuf j = (decide (7 * addr.toNat ≤ j) &&
            bufferBit m.ram dataBuf (j - 7 * addr.toNat))) := by
  obtain ⟨u, reads, bytes⟩ := readBack_run dataBuf out fits written
  refine ⟨u, reads, ?_⟩
  rw [← forall_bytes_iff]
  exact forall₂_congr bytes

/-! ### Two runs -/

/-- Every look at `otp_dat_cpu` is good. -/
def Checks.good : Checks := ⟨fun _ _ => 0, fun _ => 0⟩

/-- The machine before the first access. -/
def Machine.initial (cells : Cells) (ram : Nat → Byte) : Machine where
  lines := fun _ => 0
  cells := cells
  latch := false
  ram := ram
  rounds := 0
  pulses := 0
  seen := false
  loads := []

/-- With good looks only, a write returns OK. -/
theorem good_run (addr : Word) (dataBuf : Nat) (length : Word) (m : Machine) :
    ∃ t, run (Machine.step .good) (otpSoftWrite addr dataBuf length) m = (some .ok, t) := by
  obtain ⟨status, t, writes, -, pass, -⟩ :=
    otpSoftWrite_run (c := .good) addr dataBuf length m
  obtain rfl := pass.mpr fun _ _ => BitVec.getLsbD_zero
  exact ⟨t, writes⟩

/-- Two bytes at the start of the array are read back. -/
theorem softRead_softWrite_iff_start :
    let m := Machine.initial (fun _ => false) fun _ => 0xA5
    ∃ t, run (Machine.step .good) (otpSoftWrite 0 0 2) m = (some .ok, t) ∧
      ∃ u, run (Machine.step .good) (otpSoftRead 0 0x100 2) t = (some .ok, u) ∧
        ∀ k < (2 : Word).toNat,
          u.ram (0x100 + k) = m.cells.byte ((0 : Word).toNat + 8 * k) ||| m.ram (0 + k) := by
  intro m
  obtain ⟨t, writes⟩ := good_run 0 0 2 m
  obtain ⟨u, reads, seen⟩ := softRead_softWrite_iff .good m t 0 2 0 0x100 (by decide) writes
  refine ⟨t, writes, u, reads, seen.mpr fun j _ => .inr ?_⟩
  simp

/-- One byte at byte address 16, with its lowest bit set, is not read back from there. -/
theorem softWrite_shifted :
    let m := Machine.initial (fun _ => false) fun _ => 0x01
    ∃ t, run (Machine.step .good) (otpSoftWrite 16 0 1) m = (some .ok, t) ∧
      ∃ u, run (Machine.step .good) (otpSoftRead 16 0x100 1) t = (some .ok, u) ∧
        u.ram (0x100 + 0) ≠ m.cells.byte (16 + 8 * 0) ||| m.ram (0 + 0) := by
  intro m
  obtain ⟨t, writes⟩ := good_run 16 0 1 m
  obtain ⟨u, reads, seen⟩ :=
    readBack_run 0 0x100 (by decide) writes
  refine ⟨t, writes, u, reads, fun same => ?_⟩
  have first := (seen 0 (by decide)).mp same 0 (by decide)
  revert first
  decide

end Bypass

end Otp

end K210Guard
