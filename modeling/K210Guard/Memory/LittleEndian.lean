/-
**Little-endian numbers.**

`leNat` is the number that a list of bytes spells, least significant byte first, and `leBytes` the
bytes of a number in a given width; they are inverse to each other inside the width.
-/

import Mathlib.Tactic.Common
import K210Guard.Memory.Range

namespace K210Guard

/-- The number a list of bytes spells. -/
def leNat : List Byte → Nat
  | [] => 0
  | value :: rest => value.toNat + 256 * leNat rest

/-- The low `width` bytes of a number. -/
def leBytes : Nat → Nat → List Byte
  | 0, _ => []
  | width + 1, value => BitVec.ofNat 8 value :: leBytes width (value / 256)

@[simp] theorem leBytes_length (width value : Nat) : (leBytes width value).length = width := by
  induction width generalizing value with
  | zero => rfl
  | succ width ih => simp [leBytes, ih]

theorem leNat_lt (bytes : List Byte) : leNat bytes < 256 ^ bytes.length := by
  induction bytes with
  | nil => simp [leNat]
  | cons value rest ih =>
      have small := value.isLt
      rw [leNat, List.length_cons, Nat.pow_succ]
      omega

/-- Spelling a number and reading it keeps its residue. -/
theorem leNat_leBytes (width value : Nat) : leNat (leBytes width value) = value % 256 ^ width := by
  induction width generalizing value with
  | zero => simp [leBytes, leNat, Nat.mod_one]
  | succ width ih =>
      rw [leBytes, leNat, ih, BitVec.toNat_ofNat, Nat.pow_succ' (m := 256), Nat.mod_mul]

/-- Reading a number and spelling it gives the bytes back. -/
theorem leBytes_leNat (bytes : List Byte) : leBytes bytes.length (leNat bytes) = bytes := by
  induction bytes with
  | nil => rfl
  | cons value rest ih =>
      have small := value.isLt
      have head : BitVec.ofNat 8 (value.toNat + 256 * leNat rest) = value := by
        apply BitVec.eq_of_toNat_eq
        rw [BitVec.toNat_ofNat]
        omega
      rw [leNat, List.length_cons, leBytes, head,
        show (value.toNat + 256 * leNat rest) / 256 = leNat rest by omega, ih]

/-! ### Single bytes -/

theorem getElem_leBytes (width value index : Nat) (bound : index < (leBytes width value).length) :
    (leBytes width value)[index] = BitVec.ofNat 8 (value / 256 ^ index) := by
  induction width generalizing value index with
  | zero => simp [leBytes] at bound
  | succ width ih =>
      cases index with
      | zero => simp [leBytes]
      | succ index =>
          simp only [leBytes, List.getElem_cons_succ]
          rw [ih, Nat.div_div_eq_div_mul, Nat.pow_succ']

/-- The low bytes, then the bytes above them. -/
theorem leBytes_add (first second value : Nat) :
    leBytes (first + second) value =
      leBytes first value ++ leBytes second (value / 256 ^ first) := by
  induction first generalizing value with
  | zero => simp [leBytes]
  | succ first ih =>
      rw [Nat.add_right_comm, leBytes, leBytes, ih, List.cons_append, Nat.div_div_eq_div_mul,
        Nat.pow_succ']

/-- Bits above the width do not matter. -/
theorem leBytes_mod (width value : Nat) :
    leBytes width (value % 256 ^ width) = leBytes width value := by
  have back := leBytes_leNat (leBytes width value)
  rwa [leNat_leBytes, leBytes_length] at back

/-- A byte of a bit vector. -/
theorem ofNat_byte {width : Nat} (x : BitVec width) (index : Nat) :
    BitVec.ofNat 8 (x.toNat / 256 ^ index) = x.extractLsb' (8 * index) 8 := by
  apply BitVec.eq_of_toNat_eq
  rw [BitVec.toNat_ofNat, BitVec.extractLsb'_toNat, Nat.shiftRight_eq_div_pow, Nat.pow_mul]

end K210Guard
