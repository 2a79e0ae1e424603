/-
**The loads of the writers** (`drivers/otp.c`).

Both writers fetch the next byte right behind the last bit of the one before, so a writer that comes
to the end of its buffer has read the byte behind it. `writers_bounded_iff` says when the loads stay
inside: when the loop is left early, or when the number of bits does not fit into 32 bits.
-/

import K210Guard.Otp.SoftAccess

namespace K210Guard

open Prog (run run_bind_of_eq run_perform_bind)

namespace Otp

/-! ### The bytes that are fetched -/

/-- The addresses are those of a buffer of `length` bytes. -/
def OnlyReads (loads : List Nat) (dataBuf length : Nat) : Prop :=
  ∀ a ∈ loads, dataBuf ≤ a ∧ a < dataBuf + length

instance (loads : List Nat) (dataBuf length : Nat) : Decidable (OnlyReads loads dataBuf length) :=
  inferInstanceAs (Decidable (∀ a ∈ loads, _))

theorem mem_fetched {dataBuf count a : Nat} :
    a ∈ fetched dataBuf 0 count ↔ ∃ i < count, i % 8 = 7 ∧ a = dataBuf + i / 8 + 1 := by
  simp [fetched, and_assoc, eq_comm]

/-- Before the last bit, only bytes of the buffer have been fetched. -/
theorem onlyReads_early (dataBuf : Nat) {bytes length i : Nat} (early : i < 8 * bytes)
    (fits : bytes ≤ length) : OnlyReads (dataBuf :: fetched dataBuf 0 i) dataBuf length := by
  intro a among
  obtain rfl | later := List.mem_cons.mp among
  · omega
  · obtain ⟨j, below, last, rfl⟩ := mem_fetched.mp later
    omega

/-- Behind the last bit, the byte behind the last one has been fetched too. -/
theorem onlyReads_whole (dataBuf bytes length : Nat) :
    OnlyReads (dataBuf :: fetched dataBuf 0 (8 * bytes)) dataBuf length ↔ bytes < length := by
  constructor
  · intro only
    by_cases none : bytes = 0
    · have first := only dataBuf List.mem_cons_self
      omega
    · have behind : dataBuf + bytes ∈ fetched dataBuf 0 (8 * bytes) :=
        mem_fetched.mpr ⟨8 * bytes - 1, by omega, by omega, by omega⟩
      have last := only _ (List.mem_cons_of_mem _ behind)
      omega
  · intro below a among
    obtain rfl | later := List.mem_cons.mp among
    · omega
    · obtain ⟨j, small, last, rfl⟩ := mem_fetched.mp later
      omega

/-- The bits of a length, as many as 32 bits can count. -/
theorem bits_toNat (length : Word) : (length * 8).toNat = 8 * (length.toNat % 2 ^ 29) := by
  rw [BitVec.toNat_mul]
  show length.toNat * 8 % 2 ^ 32 = _
  omega

/-- A writer that takes the byte behind each byte ahead of need. -/
theorem onlyReads_iff {new : List Nat} {dataBuf : Nat} {length : Word} {all : Prop}
    (whole : all → new = dataBuf :: fetched dataBuf 0 (length * 8).toNat)
    (early : ¬ all → ∃ i < (length * 8).toNat, new = dataBuf :: fetched dataBuf 0 i) :
    OnlyReads new dataBuf length.toNat ↔ 2 ^ 29 ≤ length.toNat ∨ ¬ all := by
  by_cases finished : all
  · rw [whole finished, bits_toNat, onlyReads_whole, or_iff_left (not_not.mpr finished)]
    omega
  · obtain ⟨i, below, rfl⟩ := early finished
    rw [bits_toNat] at below
    exact iff_of_true (onlyReads_early dataBuf below (Nat.mod_le _ _)) (.inr finished)

/-! ### The two writers -/

/-- **When the writers read only their buffer**, from every machine. -/
theorem writers_bounded_iff (c : Controller) (checks : Bypass.Checks) (addr length : Word)
    (dataBuf : Nat) :
    (∀ m, ∃ status t new, run (Machine.step c) (otpWriteByte addr dataBuf length) m =
        (some status, t) ∧ t.loads = m.loads ++ new ∧
      (OnlyReads new dataBuf length.toNat ↔ 2 ^ 29 ≤ length.toNat ∨
        ¬ c.TakesAll m.rounds
          (offered m.ram dataBuf (length * 8).toNat 0 (length * 8).toNat).length)) ∧
    ∀ m, ∃ status t new, run (Bypass.Machine.step checks)
        (Bypass.otpSoftWrite addr dataBuf length) m = (some status, t) ∧
      t.loads = m.loads ++ new ∧
      (OnlyReads new dataBuf length.toNat ↔ 2 ^ 29 ≤ length.toNat ∨
        ¬ checks.Pass m.rounds (length * 8).toNat) := by
  constructor
  · intro m
    obtain ⟨status, t, writes, -, taken, refused⟩ :=
      otpWriteByte_run (c := c) addr dataBuf length m
    by_cases all : c.TakesAll m.rounds
        (offered m.ram dataBuf (length * 8).toNat 0 (length * 8).toNat).length
    · exact ⟨status, t, _, writes, (taken all).2.2,
        onlyReads_iff (fun _ => rfl) fun some => absurd all some⟩
    · obtain ⟨i, below, loads⟩ := refused all
      exact ⟨status, t, _, writes, loads,
        onlyReads_iff (fun whole => absurd whole all) fun _ => ⟨i, below, rfl⟩⟩
  · intro m
    obtain ⟨status, t, writes, -, pass, finished, early⟩ :=
      Bypass.otpSoftWrite_run (c := checks) addr dataBuf length m
    by_cases all : checks.Pass m.rounds (length * 8).toNat
    · exact ⟨status, t, _, writes, (finished (pass.mpr all)).2,
        onlyReads_iff (fun _ => rfl) fun some => absurd all some⟩
    · obtain ⟨i, below, loads⟩ := early fun ok => all (pass.mp ok)
      exact ⟨status, t, _, writes, loads,
        onlyReads_iff (fun whole => absurd whole all) fun _ => ⟨i, below, rfl⟩⟩

/-- Whoever sets control bits through a variable of one byte has the byte behind it read, too. -/
theorem setControlBits_run {c : Controller} (taken : ∀ n, c.Takes n) (area : Word) {number : Nat}
    (valid : number < 64) (value : Nat) (m : Machine) :
    ∃ status t, run (Machine.step c) (setControlBits area number value) m = (some status, t) ∧
      t.loads = m.loads ++ [value, value + 1] := by
  obtain ⟨first, unlocks, same⟩ : ∃ first, Machine.step c m (.write .dataBlkCtrl 0x01) =
      ((), first) ∧ first.loads = m.loads := ⟨_, rfl, rfl⟩
  obtain ⟨ready, stores, loads⟩ : ∃ ready, Machine.step c first
      (.store value (0x03#8 <<< (number % 4 * 2))) = ((), ready) ∧ ready.loads = first.loads :=
    ⟨_, rfl, rfl⟩
  obtain ⟨status, t, writes, -, finished, -⟩ := otpWriteByte_run (c := c)
    (area + BitVec.ofNat 32 (number / 4)) value 1 ready
  have reads := (finished fun n _ => taken _).2.2
  rw [loads, same] at reads
  rw [setControlBits, if_neg (Nat.not_le.mpr valid)]
  exact ⟨status, _, (run_perform_bind _ unlocks).trans ((run_perform_bind _ stores).trans
    (run_bind_of_eq _ writes)), reads⟩

/-- A data block is protected, with the value for it in a local variable at 0x40: the byte behind
this variable is read. -/
theorem otpDataBlockProtectSet_overreads :
    ∃ status t, run (Machine.step .prompt) (otpDataBlockProtectSet 0 0x40)
        (Machine.initial (fun _ => false) fun _ => 0) = (some status, t) ∧
      t.loads = [0x40, 0x41] ∧ ¬ OnlyReads t.loads 0x40 1 := by
  obtain ⟨status, t, sets, loads⟩ := setControlBits_run Controller.prompt_takes otpBlockCtlAddr
    (show 0 < 64 by decide) 0x40 (Machine.initial (fun _ => false) fun _ => 0)
  refine ⟨status, t, sets, loads, ?_⟩
  rw [loads]
  decide

end Otp

end K210Guard
