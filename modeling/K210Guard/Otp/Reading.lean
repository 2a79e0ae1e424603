/-
**The byte-wise reader** (`drivers/otp.c`).

`otpReadByte_run`: `otp_read_byte` stores the cells of each address as one byte, if the controller
serves every address; else it ends at the first one that is not served.
-/

import K210Guard.Otp.Writing

namespace K210Guard

open Prog (run run_bind_of_eq run_perform_bind)

namespace Otp

variable {c : Controller}

/-- The controller takes the `n`-th address in time and has its byte ready in time. -/
def Controller.Serves (c : Controller) (n : Nat) : Prop :=
  c.adrDelay n < delayTimeout ∧ c.answerDelay n < delayTimeout ∧ c.wrgAdr n ≠ 1

/-- What asking for a byte leaves alone. -/
structure Machine.Asked (m t : Machine) : Prop where
  cells : t.cells = m.cells
  ram : t.ram = m.ram

/-- The byte at the address that has been given. -/
theorem takeByte_run (m : Machine) :
    ∃ result clock, run (Machine.step c) takeByte m = (some result, { m with clock := clock }) ∧
      (c.wrgAdr (m.rounds - 1) ≠ 1 →
        result = .ok (m.cells.byte (m.registers .otpApbAdr).toNat)) ∧
      (c.wrgAdr (m.rounds - 1) = 1 →
        ∃ status, status ≠ OtpStatus.ok ∧ result = Except.error status) := by
  have first : Machine.step c m (.read .otpWrgAdrFlag) =
      (c.wrgAdr (m.rounds - 1), { m with clock := m.clock + 1 }) := rfl
  have second : Machine.step c { m with clock := m.clock + 1 } (.read .otpData) =
      ((m.cells.byte (m.registers .otpApbAdr).toNat).setWidth 32,
        { m with clock := m.clock + 2 }) := rfl
  rw [takeByte, run_read first]
  by_cases wrong : c.wrgAdr (m.rounds - 1) = 1
  · rw [if_pos wrong]
    exact ⟨_, m.clock + 1, rfl, fun right => absurd wrong right,
      fun _ => ⟨.errorAddress, nofun, rfl⟩⟩
  · rw [if_neg wrong, run_read second]
    refine ⟨_, m.clock + 2, rfl, fun _ => ?_, fun right => absurd right wrong⟩
    rw [BitVec.setWidth_setWidth_of_le _ (by decide), BitVec.setWidth_eq]

/-- An address is given and its byte awaited. -/
theorem requestByte_run (last : Bool) (addr : Word) (m : Machine) :
    ∃ result t, run (Machine.step c) (requestByte last addr) m = (some result, t) ∧ m.Asked t ∧
      t.adrPolls = 0 ∧ t.rounds = m.rounds + 1 ∧
      (c.answerDelay m.rounds < delayTimeout ∧ c.wrgAdr m.rounds ≠ 1 →
        result = .ok (m.cells.byte addr.toNat)) ∧
      (¬ (c.answerDelay m.rounds < delayTimeout ∧ c.wrgAdr m.rounds ≠ 1) →
        ∃ status, status ≠ OtpStatus.ok ∧ result = Except.error status) := by
  obtain ⟨given, gives, asked, fresh, adrPolls, rounds, address⟩ :
      ∃ given, run (Machine.step c) (requestByte last addr) m = run (Machine.step c) (do
          let ready ← waitFlag .otpDataRdy delayTimeout
          if ready then takeByte else pure (.error .errorTimeout)) given ∧
        m.Asked given ∧ given.answerPolls = 0 ∧ given.adrPolls = 0 ∧ given.rounds = m.rounds + 1 ∧
        given.registers .otpApbAdr = addr := by
    have holds : ∀ k : Machine,
        (Machine.step c k (.write .otpApbAdr addr)).2.registers .otpApbAdr = addr :=
      fun k => Function.update_self (β := fun _ => Word) Register.otpApbAdr addr k.registers
    cases last <;> exact ⟨_, rfl, ⟨rfl, rfl⟩, rfl, rfl, rfl, holds _⟩
  obtain ⟨clock, count, waits, -⟩ := waitAnswer_run (c := c) .otpDataRdy 1 given fresh
    fun _ _ => rfl
  have current : given.rounds - 1 = m.rounds := by rw [rounds, Nat.add_sub_cancel]
  rw [current] at waits
  by_cases inTime : c.answerDelay m.rounds < delayTimeout
  · rw [decide_eq_true ⟨inTime, by decide⟩] at waits
    obtain ⟨result, clock', takes, right, wrong⟩ :=
      takeByte_run (c := c) { given with clock := clock, answerPolls := count }
    rw [current] at right wrong
    rw [address, asked.cells] at right
    refine ⟨result, _, gives.trans ((run_bind_of_eq _ waits).trans takes),
      ⟨asked.cells, asked.ram⟩, adrPolls, rounds, fun serves => right serves.2, fun fails => ?_⟩
    exact wrong (not_not.mp fun free => fails ⟨inTime, free⟩)
  · rw [decide_eq_false fun both => inTime both.1] at waits
    exact ⟨_, _, gives.trans ((run_bind_of_eq _ waits).trans rfl), ⟨asked.cells, asked.ram⟩,
      adrPolls, rounds, fun serves => absurd serves.1 inTime, fun _ => ⟨.errorTimeout, nofun, rfl⟩⟩

/-- **One byte is read**, if the controller serves its address. -/
theorem readByte_run (last : Bool) (addr : Word) (m : Machine) (fresh : m.adrPolls = 0) :
    ∃ result t, run (Machine.step c) (readByte last addr) m = (some result, t) ∧ m.Asked t ∧
      (c.Serves m.rounds → result = .ok (m.cells.byte addr.toNat) ∧
        t.adrPolls = 0 ∧ t.rounds = m.rounds + 1) ∧
      (¬ c.Serves m.rounds → ∃ status, status ≠ OtpStatus.ok ∧ result = Except.error status) := by
  obtain ⟨clock, count, waits⟩ := waitAddress_run (c := c) m fresh
  by_cases inTime : c.adrDelay m.rounds < delayTimeout
  · rw [decide_eq_true inTime] at waits
    obtain ⟨result, t, requests, asked, adrPolls, rounds, right, wrong⟩ :=
      requestByte_run (c := c) last addr { m with clock := clock, adrPolls := count }
    refine ⟨result, t, (run_bind_of_eq _ waits).trans requests, ⟨asked.cells, asked.ram⟩,
      fun serves => ⟨right serves.2, adrPolls, rounds⟩, fun fails => wrong fun rest => ?_⟩
    exact fails ⟨inTime, rest⟩
  · rw [decide_eq_false inTime] at waits
    exact ⟨_, _, (run_bind_of_eq _ waits).trans rfl, ⟨rfl, rfl⟩,
      fun serves => absurd serves.1 inTime, fun _ => ⟨.errorTimeout, nofun, rfl⟩⟩

/-! ### The loop -/

theorem address_succ (addr : Word) (k : Nat) :
    addr + BitVec.ofNat 32 (8 * (k + 1)) = addr + 8 + BitVec.ofNat 32 (8 * k) := by
  rw [Nat.mul_succ, Nat.add_comm, BitVec.ofNat_add, ← BitVec.add_assoc]
  rfl

/-- The cells from a bit address on, copied into `length` bytes of the memory. -/
structure Copied (cells : Cells) (addr : Word) (dataBuf length : Nat) (ram after : Nat → Byte) :
    Prop where
  below : ∀ a < dataBuf, after a = ram a
  bytes : ∀ k < length,
    after (dataBuf + k) = cells.byte (addr + BitVec.ofNat 32 (8 * k)).toNat

/-- One byte is stored, then the rest. -/
theorem Copied.succ {cells : Cells} {addr : Word} {dataBuf length : Nat} {ram after : Nat → Byte}
    (rest : Copied cells (addr + 8) (dataBuf + 1) length
      (Function.update ram dataBuf (cells.byte addr.toNat)) after) :
    Copied cells addr dataBuf (length + 1) ram after where
  below a low := by
    rw [rest.below a (Nat.lt_succ_of_lt low)]
    exact Function.update_of_ne (ne_of_lt low) _ _
  bytes k small := by
    cases k with
    | zero =>
        rw [Nat.add_zero, rest.below dataBuf (Nat.lt_succ_self dataBuf)]
        exact (Function.update_self _ _ _).trans (by simp)
    | succ k =>
        rw [show dataBuf + (k + 1) = dataBuf + 1 + k by omega,
          rest.bytes k (Nat.lt_of_succ_lt_succ small), address_succ]

/-- The controller serves all of some addresses. -/
def Controller.ServesAll (c : Controller) (start count : Nat) : Prop :=
  ∀ n < count, c.Serves (start + n)

theorem servesAll_succ (start count : Nat) :
    c.ServesAll start (count + 1) ↔ c.Serves start ∧ c.ServesAll (start + 1) count := by
  rw [Controller.ServesAll, Nat.forall_lt_succ_left]
  exact and_congr_right' (forall₂_congr fun n _ => by rw [Nat.add_assoc, Nat.add_comm 1 n])

/-- **The loop of `otp_read_byte`.** -/
theorem readBytes_run (length : Nat) (addr : Word) (dataBuf : Nat) (m : Machine)
    (fresh : m.adrPolls = 0) :
    ∃ status t, run (Machine.step c) (readBytes length addr dataBuf) m = (some status, t) ∧
      (status = .ok ↔ c.ServesAll m.rounds length) ∧
      (status = .ok → Copied m.cells addr dataBuf length m.ram t.ram) := by
  induction length generalizing addr dataBuf m with
  | zero => exact ⟨.ok, m, rfl, iff_of_true rfl nofun, fun _ => ⟨fun _ _ => rfl, nofun⟩⟩
  | succ length ih =>
      obtain ⟨result, read, reads, asked, right, wrong⟩ :=
        readByte_run (c := c) (length = 0) addr m fresh
      rw [readBytes, servesAll_succ]
      by_cases serves : c.Serves m.rounds
      · obtain ⟨rfl, adrPolls, rounds⟩ := right serves
        obtain ⟨stored, stores, same, cells, free, ram⟩ :
            ∃ stored, Machine.step c read (.store dataBuf (m.cells.byte addr.toNat)) =
                ((), stored) ∧ stored.rounds = read.rounds ∧ stored.cells = read.cells ∧
              stored.adrPolls = read.adrPolls ∧
              stored.ram = Function.update read.ram dataBuf (m.cells.byte addr.toNat) :=
          ⟨_, rfl, rfl, rfl, rfl, rfl⟩
        obtain ⟨status, t, loop, served, copied⟩ :=
          ih (addr + 8) (dataBuf + 1) stored (free.trans adrPolls)
        rw [same, rounds] at served
        rw [cells, ram, asked.cells, asked.ram] at copied
        exact ⟨status, t,
          (run_bind_of_eq _ reads).trans ((run_perform_bind _ stores).trans loop),
          served.trans (and_iff_right serves).symm, fun ok => (copied ok).succ⟩
      · obtain ⟨status, bad, rfl⟩ := wrong serves
        exact ⟨status, read, run_bind_of_eq _ reads, iff_of_false bad fun all => serves all.1,
          fun ok => absurd ok bad⟩

/-- **`otp_read_byte`**, for every controller. -/
theorem otpReadByte_run (addr : Word) (dataBuf : Nat) (length : Word) (m : Machine) :
    ∃ status t, run (Machine.step c) (otpReadByte addr dataBuf length) m = (some status, t) ∧
      (status = .ok ↔ c.ServesAll m.rounds length.toNat) ∧
      (status = .ok → Copied m.cells (addr * 8) dataBuf length.toNat m.ram t.ram) := by
  obtain ⟨ready, prelude, fresh, cells, rounds, ram⟩ :
      ∃ ready, run (Machine.step c) (otpReadByte addr dataBuf length) m =
          run (Machine.step c) (readBytes length.toNat (addr * 8) dataBuf) ready ∧
        ready.adrPolls = 0 ∧ ready.cells = m.cells ∧ ready.rounds = m.rounds ∧
        ready.ram = m.ram :=
    ⟨_, rfl, rfl, rfl, rfl, rfl⟩
  obtain ⟨status, t, loop, served, copied⟩ :=
    readBytes_run (c := c) length.toNat (addr * 8) dataBuf ready fresh
  rw [rounds] at served
  rw [cells, ram] at copied
  exact ⟨status, t, prelude.trans loop, served, copied⟩

end Otp

end K210Guard
