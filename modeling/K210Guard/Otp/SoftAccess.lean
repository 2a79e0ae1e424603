/-
**Writing and reading in bypass mode** (`drivers/otp.c`).

* `programBit_run`: one bit, however many pulses it takes.
* `softWriteBits_run`: the loop of `otp_soft_write` from any of its turns on.
* `otpSoftWrite_run`, `otpSoftRead_run`: the two functions, for every array.
-/

import K210Guard.Otp.Bypass
import K210Guard.Otp.WriteData

namespace K210Guard

open Prog (run run_bind_of_eq run_perform_bind)

namespace Otp

namespace Bypass

variable {c : Checks}

/-! ### Programming one bit -/

/-- Reading a line, and the rest. -/
theorem run_readLine {α : Type} {line : Line} {f : Word → Program α} {m t : Machine} {value : Word}
    (first : Machine.step c m (.read line) = (value, t)) :
    run (Machine.step c) (readLine line >>= f) m = run (Machine.step c) (f value) t :=
  run_perform_bind _ first

/-- The array is enabled, and neither latches nor reads. -/
structure Machine.Enabled (m : Machine) : Prop where
  ceb : m.lines .otpCebCpu = 0
  dle : m.lines .otpDleCpu = 0
  readen : m.lines .otpReadenCpu = 0

/-- What an access to the lines leaves alone. -/
structure Machine.Same (m t : Machine) : Prop where
  ram : t.ram = m.ram
  loads : t.loads = m.loads

theorem Machine.Same.trans {m middle t : Machine} (one : m.Same middle) (two : middle.Same t) :
    m.Same t :=
  ⟨two.ram.trans one.ram, two.loads.trans one.loads⟩

/-- The lines of an address and its bit are moved one by one. -/
theorem latchBit_run (addr : Word) (data : Byte) (m : Machine) (enabled : m.Enabled) :
    ∃ t, run (Machine.step c) (latchBit addr data) m = (some (), t) ∧ t.Enabled ∧ m.Same t ∧
      t.cells = m.cells ∧ t.rounds = m.rounds + 1 ∧ t.lines .otpAdrCpu = addr ∧
      t.latch = data.getLsbD 0 := by
  refine ⟨_, rfl, ⟨?_, ?_, ?_⟩, ⟨?_, ?_⟩, ?_, ?_, ?_, ?_⟩ <;>
    simp [Machine.step, Machine.write, Machine.pullLow, Machine.put, enabled.ceb, enabled.readen]

/-- **One pulse** programs the latched bit. -/
theorem pulse_run (m : Machine) (enabled : m.Enabled) :
    ∃ t, run (Machine.step c) pulse m = (some (), t) ∧ t.Enabled ∧ m.Same t ∧
      t.cells = m.cells.program (m.lines .otpAdrCpu).toNat m.latch ∧ t.rounds = m.rounds ∧
      t.lines .otpAdrCpu = m.lines .otpAdrCpu ∧ t.latch = m.latch ∧ t.seen = false := by
  refine ⟨_, rfl, ⟨?_, ?_, ?_⟩, ⟨?_, ?_⟩, ?_, ?_, ?_, ?_, ?_⟩ <;>
    simp [Machine.step, Machine.write, Machine.pullLow, Machine.put, enabled.ceb, enabled.dle,
      enabled.readen]

/-- Programming a cell once more changes nothing. -/
theorem program_program (cells : Cells) (address : Nat) (value : Bool) :
    (cells.program address value).program address value = cells.program address value := by
  ext a
  rw [Cells.program_apply, Cells.program_apply, Bool.or_assoc, Bool.or_self]

/-- The first look after a pulse. -/
theorem look_eq (m : Machine) (enabled : m.Enabled) (unseen : m.seen = false) :
    Machine.step c m (.read .otpDatCpu) =
      (c.afterPulse (m.rounds - 1) m.pulses, { m with seen := true }) := by
  simp [Machine.step, Machine.read, enabled.readen, unseen]

/-- Another look without a pulse. -/
theorem lookAgain_eq (m : Machine) (enabled : m.Enabled) (seen : m.seen = true) :
    Machine.step c m (.read .otpDatCpu) = (c.again (m.rounds - 1), m) := by
  simp [Machine.step, Machine.read, enabled.readen, seen]

/-- A turn of the pulses: the cell is programmed, and the look decides about another turn. -/
theorem pulses_succ_run (count : Nat) (m : Machine) (enabled : m.Enabled) :
    ∃ (dat : Word) (t : Machine), run (Machine.step c) (pulses (count + 1)) m =
        run (Machine.step c) (if dat = 0 then pure () else pulses count) t ∧
      t.Enabled ∧ m.Same t ∧ t.cells = m.cells.program (m.lines .otpAdrCpu).toNat m.latch ∧
      t.rounds = m.rounds ∧ t.lines .otpAdrCpu = m.lines .otpAdrCpu ∧ t.latch = m.latch ∧
      t.seen = true := by
  obtain ⟨t, pulsed, free, same, cells, rounds, adr, latch, unseen⟩ :=
    pulse_run (c := c) m enabled
  exact ⟨c.afterPulse (t.rounds - 1) t.pulses, { t with seen := true },
    (run_bind_of_eq _ pulsed).trans (run_readLine (look_eq t free unseen)),
    ⟨free.ceb, free.dle, free.readen⟩, ⟨same.ram, same.loads⟩, cells, rounds, adr, latch, rfl⟩

/-- **The pulses at one address**: however many of them, the cell is programmed. -/
theorem pulses_run (count : Nat) (m : Machine) (enabled : m.Enabled) :
    ∃ t, run (Machine.step c) (pulses (count + 1)) m = (some (), t) ∧ t.Enabled ∧ m.Same t ∧
      t.cells = m.cells.program (m.lines .otpAdrCpu).toNat m.latch ∧ t.rounds = m.rounds ∧
      t.seen = true := by
  induction count generalizing m with
  | zero =>
      obtain ⟨dat, t, turn, free, same, cells, rounds, -, -, seen⟩ :=
        pulses_succ_run (c := c) 0 m enabled
      refine ⟨t, turn.trans ?_, free, same, cells, rounds, seen⟩
      rw [pulses, ite_self]
      rfl
  | succ count ih =>
      obtain ⟨dat, t, turn, free, same, cells, rounds, adr, latch, seen⟩ :=
        pulses_succ_run (c := c) (count + 1) m enabled
      by_cases verified : dat = 0
      · refine ⟨t, turn.trans ?_, free, same, cells, rounds, seen⟩
        rw [if_pos verified]
        rfl
      · obtain ⟨last, runs, enabled', same', cells', rounds', seen'⟩ := ih t free
        rw [if_neg verified] at turn
        refine ⟨last, turn.trans runs, enabled', same.trans same', ?_, rounds'.trans rounds, seen'⟩
        rw [cells', adr, latch, cells, program_program]

/-- **One bit is programmed**; what the controller shows in the end decides whether it counts. -/
theorem programBit_run (addr : Word) (data : Byte) (m : Machine) (enabled : m.Enabled) :
    ∃ t, run (Machine.step c) (programBit addr data) m = (some (c.again m.rounds), t) ∧
      t.Enabled ∧ m.Same t ∧ t.cells = m.cells.program addr.toNat (data.getLsbD 0) ∧
      t.rounds = m.rounds + 1 := by
  obtain ⟨ready, latches, free, same, cells, rounds, adr, latch⟩ :=
    latchBit_run (c := c) addr data m enabled
  obtain ⟨t, pulsed, enabled', same', cells', rounds', seen⟩ :=
    pulses_run (c := c) 19 ready free
  have again := lookAgain_eq (c := c) t enabled' seen
  rw [rounds', rounds, Nat.add_sub_cancel] at again
  refine ⟨t, (run_bind_of_eq _ latches).trans ((run_bind_of_eq _ pulsed).trans ?_), enabled',
    same.trans same', ?_, rounds'.trans rounds⟩
  · exact (run_readLine again).trans rfl
  · rw [cells', cells, adr, latch]

/-! ### The loop of the writer -/

/-- `length` bits of the buffer from the `j`-th on, without a mark. -/
def pulsed (ram : Nat → Byte) (dataBuf : Nat) (addr : Word) (j length : Nat) : List Programming :=
  (List.range' j length).map fun i =>
    ⟨(addr + BitVec.ofNat 32 i).toNat, bufferBit ram dataBuf i, false⟩

theorem programAll_pulsed_succ (cells : Cells) (ram : Nat → Byte) (dataBuf : Nat) (addr : Word)
    (j length : Nat) :
    cells.programAll (pulsed ram dataBuf addr j (length + 1)) =
      (cells.program (addr + BitVec.ofNat 32 j).toNat (bufferBit ram dataBuf j)).programAll
        (pulsed ram dataBuf addr (j + 1) length) := rfl

/-- The next bit, from the same byte or the next one. -/
theorem fetchBit_run (dataBuf j : Nat) (m : Machine) {ram : Nat → Byte} (same : m.ram = ram) :
    run (Machine.step c)
        (nextBit load (dataAt ram dataBuf j) (j % 8) (dataBuf + j / 8 + 1)) m =
      (some (dataAt ram dataBuf (j + 1), (j + 1) % 8, dataBuf + (j + 1) / 8 + 1),
        { m with loads := m.loads ++ fetched dataBuf j 1 }) := by
  have loaded : ∀ a, run (Machine.step c) (load a) m =
      (some (ram a), { m with loads := m.loads ++ [a] }) := by
    rw [← same]
    exact fun _ => rfl
  rw [nextBit_run dataBuf j loaded, fetched_one]
  by_cases last : j % 8 = 7
  · rw [if_pos last, if_pos last]
  · rw [if_neg last, if_neg last, List.append_nil]

/-- What `otp_dat_cpu` shows in the end is good for these addresses. -/
def Checks.Pass (c : Checks) (start count : Nat) : Prop :=
  ∀ n < count, (c.again (start + n)).getLsbD 0 = false

theorem pass_succ (start count : Nat) :
    c.Pass start (count + 1) ↔
      (c.again start).getLsbD 0 = false ∧ c.Pass (start + 1) count := by
  rw [Checks.Pass, Nat.forall_lt_succ_left]
  exact and_congr_right' (forall₂_congr fun n _ => by rw [Nat.add_assoc, Nat.add_comm 1 n])

/-- **A turn of the loop**: the bit does not count, or the next turn follows. -/
theorem softWriteBits_succ_run (length : Nat) (addr : Word) (dataBuf j : Nat) (m : Machine)
    (enabled : m.Enabled) :
    let turn := run (Machine.step c) (softWriteBits (length + 1) (addr + BitVec.ofNat 32 j)
      (dataAt m.ram dataBuf j) (j % 8) (dataBuf + j / 8 + 1)) m
    ((c.again m.rounds).getLsbD 0 = true ∧ ∃ t, turn = (some (length + 1), t) ∧ m.Same t) ∨
    ((c.again m.rounds).getLsbD 0 = false ∧ ∃ t, turn =
        run (Machine.step c) (softWriteBits length (addr + BitVec.ofNat 32 (j + 1))
          (dataAt m.ram dataBuf (j + 1)) ((j + 1) % 8) (dataBuf + (j + 1) / 8 + 1)) t ∧
      t.Enabled ∧ t.ram = m.ram ∧ t.rounds = m.rounds + 1 ∧
      t.cells = m.cells.program (addr + BitVec.ofNat 32 j).toNat (bufferBit m.ram dataBuf j) ∧
      t.loads = m.loads ++ fetched dataBuf j 1) := by
  intro turn
  obtain ⟨middle, programs, free, same, cells, rounds⟩ := programBit_run (c := c)
    (addr + BitVec.ofNat 32 j) (dataAt m.ram dataBuf j) m enabled
  rw [dataAt_getLsbD] at cells
  by_cases bad : c.again m.rounds &&& 0x01 ≠ 0
  · refine .inl ⟨(and_one_ne_zero _).mp bad, middle, (run_bind_of_eq _ programs).trans ?_, same⟩
    rw [if_pos bad]
    rfl
  · have next := fetchBit_run (c := c) dataBuf j middle same.ram
    refine .inr ⟨Bool.eq_false_of_not_eq_true fun set => bad ((and_one_ne_zero _).mpr set),
      { middle with loads := middle.loads ++ fetched dataBuf j 1 },
      (run_bind_of_eq _ programs).trans ?_, ⟨free.ceb, free.dle, free.readen⟩, same.ram, rounds,
      cells, congrArg (· ++ _) same.loads⟩
    rw [if_neg bad, ← bitAddress_succ]
    exact run_bind_of_eq _ next

/-- **The loop of `otp_soft_write`**, from its `j`-th bit on. -/
theorem softWriteBits_run (length : Nat) (addr : Word) (dataBuf j : Nat) (m : Machine)
    (enabled : m.Enabled) :
    ∃ left t, run (Machine.step c) (softWriteBits length (addr + BitVec.ofNat 32 j)
        (dataAt m.ram dataBuf j) (j % 8) (dataBuf + j / 8 + 1)) m = (some left, t) ∧
      t.ram = m.ram ∧ (left = 0 ↔ c.Pass m.rounds length) ∧
      (left = 0 → t.cells = m.cells.programAll (pulsed m.ram dataBuf addr j length) ∧
        t.loads = m.loads ++ fetched dataBuf j length) ∧
      (left ≠ 0 → ∃ i < length, t.loads = m.loads ++ fetched dataBuf j i) := by
  induction length generalizing j m with
  | zero =>
      exact ⟨0, m, rfl, rfl, iff_of_true rfl nofun,
        fun _ => ⟨rfl, (List.append_nil _).symm⟩, fun some => absurd rfl some⟩
  | succ length ih =>
      rw [pass_succ]
      obtain ⟨bad, t, turn, same⟩ | ⟨good, ready, turn, free, ram, rounds, cells, loads⟩ :=
        softWriteBits_succ_run (c := c) length addr dataBuf j m enabled
      · refine ⟨length + 1, t, turn, same.ram, iff_of_false nofun fun pass => ?_, nofun,
          fun _ => ⟨0, Nat.succ_pos length, same.loads.trans (List.append_nil _).symm⟩⟩
        exact Bool.false_ne_true (pass.1.symm.trans bad)
      · obtain ⟨left, t, loop, same, pass, done, early⟩ := ih (j + 1) ready free
        rw [ram] at loop same done
        rw [rounds] at pass
        refine ⟨left, t, turn.trans loop, same, pass.trans (and_iff_right good).symm,
          fun none => ?_, fun some => ?_⟩
        · rw [programAll_pulsed_succ, ← cells, fetched_cons, ← List.append_assoc, ← loads]
          exact done none
        · obtain ⟨i, below, reads⟩ := early some
          refine ⟨i + 1, Nat.succ_lt_succ below, ?_⟩
          rw [fetched_cons, ← List.append_assoc, ← loads]
          exact reads

/-! ### The two functions -/

/-- **`otp_soft_write`**: what it programs and which bytes it fetches. -/
theorem otpSoftWrite_run (addr : Word) (dataBuf : Nat) (length : Word) (m : Machine) :
    let count := (length * 8).toNat
    ∃ status t, run (Machine.step c) (otpSoftWrite addr dataBuf length) m = (some status, t) ∧
      t.ram = m.ram ∧ (status = .ok ↔ c.Pass m.rounds count) ∧
      (status = .ok → t.cells = m.cells.programAll (pulsed m.ram dataBuf (addr * 8) 0 count) ∧
        t.loads = m.loads ++ dataBuf :: fetched dataBuf 0 count) ∧
      (status ≠ .ok → ∃ i < count, t.loads = m.loads ++ dataBuf :: fetched dataBuf 0 i) := by
  intro count
  obtain ⟨ready, prelude, enabled, cells, ram, rounds, loads⟩ :
      ∃ ready, run (Machine.step c) (otpSoftWrite addr dataBuf length) m =
          run (Machine.step c) (do
            let left ← softWriteBits count (addr * 8) (m.ram dataBuf) 0 (dataBuf + 1)
            writeLine .otpCebCpu 1
            pure (if left ≠ 0 then OtpStatus.errorWrite else .ok)) ready ∧
        ready.Enabled ∧ ready.cells = m.cells ∧ ready.ram = m.ram ∧ ready.rounds = m.rounds ∧
        ready.loads = m.loads ++ [dataBuf] :=
    ⟨_, rfl, ⟨rfl, rfl, rfl⟩, rfl, rfl, rfl, rfl⟩
  obtain ⟨left, t, loop, same, pass, done, early⟩ :=
    softWriteBits_run (c := c) count (addr * 8) dataBuf 0 ready enabled
  have start : addr * 8 + BitVec.ofNat 32 0 = addr * 8 := BitVec.add_zero _
  rw [start, dataAt_zero, ram] at loop
  rw [rounds] at pass
  rw [loads, List.append_assoc] at done
  rw [cells, ram] at done
  have kept : (if left ≠ 0 then OtpStatus.errorWrite else .ok) = .ok ↔ left = 0 := by
    by_cases none : left = 0 <;> simp [none]
  refine ⟨_, _, prelude.trans (run_bind_of_eq _ loop), same.trans ram, kept.trans pass,
    fun ok => done (kept.mp ok), fun some => ?_⟩
  obtain ⟨i, below, reads⟩ := early fun none => some (kept.mpr none)
  rw [loads, List.append_assoc] at reads
  exact ⟨i, below, reads⟩

/-- A turn of the loop of `otp_soft_read`. -/
theorem softReadBytes_succ_run (length : Nat) (addr : Word) (dataBuf : Nat) (m : Machine) :
    ∃ t, run (Machine.step c) (softReadBytes (length + 1) addr dataBuf) m =
        run (Machine.step c) (softReadBytes length (addr + 8) (dataBuf + 1)) t ∧
      t.cells = m.cells ∧ t.ram = Function.update m.ram dataBuf (m.cells.byte addr.toNat) := by
  refine ⟨_, rfl, ?_, ?_⟩ <;>
    simp [Machine.step, Machine.write, Machine.read, Machine.put]

/-- **The loop of `otp_soft_read`.** -/
theorem softReadBytes_run (length : Nat) (addr : Word) (dataBuf : Nat) (m : Machine) :
    ∃ t, run (Machine.step c) (softReadBytes length addr dataBuf) m = (some (), t) ∧
      Copied m.cells addr dataBuf length m.ram t.ram := by
  induction length generalizing addr dataBuf m with
  | zero => exact ⟨m, rfl, fun _ _ => rfl, nofun⟩
  | succ length ih =>
      obtain ⟨next, turn, cells, ram⟩ := softReadBytes_succ_run (c := c) length addr dataBuf m
      obtain ⟨t, loop, copied⟩ := ih (addr + 8) (dataBuf + 1) next
      rw [cells, ram] at copied
      exact ⟨t, turn.trans loop, copied.succ⟩

/-- **`otp_soft_read`**, from every machine. -/
theorem otpSoftRead_run (addr : Word) (dataBuf : Nat) (length : Word) (m : Machine) :
    ∃ t, run (Machine.step c) (otpSoftRead addr dataBuf length) m = (some .ok, t) ∧
      Copied m.cells addr dataBuf length.toNat m.ram t.ram := by
  obtain ⟨ready, prelude, cells, ram⟩ :
      ∃ ready, run (Machine.step c) (otpSoftRead addr dataBuf length) m =
          run (Machine.step c) (do
            softReadBytes length.toNat addr dataBuf
            writeLine .otpCebCpu 1
            pure OtpStatus.ok) ready ∧ ready.cells = m.cells ∧ ready.ram = m.ram :=
    ⟨_, rfl, rfl, rfl⟩
  obtain ⟨t, loop, copied⟩ := softReadBytes_run (c := c) length.toNat addr dataBuf ready
  rw [cells, ram] at copied
  exact ⟨_, prelude.trans (run_bind_of_eq _ loop), copied⟩

end Bypass

end Otp

end K210Guard
