/-
**The bit-serial writer** (`drivers/otp.c`).

* `run_keeps`: no program clears a cell, whatever the controller does.
* `writeBits_run`: the loop of `otp_write_byte` from any of its turns on, for every controller.
  Either the controller takes every bit that is offered, and the bits programmed and the bytes
  fetched are those of the whole buffer, or it refuses one of them, and the loop ends there.
* `otpWriteByte_run`: the whole function.
-/

import K210Guard.Otp.Driver

namespace K210Guard

open Prog (run run_bind_of_eq run_perform_bind)

namespace Otp

variable {c : Controller}

/-- Reading a register, and the rest. -/
theorem run_read {α : Type} {register : Register} {f : Word → Program α} {m t : Machine}
    {value : Word} (first : Machine.step c m (.read register) = (value, t)) :
    run (Machine.step c) (readRegister register >>= f) m = run (Machine.step c) (f value) t :=
  run_perform_bind _ first

/-! ### Every run -/

theorem Machine.readAnswer_cells (m : Machine) (value : Word) :
    (m.readAnswer c value).2.cells = m.cells := by
  rw [readAnswer]
  split <;> rfl

theorem Machine.read_cells (m : Machine) (register : Register) :
    (m.read c register).2.cells = m.cells := by
  cases register with
  | otpAdrInFlag =>
      rw [read]
      split <;> rfl
  | dataAcpFlag => exact m.readAnswer_cells _
  | otpDataRdy => exact m.readAnswer_cells _
  | _ => rfl

/-- A bit that is handed over clears no cell. -/
theorem Machine.handOver_keeps (m : Machine) {a : Nat} (set : m.cells a = true) :
    (m.handOver c).cells a = true := by
  show (if c.Accepts _ then m.cells.program _ _ else m.cells) a = true
  split
  · exact m.cells.program_le _ a _ set
  · exact set

/-- Nor does any other access. -/
theorem Machine.step_keeps (m : Machine) (op : Op) {a : Nat} (set : m.cells a = true) :
    (m.step c op).2.cells a = true := by
  cases op with
  | write register value =>
      cases register with
      | datInFinish => exact handOver_keeps { m with clock := m.clock + 1 } set
      | _ => exact set
  | read register =>
      exact (congrFun (read_cells { m with clock := m.clock + 1 } register) a).trans set
  | load address => exact set
  | store address value => exact set

/-- **No run clears a cell**, whatever the controller does. -/
theorem run_keeps {α : Type} (p : Program α) (m : Machine) {a : Nat} (set : m.cells a = true) :
    (run (Machine.step c) p m).2.cells a = true :=
  Prog.run_invariant _ (fun t => t.cells a = true) (fun t op => t.step_keeps op) p m set

/-! ### One bit -/

/-- The controller takes the `n`-th address and its bit in time. -/
def Controller.Takes (c : Controller) (n : Nat) : Prop :=
  c.adrDelay n < delayTimeout ∧ c.answerDelay n < delayTimeout ∧ c.Accepts n

/-- Waiting for a flag that shows 0 for the first `delay` polls. `after clock count` is the machine
at that time after that many of them. -/
theorem waitFlag_run (flag : Register) {delay : Nat} {raised : Word} (after : Nat → Nat → Machine)
    (look : ∀ clock count, Machine.step c (after clock count) (.read flag) =
      if count < delay then (0, after (clock + 1) (count + 1))
      else (raised, after (clock + 1) count))
    (polls clock count : Nat) (early : count ≤ delay) :
    ∃ clock' count', run (Machine.step c) (waitFlag flag polls) (after clock count) =
        (some (decide (delay < count + polls ∧ raised ≠ 0)), after clock' count') ∧
      (delay ≤ count + polls → delay ≤ count') := by
  induction polls generalizing clock count with
  | zero =>
      refine ⟨clock, count, ?_, by omega⟩
      rw [decide_eq_false (by omega)]
      rfl
  | succ polls ih =>
      have first := look clock count
      rw [waitFlag]
      by_cases low : count < delay
      · rw [if_pos low] at first
        obtain ⟨clock', count', waits, late⟩ := ih (clock + 1) (count + 1) low
        refine ⟨clock', count', (run_read first).trans ?_, by omega⟩
        rw [if_pos rfl, waits, show count + 1 + polls = count + (polls + 1) by omega]
      · rw [if_neg low] at first
        by_cases none : raised = 0
        · obtain ⟨clock', count', waits, late⟩ := ih (clock + 1) count early
          refine ⟨clock', count', (run_read first).trans ?_, by omega⟩
          rw [if_pos none, waits]
          simp [none]
        · refine ⟨clock + 1, count, (run_read first).trans ?_, by omega⟩
          rw [if_neg none, decide_eq_true ⟨by omega, none⟩]
          rfl

/-- Waiting for an address to be taken in. -/
theorem waitAddress_run (m : Machine) (fresh : m.adrPolls = 0) :
    ∃ clock count, run (Machine.step c) (waitFlag .otpAdrInFlag delayTimeout) m =
      (some (decide (c.adrDelay m.rounds < delayTimeout)),
        { m with clock := clock, adrPolls := count }) := by
  have look : ∀ clock count, Machine.step c { m with clock := clock, adrPolls := count }
      (.read .otpAdrInFlag) =
        if count < c.adrDelay m.rounds then
          ((0 : Word), { m with clock := clock + 1, adrPolls := count + 1 })
        else (1, { m with clock := clock + 1, adrPolls := count }) := fun _ _ => rfl
  obtain ⟨clock, count, waits, -⟩ := waitFlag_run .otpAdrInFlag
    (fun clock count => { m with clock := clock, adrPolls := count }) look delayTimeout m.clock 0
    (Nat.zero_le _)
  refine ⟨clock, count, ?_⟩
  have start : m = { m with clock := m.clock, adrPolls := 0 } := by rw [← fresh]
  rw [start, waits, Nat.zero_add]
  simp

/-- Waiting for the answer to an address. -/
theorem waitAnswer_run (flag : Register) (raised : Word) (m : Machine) (fresh : m.answerPolls = 0)
    (look : ∀ clock count, Machine.read c { m with clock := clock, answerPolls := count } flag =
      Machine.readAnswer c { m with clock := clock, answerPolls := count } raised) :
    ∃ clock count, run (Machine.step c) (waitFlag flag delayTimeout) m =
      (some (decide (c.answerDelay (m.rounds - 1) < delayTimeout ∧ raised ≠ 0)),
        { m with clock := clock, answerPolls := count }) ∧
      (c.answerDelay (m.rounds - 1) < delayTimeout → ¬ count < c.answerDelay (m.rounds - 1)) := by
  have look : ∀ clock count, Machine.step c { m with clock := clock, answerPolls := count }
      (.read flag) =
        if count < c.answerDelay (m.rounds - 1) then
          ((0 : Word), { m with clock := clock + 1, answerPolls := count + 1 })
        else (raised, { m with clock := clock + 1, answerPolls := count }) :=
    fun clock count => look (clock + 1) count
  obtain ⟨clock, count, waits, late⟩ := waitFlag_run flag
    (fun clock count => { m with clock := clock, answerPolls := count }) look delayTimeout m.clock 0
    (Nat.zero_le _)
  rw [Nat.zero_add] at late
  refine ⟨clock, count, ?_, fun inTime => not_lt.mpr (late inTime.le)⟩
  have start : m = { m with clock := m.clock, answerPolls := 0 } := by rw [← fresh]
  rw [start, waits, Nat.zero_add]

/-- What the driver makes of an answer, once it is there. -/
theorem checkAnswer_run (m : Machine) (there : ¬ m.answerPolls < c.answerDelay (m.rounds - 1))
    (raised : c.dataAcp (m.rounds - 1) ≠ 0) :
    ∃ result clock registers, run (Machine.step c) checkAnswer m =
        (some result, { m with clock := clock, registers := registers }) ∧
      (result = none ↔ c.Accepts (m.rounds - 1)) := by
  have first : Machine.step c m (.read .otpWrgAdrFlag) =
      (c.wrgAdr (m.rounds - 1), { m with clock := m.clock + 1 }) := rfl
  have again : Machine.step c { m with clock := m.clock + 1 } (.read .dataAcpFlag) =
      (c.dataAcp (m.rounds - 1), { m with clock := m.clock + 2 }) := if_neg there
  rw [checkAnswer, run_read first]
  by_cases wrong : c.wrgAdr (m.rounds - 1) = 1
  · rw [if_pos wrong]
    exact ⟨_, _, m.registers, rfl, iff_of_false nofun fun accepts => accepts.2.2 wrong⟩
  · rw [if_neg wrong, run_read again]
    by_cases failed : c.dataAcp (m.rounds - 1) = 1
    · rw [if_pos failed]
      exact ⟨_, _, m.registers, rfl, iff_of_false nofun fun accepts => accepts.2.1 failed⟩
    · rw [if_neg failed]
      exact ⟨_, _, _, rfl, iff_of_true rfl ⟨raised, failed, wrong⟩⟩

/-- The answer to a bit, and what it leaves of the machine. -/
theorem awaitAnswer_run (m : Machine) (fresh : m.answerPolls = 0) :
    ∃ result clock count registers, run (Machine.step c) awaitAnswer m =
        (some result,
          { m with clock := clock, answerPolls := count, registers := registers }) ∧
      (result = none ↔ c.answerDelay (m.rounds - 1) < delayTimeout ∧ c.Accepts (m.rounds - 1)) := by
  obtain ⟨clock, count, waits, late⟩ := waitAnswer_run .dataAcpFlag (c.dataAcp (m.rounds - 1)) m
    fresh fun _ _ => rfl
  by_cases inTime : c.answerDelay (m.rounds - 1) < delayTimeout ∧ c.dataAcp (m.rounds - 1) ≠ 0
  · rw [decide_eq_true inTime] at waits
    obtain ⟨result, clock', registers, checks, accepts⟩ :=
      checkAnswer_run { m with clock := clock, answerPolls := count } (late inTime.1) inTime.2
    refine ⟨result, clock', count, registers, (run_bind_of_eq _ waits).trans checks, ?_⟩
    rw [accepts]
    exact (and_iff_right inTime.1).symm
  · rw [decide_eq_false inTime] at waits
    refine ⟨_, clock, count, m.registers, (run_bind_of_eq _ waits).trans rfl, ?_⟩
    exact iff_of_false nofun fun both => inTime ⟨both.1, both.2.1⟩

/-- Between two bits: no address is being waited for and no mark set. -/
structure Machine.Idle (m : Machine) : Prop where
  adrPolls : m.adrPolls = 0
  lastDat : m.lastDat = false

/-- The machine after a bit has been taken. -/
structure Taken (m t : Machine) (p : Programming) : Prop extends t.Idle where
  rounds : t.rounds = m.rounds + 1
  programmed : t.programmed = m.programmed ++ [p]
  cells : t.cells = m.cells.program p.address p.value

/-- The registers of a bit that is offered: `otp_in_dat` holds its own value. -/
theorem setBit_run (last : Bool) (data : Byte) (m : Machine) (unmarked : m.lastDat = false)
    (worth : last = true ∨ data.getLsbD 0 = true) :
    ∃ clock registers, run (Machine.step c) (setBit last data) m =
        (some (), { m with clock := clock, registers := registers, lastDat := last }) ∧
      (registers .otpInDat).getLsbD 0 = data.getLsbD 0 ∧
      registers .otpApbAdr = m.registers .otpApbAdr := by
  cases last with
  | true =>
      refine ⟨m.clock + 2, Function.update (Function.update m.registers .otpInDat
        ((data &&& 0x01).setWidth 32)) .otpLastDat 1, rfl, ?_, by simp⟩
      rw [Function.update_of_ne (by decide), Function.update_self, BitVec.getLsbD_setWidth,
        BitVec.getLsbD_and]
      simp
  | false =>
      refine ⟨m.clock + 1, Function.update m.registers .otpInDat 1, ?_, ?_, by simp⟩
      · cases m
        cases unmarked
        rfl
      · rcases worth with no | one
        · cases no
        · rw [Function.update_self, one]
          rfl

/-- A bit is handed over, and programmed if the controller accepts it. -/
theorem giveBit_run (last : Bool) (addr : Word) (data : Byte) (m : Machine)
    (unmarked : m.lastDat = false) (worth : last = true ∨ data.getLsbD 0 = true) :
    ∃ t, run (Machine.step c) (giveBit last addr data) m = (some (), t) ∧ t.Idle ∧
      t.answerPolls = 0 ∧ t.ram = m.ram ∧ t.loads = m.loads ∧ t.rounds = m.rounds + 1 ∧
      t.programmed = m.programmed ++ [⟨addr.toNat, data.getLsbD 0, last⟩] ∧
      (c.Accepts m.rounds → t.cells = m.cells.program addr.toNat (data.getLsbD 0)) := by
  obtain ⟨clock, registers, sets, value, same⟩ := setBit_run (c := c) last data
    (Machine.step c m (.write .otpApbAdr addr)).2 unmarked worth
  have holds : registers .otpApbAdr = addr := by
    rw [same]
    exact Function.update_self Register.otpApbAdr addr m.registers
  refine ⟨_, (run_bind_of_eq _ sets).trans rfl, ⟨rfl, rfl⟩, rfl, rfl, rfl, rfl, ?_,
    fun accepts => ?_⟩
  · show m.programmed ++ [⟨(registers .otpApbAdr).toNat, (registers .otpInDat).getLsbD 0, last⟩] = _
    rw [holds, value]
  · show (if c.Accepts (m.rounds + 1 - 1) then
      m.cells.program (registers .otpApbAdr).toNat ((registers .otpInDat).getLsbD 0)
      else m.cells) = _
    rw [Nat.add_sub_cancel, if_pos accepts, holds, value]

/-- **One bit is offered**, and taken if the controller takes it. -/
theorem offerBit_run (last : Bool) (addr : Word) (data : Byte) (m : Machine) (idle : m.Idle)
    (worth : last = true ∨ data.getLsbD 0 = true) :
    ∃ result t, run (Machine.step c) (offerBit last addr data) m = (some result, t) ∧
      t.ram = m.ram ∧ t.loads = m.loads ∧ (result = none ↔ c.Takes m.rounds) ∧
      (c.Takes m.rounds → Taken m t ⟨addr.toNat, data.getLsbD 0, last⟩) := by
  obtain ⟨clock, count, waits⟩ := waitAddress_run (c := c) m idle.adrPolls
  by_cases inTime : c.adrDelay m.rounds < delayTimeout
  · rw [decide_eq_true inTime] at waits
    obtain ⟨handed, gives, free, fresh, ram, loads, rounds, programmed, cells⟩ :=
      giveBit_run (c := c) last addr data { m with clock := clock, adrPolls := count }
        idle.lastDat worth
    obtain ⟨result, clock', count', registers, awaits, accepts⟩ :=
      awaitAnswer_run (c := c) handed fresh
    rw [rounds, Nat.add_sub_cancel] at accepts
    refine ⟨result, _, (run_bind_of_eq _ waits).trans ((run_bind_of_eq _ gives).trans awaits), ram,
      loads, accepts.trans (and_iff_right inTime).symm, fun takes => ?_⟩
    exact ⟨⟨free.adrPolls, free.lastDat⟩, rounds, programmed, cells takes.2.2⟩
  · rw [decide_eq_false inTime] at waits
    refine ⟨some .errorTimeout, _, (run_bind_of_eq _ waits).trans rfl, rfl, rfl, ?_, ?_⟩
    · exact iff_of_false nofun fun takes => inTime takes.1
    · exact fun takes => absurd takes.1 inTime

/-! ### The loop -/

/-- The bits that are offered among `length` bits from the `j`-th on, of `count` bits in all: those
that are set, and the last one. -/
def offered (ram : Nat → Byte) (dataBuf count j length : Nat) : List Nat :=
  (List.range' j length).filter fun i => i + 1 = count || bufferBit ram dataBuf i

/-- How the `i`-th bit is programmed. -/
def programming (ram : Nat → Byte) (dataBuf count : Nat) (addr : Word) (i : Nat) : Programming :=
  ⟨(addr + BitVec.ofNat 32 i).toNat, bufferBit ram dataBuf i, decide (i + 1 = count)⟩

/-- The cells after some bits have been programmed. -/
def Cells.programAll (cells : Cells) (bits : List Programming) : Cells :=
  bits.foldl (fun cells p => cells.program p.address p.value) cells

/-- The machine after these bits have been taken and these bytes fetched. -/
structure Written (m t : Machine) (bits : List Programming) (bytes : List Nat) : Prop
    extends t.Idle where
  rounds : t.rounds = m.rounds + bits.length
  programmed : t.programmed = m.programmed ++ bits
  cells : t.cells = m.cells.programAll bits
  loads : t.loads = m.loads ++ bytes

theorem offered_cons (ram : Nat → Byte) (dataBuf count j length : Nat) :
    offered ram dataBuf count j (length + 1) =
      offered ram dataBuf count j 1 ++ offered ram dataBuf count (j + 1) length := by
  rw [offered, offered, offered, ← List.filter_append, Nat.add_comm length 1,
    ← List.range'_append_1]

theorem offered_one (ram : Nat → Byte) (dataBuf count j : Nat) :
    offered ram dataBuf count j 1 =
      if j + 1 = count ∨ bufferBit ram dataBuf j = true then [j] else [] := by
  simp [offered, List.filter_cons]

theorem Written.trans {m middle t : Machine} {first second : List Programming}
    {before after : List Nat} (one : Written m middle first before)
    (two : Written middle t second after) :
    Written m t (first ++ second) (before ++ after) where
  toIdle := two.toIdle
  rounds := by rw [two.rounds, one.rounds, List.length_append, Nat.add_assoc]
  programmed := by rw [two.programmed, one.programmed, List.append_assoc]
  cells := by rw [two.cells, one.cells, Cells.programAll, Cells.programAll, Cells.programAll,
    List.foldl_append]
  loads := by rw [two.loads, one.loads, List.append_assoc]

/-- The controller takes all of some bits. -/
def Controller.TakesAll (c : Controller) (start count : Nat) : Prop :=
  ∀ n < count, c.Takes (start + n)

theorem takesAll_add (start first second : Nat) :
    c.TakesAll start (first + second) ↔
      c.TakesAll start first ∧ c.TakesAll (start + first) second := by
  constructor
  · intro all
    refine ⟨fun n below => all n (by omega), fun n below => ?_⟩
    rw [Nat.add_assoc]
    exact all (first + n) (by omega)
  · rintro ⟨one, two⟩ n below
    by_cases early : n < first
    · exact one n early
    · have late := two (n - first) (by omega)
      rwa [Nat.add_assoc, Nat.add_sub_cancel' (not_lt.mp early)] at late

theorem and_one_ne_zero {w : Nat} (data : BitVec (w + 1)) :
    data &&& 1#(w + 1) ≠ 0 ↔ data.getLsbD 0 = true := by
  rw [BitVec.and_one_eq_setWidth_ofBool_getLsbD]
  cases data.getLsbD 0 <;> simp

/-- The next bit, from the same byte or the next one. -/
theorem fetchBit_run (dataBuf j : Nat) (m : Machine) {ram : Nat → Byte} (same : m.ram = ram) :
    ∃ clock, run (Machine.step c)
        (nextBit load (dataAt ram dataBuf j) (j % 8) (dataBuf + j / 8 + 1)) m =
      (some (dataAt ram dataBuf (j + 1), (j + 1) % 8, dataBuf + (j + 1) / 8 + 1),
        { m with clock := clock, loads := m.loads ++ fetched dataBuf j 1 }) := by
  have loaded : ∀ a, run (Machine.step c) (load a) m =
      (some (ram a), { m with clock := m.clock + 1, loads := m.loads ++ [a] }) := by
    rw [← same]
    exact fun _ => rfl
  rw [nextBit_run dataBuf j loaded, fetched_one]
  by_cases last : j % 8 = 7
  · rw [if_pos last, if_pos last]
    exact ⟨m.clock + 1, rfl⟩
  · rw [if_neg last, if_neg last, List.append_nil]
    exact ⟨m.clock, rfl⟩

/-- The part of a turn that offers a bit, if it is worth offering. -/
theorem offer_run (addr : Word) (dataBuf : Nat) {count j length : Nat}
    (left : j + (length + 1) = count) (m : Machine) (idle : m.Idle) :
    ∃ result t, run (Machine.step c) (offerIfWorth (length = 0) (addr + BitVec.ofNat 32 j)
        (dataAt m.ram dataBuf j)) m = (some result, t) ∧
      t.ram = m.ram ∧ t.loads = m.loads ∧
      (result = none ↔ c.TakesAll m.rounds (offered m.ram dataBuf count j 1).length) ∧
      (result = none → Written m t
        ((offered m.ram dataBuf count j 1).map (programming m.ram dataBuf count addr)) []) := by
  have last : j + 1 = count ↔ decide (length = 0) = true := by
    rw [decide_eq_true_iff]
    omega
  have bit := dataAt_getLsbD m.ram dataBuf j
  rw [offered_one, offerIfWorth]
  by_cases worth : decide (length = 0) = true ∨ dataAt m.ram dataBuf j &&& 0x01 ≠ 0
  · have set : j + 1 = count ∨ bufferBit m.ram dataBuf j = true := by
      rwa [last, ← bit, ← and_one_ne_zero]
    have some : decide (length = 0) = true ∨ (dataAt m.ram dataBuf j).getLsbD 0 = true := by
      rwa [← and_one_ne_zero]
    rw [if_pos worth, if_pos set]
    obtain ⟨result, t, offers, ram, loads, allTaken, taken⟩ := offerBit_run (c := c)
      (decide (length = 0)) (addr + BitVec.ofNat 32 j) (dataAt m.ram dataBuf j) m idle some
    have one : c.TakesAll m.rounds [j].length ↔ c.Takes m.rounds :=
      ⟨fun all => all 0 Nat.one_pos, fun takes n below => by
        rwa [Nat.lt_one_iff.mp below]⟩
    refine ⟨result, t, offers, ram, loads, allTaken.trans one.symm, fun free => ?_⟩
    have done := taken (allTaken.mp free)
    rw [bit] at done
    have same : programming m.ram dataBuf count addr j =
        ⟨(addr + BitVec.ofNat 32 j).toNat, bufferBit m.ram dataBuf j, decide (length = 0)⟩ := by
      rw [programming, Bool.decide_congr last, Bool.decide_eq_true]
    rw [List.map_singleton, same]
    exact ⟨done.toIdle, done.rounds, done.programmed, done.cells, by rw [loads, List.append_nil]⟩
  · have unset : ¬ (j + 1 = count ∨ bufferBit m.ram dataBuf j = true) := by
      rwa [last, ← bit, ← and_one_ne_zero]
    rw [if_neg worth, if_neg unset]
    refine ⟨none, m, rfl, rfl, rfl, iff_of_true rfl nofun, fun _ => ?_⟩
    exact ⟨idle, rfl, (List.append_nil _).symm, rfl, (List.append_nil _).symm⟩

/-- **A turn of the loop**: the controller refuses the bit, or the next turn follows. -/
theorem writeBits_succ_run (addr : Word) (dataBuf : Nat) {count j length : Nat}
    (left : j + (length + 1) = count) (m : Machine) (idle : m.Idle) :
    let turn := run (Machine.step c) (writeBits (length + 1) (addr + BitVec.ofNat 32 j)
      (dataAt m.ram dataBuf j) (j % 8) (dataBuf + j / 8 + 1)) m
    let bits := offered m.ram dataBuf count j 1
    (¬ c.TakesAll m.rounds bits.length ∧ ∃ status t, turn = (some (some status), t) ∧
      t.ram = m.ram ∧ t.loads = m.loads) ∨
    (c.TakesAll m.rounds bits.length ∧ ∃ t, turn =
        run (Machine.step c) (writeBits length (addr + BitVec.ofNat 32 (j + 1))
          (dataAt m.ram dataBuf (j + 1)) ((j + 1) % 8) (dataBuf + (j + 1) / 8 + 1)) t ∧
      t.ram = m.ram ∧
      Written m t (bits.map (programming m.ram dataBuf count addr)) (fetched dataBuf j 1)) := by
  intro turn bits
  obtain ⟨result, middle, offers, ram, loads, allTaken, written⟩ :=
    offer_run (c := c) addr dataBuf left m idle
  cases result with
  | some status =>
      exact .inl ⟨fun all => absurd (allTaken.mpr all) nofun, status, middle,
        run_bind_of_eq _ offers, ram, loads⟩
  | none =>
      have first := written rfl
      obtain ⟨clock, next⟩ := fetchBit_run (c := c) dataBuf j middle ram
      refine .inr ⟨allTaken.mp rfl,
        { middle with clock := clock, loads := middle.loads ++ fetched dataBuf j 1 }, ?_, ram,
        ⟨first.adrPolls, first.lastDat⟩, first.rounds, first.programmed, first.cells,
        congrArg (· ++ _) loads⟩
      rw [← bitAddress_succ]
      exact (run_bind_of_eq _ offers).trans (run_bind_of_eq _ next)

/-- **The loop of `otp_write_byte`**, from its `j`-th bit on. -/
theorem writeBits_run (addr : Word) (dataBuf : Nat) {count j length : Nat}
    (left : j + length = count) (m : Machine) (idle : m.Idle) :
    ∃ result t, run (Machine.step c) (writeBits length (addr + BitVec.ofNat 32 j)
        (dataAt m.ram dataBuf j) (j % 8) (dataBuf + j / 8 + 1)) m = (some result, t) ∧
      t.ram = m.ram ∧
      (result = none ↔ c.TakesAll m.rounds (offered m.ram dataBuf count j length).length) ∧
      (result = none → Written m t
        ((offered m.ram dataBuf count j length).map (programming m.ram dataBuf count addr))
        (fetched dataBuf j length)) ∧
      (result ≠ none → ∃ i < length, t.loads = m.loads ++ fetched dataBuf j i) := by
  induction length generalizing j m with
  | zero =>
      refine ⟨none, m, rfl, rfl, iff_of_true rfl nofun, fun _ => ?_, fun some => absurd rfl some⟩
      exact ⟨idle, rfl, (List.append_nil _).symm, rfl, (List.append_nil _).symm⟩
  | succ length ih =>
      rw [offered_cons, List.length_append, takesAll_add]
      obtain ⟨refused, status, t, turn, ram, loads⟩ | ⟨taken, ready, turn, ram, first⟩ :=
        writeBits_succ_run (c := c) addr dataBuf left m idle
      · refine ⟨some status, t, turn, ram, iff_of_false nofun fun all => refused all.1, nofun,
          fun _ => ⟨0, Nat.succ_pos length, loads.trans (List.append_nil _).symm⟩⟩
      · obtain ⟨result, t, loop, same, allTaken, written, early⟩ :=
          ih (j := j + 1) (by omega) ready first.toIdle
        rw [ram] at loop same allTaken written
        rw [first.rounds, List.length_map] at allTaken
        refine ⟨result, t, turn.trans loop, same, allTaken.trans (and_iff_right taken).symm,
          fun free => ?_, fun stopped => ?_⟩
        · rw [List.map_append, fetched_cons]
          exact first.trans (written free)
        · obtain ⟨i, below, reads⟩ := early stopped
          refine ⟨i + 1, Nat.succ_lt_succ below, ?_⟩
          rw [fetched_cons, ← List.append_assoc, ← first.loads]
          exact reads

/-! ### The whole write -/

/-- What the self-repair and the writes of plain registers leave alone. -/
structure Machine.Same (m t : Machine) : Prop where
  cells : t.cells = m.cells
  ram : t.ram = m.ram
  rounds : t.rounds = m.rounds
  programmed : t.programmed = m.programmed
  loads : t.loads = m.loads

theorem Machine.Same.trans {m middle t : Machine} (one : m.Same middle) (two : middle.Same t) :
    m.Same t :=
  ⟨two.cells.trans one.cells, two.ram.trans one.ram, two.rounds.trans one.rounds,
    two.programmed.trans one.programmed, two.loads.trans one.loads⟩

theorem waitBisr_run (polls : Nat) (m : Machine) :
    ∃ finished t, run (Machine.step c) (waitFlag .bisrFinish polls) m = (some finished, t) ∧
      m.Same t := by
  induction polls generalizing m with
  | zero => exact ⟨false, m, rfl, rfl, rfl, rfl, rfl, rfl⟩
  | succ polls ih =>
      have look : Machine.step c m (.read .bisrFinish) =
          (c.status (m.clock + 1) .bisrFinish, { m with clock := m.clock + 1 }) := rfl
      rw [waitFlag]
      by_cases low : c.status (m.clock + 1) .bisrFinish = 0
      · obtain ⟨finished, t, waits, same⟩ := ih { m with clock := m.clock + 1 }
        refine ⟨finished, t, (run_read look).trans ?_, same.cells, same.ram, same.rounds,
          same.programmed, same.loads⟩
        rw [if_pos low]
        exact waits
      · refine ⟨true, { m with clock := m.clock + 1 }, (run_read look).trans ?_, rfl, rfl, rfl, rfl,
          rfl⟩
        rw [if_neg low]
        rfl

theorem startBisr_run (step : Word) (m : Machine) :
    ∃ finished t, run (Machine.step c) (startBisr step) m = (some finished, t) ∧ m.Same t := by
  obtain ⟨finished, t, waits, same⟩ := waitBisr_run (c := c) delayTimeout (run (Machine.step c)
    (do
      writeRegister .otpCle 1
      writeRegister .otpMode 0x02
      writeRegister .otpTestMode 0x30
      writeRegister .testStep step
      writeRegister .otpCeb 0) m).2
  exact ⟨finished, t, waits, same.cells, same.ram, same.rounds, same.programmed, same.loads⟩

theorem otpBisrWrite_run (m : Machine) :
    ∃ status t, run (Machine.step c) otpBisrWrite m = (some status, t) ∧ m.Same t := by
  obtain ⟨finished, t, starts, same⟩ := startBisr_run (c := c) 0 m
  cases finished with
  | false => exact ⟨_, t, run_bind_of_eq _ starts, same⟩
  | true =>
      exact ⟨_, _, (run_bind_of_eq _ starts).trans rfl, same.cells, same.ram, same.rounds,
        same.programmed, same.loads⟩

theorem otpBisrRead_run (m : Machine) :
    ∃ status t, run (Machine.step c) otpBisrRead m = (some status, t) ∧ m.Same t := by
  obtain ⟨finished, t, starts, same⟩ := startBisr_run (c := c) 1 m
  cases finished with
  | false => exact ⟨_, t, run_bind_of_eq _ starts, same⟩
  | true =>
      exact ⟨_, _, (run_bind_of_eq _ starts).trans rfl, same.cells, same.ram, same.rounds,
        same.programmed, same.loads⟩

/-- The self-repair behind a write. -/
theorem repair_run (m : Machine) :
    ∃ status t, run (Machine.step c) (do
        let status ← otpBisrWrite
        if status ≠ .ok then pure status else otpBisrRead) m = (some status, t) ∧ m.Same t := by
  obtain ⟨status, after, writes, kept⟩ := otpBisrWrite_run (c := c) m
  rw [run_bind_of_eq _ writes]
  by_cases fails : status = .ok
  · rw [if_neg (not_not.mpr fails)]
    obtain ⟨last, t, reads, more⟩ := otpBisrRead_run (c := c) after
    exact ⟨last, t, reads, kept.trans more⟩
  · rw [if_pos fails]
    exact ⟨status, after, rfl, kept⟩

/-- The registers before the loop, and the first byte. -/
theorem writePrelude_run (addr : Word) (dataBuf : Nat) (length : Word) (m : Machine) :
    ∃ ready, run (Machine.step c) (otpWriteByte addr dataBuf length) m =
        run (Machine.step c) (do
          let refused ← writeBits (length * 8).toNat (addr * 8) (m.ram dataBuf) 0 (dataBuf + 1)
          match refused with
          | some status => pure status
          | none => do
              let status ← otpBisrWrite
              if status ≠ .ok then pure status else otpBisrRead) ready ∧
      ready.Idle ∧ ready.cells = m.cells ∧ ready.ram = m.ram ∧ ready.rounds = m.rounds ∧
      ready.programmed = m.programmed ∧ ready.loads = m.loads ++ [dataBuf] :=
  ⟨_, rfl, ⟨rfl, rfl⟩, rfl, rfl, rfl, rfl, rfl⟩

/-- **`otp_write_byte`**: what it programs and which bytes it fetches, for every controller. -/
theorem otpWriteByte_run (addr : Word) (dataBuf : Nat) (length : Word) (m : Machine) :
    let count := (length * 8).toNat
    let bits := offered m.ram dataBuf count 0 count
    ∃ status t, run (Machine.step c) (otpWriteByte addr dataBuf length) m = (some status, t) ∧
      t.ram = m.ram ∧
      (c.TakesAll m.rounds bits.length →
        t.programmed = m.programmed ++ bits.map (programming m.ram dataBuf count (addr * 8)) ∧
        t.cells = m.cells.programAll (bits.map (programming m.ram dataBuf count (addr * 8))) ∧
        t.loads = m.loads ++ dataBuf :: fetched dataBuf 0 count) ∧
      (¬ c.TakesAll m.rounds bits.length →
        ∃ i < count, t.loads = m.loads ++ dataBuf :: fetched dataBuf 0 i) := by
  intro count bits
  obtain ⟨ready, prelude, idle, cells, ram, rounds, programmed, loads⟩ :=
    writePrelude_run (c := c) addr dataBuf length m
  obtain ⟨result, middle, loop, same, allTaken, written, early⟩ :=
    writeBits_run (c := c) (addr * 8) dataBuf (j := 0) (Nat.zero_add count) ready idle
  have start : addr * 8 + BitVec.ofNat 32 0 = addr * 8 := BitVec.add_zero _
  rw [ram, rounds] at allTaken
  rw [ram] at loop written
  rw [start, dataAt_zero] at loop
  have looped := prelude.trans (run_bind_of_eq _ loop)
  cases result with
  | some status =>
      refine ⟨status, middle, looped, same.trans ram,
        fun all => absurd (allTaken.mpr all) nofun, fun _ => ?_⟩
      obtain ⟨i, below, reads⟩ := early nofun
      refine ⟨i, below, ?_⟩
      rw [reads, loads, List.append_assoc]
      rfl
  | none =>
      have taken := written rfl
      obtain ⟨status, t, repairs, kept⟩ := repair_run (c := c) middle
      refine ⟨status, t, looped.trans repairs, kept.ram.trans (same.trans ram),
        fun _ => ⟨?_, ?_, ?_⟩, fun refused => absurd (allTaken.mp rfl) refused⟩
      · rw [kept.programmed, taken.programmed, programmed]
      · rw [kept.cells, taken.cells, cells]
      · rw [kept.loads, taken.loads, loads, List.append_assoc]
        rfl

end Otp

end K210Guard
