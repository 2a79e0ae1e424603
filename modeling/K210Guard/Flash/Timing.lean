/-
**When the driver's commands reach a slow chip.**

The driver waits for the busy bit, but not for ever, and it goes on when the wait was in vain. So
the transactions in which its commands arrive depend on the busy bit only, whatever the cells hold
and whatever the chip ignores.

* `afterCheck` — the transaction count after `flash_check_status`; `afterCommands` after a number of
  commands in a row.
* `flashSectorErase_takes`, `flashPageProgramFun_takes` — one command each, then the check.
* `bringUp_takes` — SPI3 and the quad functions are selected, in a known number of transactions.
-/

import K210Guard.Flash.SlowChip

namespace K210Guard

open NorFlash (Command)

/-! ### The clock -/

/-- The clock after the polling loop of `flash_check_status`. -/
def afterPolls (busy : Nat → Bool) : Nat → Nat → Nat
  | clock, 0 => clock
  | clock, tries + 1 => if busy (clock + 1) then afterPolls busy (clock + 1) tries else clock + 1

/-- The clock after `flash_check_status`. -/
def afterCheck (busy : Nat → Bool) (clock : Nat) : Nat := afterPolls busy (clock + 2) 0xFFFFFF + 1

/-- The clock after a number of commands in a row: a write enable, the command and a check each,
and after the ones with a pause another check. -/
def afterCommands (busy pause : Nat → Bool) (clock : Nat) : Nat → Nat
  | 0 => clock
  | count + 1 =>
      let checked := afterCheck busy (afterCommands busy pause clock count + 2)
      if pause count then afterCheck busy checked else checked

/-- A number of commands in a row, with the transactions in which they arrive. -/
def arrivalsOf (busy pause : Nat → Bool) (clock : Nat) (commands : Nat → Command) (count : Nat) :
    List (Nat × Command) :=
  (List.range count).map fun index =>
    (afterCommands busy pause clock index + 2, commands index)

/-- No pause at all. -/
def noPause : Nat → Bool := fun _ => false

section Clock

variable {busy pause : Nat → Bool} {clock : Nat}

theorem le_afterPolls (tries : Nat) : clock ≤ afterPolls busy clock tries := by
  induction tries generalizing clock with
  | zero => exact le_rfl
  | succ tries ih =>
      rw [afterPolls]
      split
      · exact le_trans (Nat.le_succ clock) ih
      · exact Nat.le_succ clock

theorem lt_afterCheck : clock + 2 < afterCheck busy clock :=
  Nat.lt_succ_of_le (le_afterPolls 0xFFFFFF)

/-- A chip that is ready is found ready at the first poll. -/
theorem afterCheck_of_ready (ready : busy (clock + 3) = false) :
    afterCheck busy clock = clock + 4 := by
  have polled (tries : Nat) : afterPolls busy (clock + 2) (tries + 1) = clock + 3 := by
    rw [afterPolls, ready]
    rfl
  exact congrArg (· + 1) (polled 0xFFFFFE)

variable (busy pause clock) in
/-- The next command begins after this one's check. -/
theorem afterCommands_succ (count : Nat) :
    afterCommands busy pause clock count + 4 < afterCommands busy pause clock (count + 1) := by
  have checked : afterCommands busy pause clock count + 2 + 2 <
      afterCheck busy (afterCommands busy pause clock count + 2) := lt_afterCheck
  rw [afterCommands]
  split
  · exact lt_trans checked (lt_trans (Nat.lt_add_of_pos_right Nat.two_pos) lt_afterCheck)
  · exact checked

variable (busy pause clock) in
theorem afterCommands_strictMono : StrictMono (afterCommands busy pause clock) :=
  strictMono_nat_of_lt_succ fun count =>
    lt_trans (Nat.lt_add_of_pos_right (by decide)) (afterCommands_succ busy pause clock count)

/-- Every command of a loop arrives before the end of the loop. -/
theorem arrival_lt {index count : Nat} (bound : index < count) :
    afterCommands busy pause clock index + 2 < afterCommands busy pause clock count := by
  have next := afterCommands_succ busy pause clock index
  have later := (afterCommands_strictMono busy pause clock).monotone
    (show index + 1 ≤ count from bound)
  omega

theorem afterCommands_congr {other : Nat → Bool} {count : Nat}
    (same : ∀ index < count, pause index = other index) :
    afterCommands busy pause clock count = afterCommands busy other clock count := by
  induction count with
  | zero => rfl
  | succ count ih =>
      rw [afterCommands, afterCommands, same count (Nat.lt_succ_self count),
        ih fun index bound => same index (Nat.lt_succ_of_lt bound)]

/-- Some commands, then some more. -/
theorem afterCommands_add (first second : Nat) :
    afterCommands busy pause clock (first + second) =
      afterCommands busy (fun index => pause (first + index))
        (afterCommands busy pause clock first) second := by
  induction second with
  | zero => rfl
  | succ second ih =>
      rw [← Nat.add_assoc, afterCommands, afterCommands, ih]

theorem arrivalsOf_congr {other : Nat → Bool} {commands others : Nat → Command} {count : Nat}
    (same : ∀ index, index + 1 < count → pause index = other index)
    (sameCommands : ∀ index < count, commands index = others index) :
    arrivalsOf busy pause clock commands count = arrivalsOf busy other clock others count := by
  refine List.map_congr_left fun index member => ?_
  have bound := List.mem_range.mp member
  rw [sameCommands index bound, afterCommands_congr fun earlier before => same earlier (by omega)]

theorem arrivalsOf_add (commands : Nat → Command) (first second : Nat) :
    arrivalsOf busy pause clock commands (first + second) =
      arrivalsOf busy pause clock commands first ++
        arrivalsOf busy (fun index => pause (first + index))
          (afterCommands busy pause clock first) (fun index => commands (first + index))
          second := by
  unfold arrivalsOf
  rw [List.range_add, List.map_append, List.map_map]
  refine congrArg (_ ++ ·) (List.map_congr_left fun index _ => ?_)
  show (afterCommands busy pause clock (first + index) + 2, _) = _
  rw [afterCommands_add]

end Clock

/-! ### What the timing depends on -/

/-- The parts of the machine that the driver's timing and its commands depend on. -/
structure Timing where
  busy : Nat → Bool
  clock : Nat
  arrivals : List (Nat × Command)
  ram : Nat → Byte
  uart : Uart
  driver : FlashDriver
  reg2 : Byte

/-- Later, after some more commands. -/
def Timing.sends (t : Timing) (clock : Nat) (sent : List (Nat × Command)) : Timing :=
  { t with clock := clock, arrivals := t.arrivals ++ sent }

theorem Timing.sends_nil (t : Timing) : t.sends t.clock [] = t := by
  unfold Timing.sends
  rw [List.append_nil]

theorem Timing.sends_sends (t : Timing) (clock later : Nat) (sent more : List (Nat × Command)) :
    (t.sends clock sent).sends later more = t.sends later (sent ++ more) := by
  unfold Timing.sends
  rw [List.append_assoc]

namespace SlowWorld

def timing (s : SlowWorld) : Timing where
  busy := s.busy
  clock := s.clock
  arrivals := s.arrivals
  ram := s.world.ram
  uart := s.world.uart
  driver := s.world.driver
  reg2 := s.world.chip.reg2

/-- A triple about the timing of a program, and about its result. -/
abbrev Takes {α : Type} (before : Timing) (program : Firmware α) (promise : α → Timing → Prop) :
    Prop :=
  Prog.Meets step timing before program promise

theorem tick_timing (s : SlowWorld) : s.tick.timing = s.timing.sends (s.clock + 1) [] := by
  unfold tick Timing.sends
  rw [List.append_nil]
  split
  · rfl
  · obtain ⟨cells, log, same⟩ := s.settled_eq
    rw [same]
    rfl

theorem tick_clock (s : SlowWorld) : s.tick.clock = s.clock + 1 :=
  congrArg Timing.clock s.tick_timing

theorem tick_writeEnabled (s : SlowWorld) :
    s.tick.world.chip.writeEnabled = s.world.chip.writeEnabled := by
  unfold tick
  split
  · rfl
  · obtain ⟨cells, log, same⟩ := s.settled_eq
    rw [same]

/-- A command that arrives with the latch set is noted. -/
theorem step_timing_of_enabled {s : SlowWorld} (enabled : s.world.chip.writeEnabled = true)
    {op : Bus} {command : Command} (sent : op.command = some command) :
    (s.step op).2.timing = s.timing.sends (s.clock + 1) [(s.clock + 1, command)] := by
  have arrived : (s.tick.arrive command).timing =
      s.tick.timing.sends s.tick.clock [(s.tick.clock, command)] := by
    unfold arrive
    rw [if_pos (s.tick_writeEnabled.trans enabled)]
    split <;> rfl
  unfold step
  rw [sent, Bus.onSpi_of_command sent]
  refine arrived.trans ?_
  rw [tick_timing, tick_clock, Timing.sends_sends, List.nil_append]

/-! ### Status -/

/-- What `flash_check_status` looks at is the busy bit. -/
theorem status1_busy (s : SlowWorld) :
    s.status1 &&& 0x01#8 = if s.busy s.clock then 0x01#8 else 0x00#8 := by
  unfold status1
  rw [BitVec.and_or_distrib_right, Chip.status1_ready]
  split <;> rfl

theorem readStatusReg1_takes (t : Timing) :
    Takes t flashReadStatusReg1 fun status u => u = t.sends (t.clock + 1) [] ∧
      status &&& 0x01#8 = if t.busy (t.clock + 1) then 0x01#8 else 0x00#8 := by
  rintro s rfl
  refine ⟨_, _, rfl, s.tick_timing, ?_⟩
  show s.tick.status1 &&& 0x01#8 = _
  rw [status1_busy, tick_clock, show s.tick.busy = s.busy from congrArg Timing.busy s.tick_timing]
  rfl

theorem readStatusReg2_takes (t : Timing) :
    Takes t flashReadStatusReg2 fun status u => u = t.sends (t.clock + 1) [] ∧ status = t.reg2 := by
  rintro s rfl
  refine ⟨_, _, rfl, s.tick_timing, ?_⟩
  show s.tick.world.chip.reg2 = _
  exact congrArg Timing.reg2 s.tick_timing

theorem readStatusReg1_waits (t : Timing) :
    Takes t flashReadStatusReg1 fun _ u => u = t.sends (t.clock + 1) [] :=
  (readStatusReg1_takes t).weaken fun _ _ => And.left

theorem readStatusReg2_waits (t : Timing) :
    Takes t flashReadStatusReg2 fun _ u => u = t.sends (t.clock + 1) [] :=
  (readStatusReg2_takes t).weaken fun _ _ => And.left

theorem pollReady_takes (tries : Nat) (t : Timing) :
    Takes t (pollReady tries) fun _ u => u = t.sends (afterPolls t.busy t.clock tries) [] := by
  induction tries generalizing t with
  | zero => exact .pure t.sends_nil.symm
  | succ tries ih =>
      refine (readStatusReg1_takes t).bind ?_
      rintro status _ ⟨rfl, bit⟩
      rw [afterPolls]
      by_cases set : t.busy (t.clock + 1) = true
      · rw [if_pos set] at bit
        rw [if_neg (by rw [bit]; decide), if_pos set]
        refine (ih _).weaken fun _ u reached => ?_
        rw [reached, Timing.sends_sends, List.nil_append]
        rfl
      · rw [if_neg set] at bit
        rw [if_pos (show status &&& 0x01#8 = 0 from bit), if_neg set]
        exact .pure rfl

/-- **The check takes as long as the busy bit is set**, up to its limit. -/
theorem flashCheckStatus_takes (t : Timing) :
    Takes t flashCheckStatus fun _ u => u = t.sends (afterCheck t.busy t.clock) [] := by
  unfold flashCheckStatus
  refine (readStatusReg1_waits t).andThen fun _ => ?_
  refine (readStatusReg2_waits _).andThen fun _ => ?_
  refine (pollReady_takes 0xFFFFFF _).andThen fun ready => ?_
  refine (readStatusReg2_waits _).andThen fun _ => .pure ?_
  simp only [Timing.sends_sends, List.nil_append]
  rfl

/-! ### Single commands -/

/-- The machine after a write enable. -/
def enabled (s : SlowWorld) : SlowWorld :=
  { s.tick with world := s.tick.world.latched }

theorem enabled_timing (s : SlowWorld) : s.enabled.timing = s.timing.sends (s.clock + 1) [] :=
  s.tick_timing

theorem flashWriteEnable_run (s : SlowWorld) :
    s.run flashWriteEnable = (some .ok, s.enabled) := rfl

/-- **A command after a write enable** is noted two transactions later. -/
theorem enabled_step_timing (s : SlowWorld) {op : Bus} {command : Command}
    (sent : op.command = some command) :
    (s.enabled.step op).2.timing = s.timing.sends (s.clock + 2) [(s.clock + 2, command)] := by
  have clock : s.enabled.clock = s.clock + 1 := s.tick_clock
  rw [step_timing_of_enabled (show s.enabled.world.chip.writeEnabled = true from rfl) sent,
    enabled_timing, clock, Timing.sends_sends, List.nil_append]

/-- A command, then the check. -/
theorem commandCheck_takes (t : Timing) (command : Command) :
    Takes (t.sends (t.clock + 2) [(t.clock + 2, command)]) flashCheckStatus fun _ u =>
      u = t.sends (afterCheck t.busy (t.clock + 2)) [(t.clock + 2, command)] := by
  refine (flashCheckStatus_takes _).weaken fun _ u reached => ?_
  rw [reached, Timing.sends_sends, List.append_nil]
  rfl

theorem flashSectorErase_takes (t : Timing) (addr : Nat) :
    Takes t (flashSectorErase addr) fun _ u =>
      u = t.sends (afterCheck t.busy (t.clock + 2))
        [(t.clock + 2, .erase (addr % chipSize))] := by
  rintro s rfl
  refine commandCheck_takes s.timing _ _ (s.enabled_step_timing ?_)
  rw [← address_addressBytes]
  rfl

/-- The page program function that `flash_enable_quad_mode` selects. -/
theorem flashPageProgramFun_takes (t : Timing) (quad : t.driver = quadDriver) (addr : Nat)
    (data : List Byte) :
    Takes t (flashPageProgramFun addr data) fun _ u =>
      u = t.sends (afterCheck t.busy (t.clock + 2))
        [(t.clock + 2, .program (addr % chipSize) data)] := by
  rintro s rfl
  have sent : (Bus.spiSendEnhanced (0x01 <<< 10 ||| 0x07 <<< 0 ||| 0x02 <<< 22)
      (0x06 <<< 2 ||| 0x02 <<< 8) [0x32, addr] data).command =
      some (.program (addr % chipSize) data) := rfl
  obtain ⟨status, after, runs, reached⟩ :=
    commandCheck_takes s.timing _ _ (s.enabled_step_timing sent)
  refine ⟨status, after, ?_, reached⟩
  have kept : s.enabled.world.driver = quadDriver :=
    (congrArg Timing.driver s.enabled_timing).trans quad
  have whole : s.run (flashPageProgramFun addr data) = s.run (flashQuadPageProgram addr data) := by
    refine (Prog.run_bind_of_eq step
      (show s.run getDriver = (some s.world.driver, s) from rfl)).trans ?_
    rw [show s.world.driver = quadDriver from quad]
    rfl
  refine whole.trans ((Prog.run_bind_of_eq step s.flashWriteEnable_run).trans ?_)
  refine (Prog.run_bind_of_eq step
    (show s.enabled.run getDriver = (some s.enabled.world.driver, s.enabled) from rfl)).trans ?_
  rw [kept]
  exact runs

/-! ### Bringing the chip up -/

theorem flashInit_takes (t : Timing) :
    Takes t (flashInit 1) fun _ u =>
      u = { t.sends (t.clock + 1) [] with driver := ⟨0, 10, 22, .standard⟩ } := by
  rintro s rfl
  let set' : SlowWorld := { s with world := { s.world with driver := ⟨0, 10, 22, .standard⟩ } }
  exact ⟨.ok, set'.tick, rfl, set'.tick_timing⟩

theorem flashWriteStatusReg_takes (t : Timing) (reg1 reg2 : Byte) :
    Takes t (flashWriteStatusReg reg1 reg2) fun _ u =>
      u = { t.sends (t.clock + 2) [] with reg2 := reg2 } := by
  rintro s rfl
  refine ⟨.ok, (s.enabled.step (.spiSend [0x01#8, reg1, reg2] [])).2, rfl, ?_⟩
  have written : s.enabled.tick.world.chip.send [] [0x01#8, reg1, reg2] =
      { s.enabled.tick.world.chip with reg1 := reg1, reg2 := reg2, writeEnabled := false } :=
    if_pos ⟨rfl, s.enabled.tick_writeEnabled⟩
  have clock : s.enabled.clock = s.clock + 1 := s.tick_clock
  show { s.enabled.tick.timing with
    reg2 := (s.enabled.tick.world.chip.send [] [0x01#8, reg1, reg2]).reg2 } = _
  rw [written, tick_timing, enabled_timing, clock, Timing.sends_sends]
  rfl

/-- Quad mode is enabled in the second status register where it is not yet. -/
theorem flashEnableQuadMode_takes (t : Timing) :
    Takes t flashEnableQuadMode fun _ u => u =
      { t.sends
          (afterCheck t.busy (t.clock + if t.reg2 &&& 0x02#8 = 0 then 4 else 1)) [] with
        driver := { t.driver with pageProgramFun := .quad }
        reg2 := if t.reg2 &&& 0x02#8 = 0 then t.reg2 ||| 0x02#8 else t.reg2 } := by
  have rest (v : Timing) : Takes v
      (do
        let driver ← getDriver
        setDriver { driver with pageProgramFun := .quad }
        flashCheckStatus) fun _ u => u =
      { v.sends (afterCheck v.busy v.clock) [] with
        driver := { v.driver with pageProgramFun := .quad } } := by
    rintro s rfl
    exact flashCheckStatus_takes { s.timing with
      driver := { s.world.driver with pageProgramFun := .quad } }
      { s with world := { s.world with
          driver := { s.world.driver with pageProgramFun := .quad } } } rfl
  unfold flashEnableQuadMode
  refine (readStatusReg2_takes t).bind ?_
  rintro status _ ⟨rfl, rfl⟩
  by_cases clear : t.reg2 &&& 0x02#8 = 0
  · rw [if_pos clear, if_pos clear, if_pos clear]
    refine (readStatusReg1_waits _).andThen fun reg1 => ?_
    refine (flashWriteStatusReg_takes _ _ _).andThen fun _ => (rest _).weaken fun _ u reached => ?_
    rw [reached]
    simp only [Timing.sends, List.append_nil]
  · rw [if_neg clear, if_neg clear, if_neg clear]
    refine (rest _).weaken fun _ u reached => ?_
    rw [reached]
    simp only [Timing.sends, List.append_nil]

theorem flashDisableProtect_takes (t : Timing) :
    Takes t flashDisableProtect fun _ u => u =
      { t.sends (afterCheck t.busy (t.clock + 6)) [] with reg2 := t.reg2 &&& 0x03#8 } := by
  unfold flashDisableProtect
  refine (readStatusReg1_waits t).andThen fun _ => ?_
  refine (readStatusReg2_takes _).bind ?_
  rintro status _ ⟨rfl, rfl⟩
  refine (flashWriteStatusReg_takes _ _ _).andThen fun _ => ?_
  refine (readStatusReg1_waits _).andThen fun _ => ?_
  refine (readStatusReg2_waits _).andThen fun _ => ?_
  refine (flashCheckStatus_takes _).weaken fun _ u reached => ?_
  rw [reached]
  simp only [Timing.sends, List.append_nil]

end SlowWorld

/-- The clock after `flash_init(1)` and `flash_enable_quad_mode()`. -/
def afterBringUp (busy : Nat → Bool) (reg2 : Byte) (clock : Nat) : Nat :=
  afterCheck busy (clock + if reg2 &&& 0x02#8 = 0 then 5 else 2)

/-- The second status register with quad mode enabled. -/
def quadEnabled (reg2 : Byte) : Byte := if reg2 &&& 0x02#8 = 0 then reg2 ||| 0x02#8 else reg2

theorem quadEnabled_and (reg2 : Byte) : quadEnabled reg2 &&& 0x02#8 ≠ 0 := by
  unfold quadEnabled
  split
  · rename_i clear
    rw [BitVec.and_or_distrib_right, clear]
    decide
  · assumption

namespace SlowWorld

theorem bringUp_takes {α : Type} (t : Timing) {rest : Firmware α} {promise : α → Timing → Prop}
    (after : Takes { t.sends (afterBringUp t.busy t.reg2 t.clock) [] with
      driver := quadDriver, reg2 := quadEnabled t.reg2 } rest promise) :
    Takes t (do
      let _ ← flashInit 1
      let _ ← flashEnableQuadMode
      rest) promise := by
  refine (flashInit_takes t).andThen fun _ => ?_
  refine (flashEnableQuadMode_takes _).bind ?_
  rintro status _ rfl
  have steps : t.clock + 1 + (if t.reg2 &&& 0x02#8 = 0 then 4 else 1) =
      t.clock + if t.reg2 &&& 0x02#8 = 0 then 5 else 2 := by
    split <;> rfl
  simp only [Timing.sends, List.append_nil, steps] at after ⊢
  exact after

end SlowWorld

end K210Guard
