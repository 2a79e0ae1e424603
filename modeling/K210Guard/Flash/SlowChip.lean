/-
**A flash chip that takes its time.**

`World.step` has the chip carry a command out before the next transaction. `SlowWorld` is the same
machine with an arbitrary busy bit: `busy n` is the bit at the `n`-th transaction. An erase or
program command that arrives while the bit is set is ignored; one that is taken has its effect when
the bit is next clear. The other transactions work at any time.

* `SlowWorld.run_ready` — where the bit is never set, this is the machine of `World.step`.
* `SlowWorld.run_accounts` — after every run the cells are what the commands carried out made of
  them: those that arrived at a clear bit and were followed by one.
-/

import K210Guard.Flash.Commands

namespace K210Guard

open NorFlash (Command Cells replay)

/-! ### The commands in a transaction -/

/-- The erase or program command of a transaction on one line. -/
def Chip.commandOf (data : List Byte) : List Byte → Option Command
  | [opcode, high, middle, low] =>
      if opcode = 0x20#8 then some (.erase (address high middle low))
      else if opcode = 0x02#8 then some (.program (address high middle low) data)
      else none
  | _ => none

/-- The program command of a transaction on several lines. -/
def Chip.commandOfEnhanced (format : SpiFormat) (data : List Byte) : List Nat → Option Command
  | [opcode, word] =>
      if opcode = 0x32 ∧ format = ⟨1, 2, 0, 24, 0⟩ then
        some (.program (frameAddress format word) data)
      else none
  | _ => none

/-- The erase or program command that an operation sends, if it sends one. -/
def Bus.command : Bus → Option Command
  | .spiSend cmd data => Chip.commandOf data cmd
  | .spiSendEnhanced ctrlr0 spiCtrlr0 cmd data =>
      Chip.commandOfEnhanced (spiFormat ctrlr0 spiCtrlr0) data cmd
  | _ => none

/-- The operation is a transaction with the chip. -/
def Bus.onSpi : Bus → Bool
  | .spiReceive .. | .spiSend .. | .spiReceiveEnhanced .. | .spiSendEnhanced .. => true
  | _ => false

theorem Bus.onSpi_of_command {op : Bus} {command : Command} (sent : op.command = some command) :
    op.onSpi = true := by
  cases op with
  | spiSend cmd data => rfl
  | spiSendEnhanced ctrlr0 spiCtrlr0 cmd data => rfl
  | _ => cases sent

theorem Chip.send_command (chip : Chip) {data cmd : List Byte} {command : Command}
    (sent : commandOf data cmd = some command) : chip.send data cmd = chip.execute command := by
  unfold commandOf at sent
  split at sent
  · rename_i opcode high middle low
    show (if opcode = 0x20#8 then chip.execute _
      else if opcode = 0x02#8 then chip.execute _ else chip) = _
    split_ifs at sent ⊢ <;> rw [Option.some.inj sent]
  · cases sent

theorem Chip.send_noCommand (chip : Chip) {data cmd : List Byte}
    (silent : commandOf data cmd = none) : (chip.send data cmd).cells = chip.cells := by
  unfold commandOf at silent
  unfold Chip.send
  split
  · split_ifs <;> rfl
  · split_ifs <;> rfl
  · dsimp only at silent
    split_ifs at silent ⊢
    rfl
  · rfl

theorem Chip.sendEnhanced_command (chip : Chip) {format : SpiFormat} {data : List Byte}
    {cmd : List Nat} {command : Command} (sent : commandOfEnhanced format data cmd = some command) :
    chip.sendEnhanced format data cmd = chip.execute command := by
  unfold commandOfEnhanced at sent
  split at sent
  · split_ifs at sent with known
    rw [← Option.some.inj sent]
    exact if_pos known
  · cases sent

theorem Chip.sendEnhanced_noCommand (chip : Chip) {format : SpiFormat} {data : List Byte}
    {cmd : List Nat} (silent : commandOfEnhanced format data cmd = none) :
    (chip.sendEnhanced format data cmd).cells = chip.cells := by
  unfold commandOfEnhanced at silent
  unfold Chip.sendEnhanced
  split
  · dsimp only at silent
    split_ifs at silent ⊢
    rfl
  · rfl

/-- **The ideal chip executes the command of an operation**, and an operation without one leaves
the cells alone. -/
theorem World.step_command (world : World) {op : Bus} {command : Command}
    (sent : op.command = some command) :
    (world.step op).2 = { world with chip := world.chip.execute command } := by
  cases op with
  | spiSend cmd data =>
      show { world with chip := world.chip.send data cmd } = _
      rw [world.chip.send_command sent]
  | spiSendEnhanced ctrlr0 spiCtrlr0 cmd data =>
      show { world with chip := world.chip.sendEnhanced _ data cmd } = _
      rw [world.chip.sendEnhanced_command sent]
  | _ => cases sent

theorem World.step_noCommand (world : World) {op : Bus} (silent : op.command = none) :
    (world.step op).2.chip.cells = world.chip.cells := by
  cases op with
  | spiSend cmd data => exact world.chip.send_noCommand silent
  | spiSendEnhanced ctrlr0 spiCtrlr0 cmd data => exact world.chip.sendEnhanced_noCommand silent
  | _ => rfl

/-! ### The machine -/

/-- The machine with a chip whose operations take time. -/
structure SlowWorld where
  world : World
  /-- The busy bit at each transaction. -/
  busy : Nat → Bool
  /-- The transactions so far. -/
  clock : Nat
  /-- The command the chip has taken and not finished. -/
  pending : Option Command
  /-- The erase and program commands the chip was enabled for, each with the transaction it came
  in, also those that it ignored. -/
  arrivals : List (Nat × Command)

namespace SlowWorld

/-- The machine at the beginning of a call. -/
def start (world : World) (busy : Nat → Bool) : SlowWorld := ⟨world, busy, 0, none, []⟩

/-- The world once the chip has finished what it has taken. -/
def settled (s : SlowWorld) : World :=
  match s.pending with
  | some command =>
      { s.world with
        chip := { s.world.chip with
          cells := command.apply chipGeometry s.world.chip.cells
          log := s.world.chip.log ++ [command] } }
  | none => s.world

/-- Finishing a command changes the array and the log. -/
theorem settled_eq (s : SlowWorld) : ∃ cells log,
    s.settled = { s.world with chip := { s.world.chip with cells := cells, log := log } } := by
  unfold settled
  cases s.pending with
  | none => exact ⟨_, _, rfl⟩
  | some command => exact ⟨_, _, rfl⟩

/-- The next transaction begins; where the busy bit is clear, the command taken last has had its
effect. -/
def tick (s : SlowWorld) : SlowWorld :=
  if s.busy (s.clock + 1) then { s with clock := s.clock + 1 }
  else { s with world := s.settled, clock := s.clock + 1, pending := none }

/-- The first status register. -/
def status1 (s : SlowWorld) : Byte :=
  s.world.chip.status1 ||| (if s.busy s.clock then 0x01#8 else 0x00#8)

/-- A command arrives: without the latch it is nothing to the chip, while busy it is ignored. -/
def arrive (s : SlowWorld) (command : Command) : SlowWorld :=
  if s.world.chip.writeEnabled then
    if s.busy s.clock then { s with arrivals := s.arrivals ++ [(s.clock, command)] }
    else
      { s with
        world := { s.world with chip := { s.world.chip with writeEnabled := false } }
        pending := some command
        arrivals := s.arrivals ++ [(s.clock, command)] }
  else s

/-- What each operation answers. -/
def answer (s : SlowWorld) : (op : Bus) → op.Answer
  | .spiReceive cmd rxLen =>
      if cmd = [0x05#8] then List.replicate rxLen s.status1 else s.world.chip.receive rxLen cmd
  | op => (s.world.step op).1

/-- What each operation does. -/
def step (s : SlowWorld) (op : Bus) : op.Answer × SlowWorld :=
  let now := if op.onSpi then s.tick else s
  (now.answer op,
    match op.command with
    | some command => now.arrive command
    | none => { now with world := (now.world.step op).2 })

/-- Running a program of the loader. -/
abbrev run {α : Type} (s : SlowWorld) (program : Firmware α) : Option α × SlowWorld :=
  Prog.run step program s

/-! ### Programs that leave the chip alone -/

theorem step_offSpi (s : SlowWorld) {op : Bus} (off : op.onSpi = false) :
    s.step op = ((s.world.step op).1, { s with world := (s.world.step op).2 }) := by
  cases op with
  | spiReceive | spiSend | spiReceiveEnhanced | spiSendEnhanced => cases off
  | _ => rfl

/-- A program without transactions runs as on the ideal machine. -/
theorem run_offSpi {α : Type} {program : Firmware α}
    (off : program.Issues fun op => op.onSpi = false) (s : SlowWorld) :
    s.run program = ((s.world.run program).1, { s with world := (s.world.run program).2 }) := by
  induction off generalizing s with
  | pure value => rfl
  | ask op next allowed _ ih =>
      show run (s.step op).2 (next (s.step op).1) = _
      rw [s.step_offSpi allowed]
      exact ih _ _
  | spin => rfl

/-! ### A chip that is never busy -/

theorem tick_ready {s : SlowWorld} (ready : ∀ time, s.busy time = false) :
    s.tick = { s with world := s.settled, clock := s.clock + 1, pending := none } :=
  if_neg (Bool.eq_false_iff.mp (ready _))

theorem arrive_busy (s : SlowWorld) (command : Command) : (s.arrive command).busy = s.busy := by
  unfold arrive
  split
  · split <;> rfl
  · rfl

/-- A command that arrives at a chip that is not busy is executed. -/
theorem arrive_settled {s : SlowWorld} (ready : ∀ time, s.busy time = false)
    (idle : s.pending = none) (command : Command) :
    (s.arrive command).settled = { s.world with chip := s.world.chip.execute command } := by
  unfold arrive Chip.execute
  by_cases enabled : s.world.chip.writeEnabled = true
  · rw [if_pos enabled, if_pos enabled, if_neg (Bool.eq_false_iff.mp (ready _))]
    rfl
  · rw [if_neg enabled, if_neg enabled, settled, idle]

theorem answer_ready {s : SlowWorld} (ready : ∀ time, s.busy time = false) (op : Bus) :
    s.answer op = (s.world.step op).1 := by
  cases op with
  | spiReceive cmd rxLen =>
      show (if cmd = [0x05#8] then _ else _) = s.world.chip.receive rxLen cmd
      split
      · rename_i status
        rw [status, status1, ready, if_neg (by decide), BitVec.or_zero]
        rfl
      · rfl
  | _ => rfl

/-- One operation on a chip that is never busy is one on the ideal chip. -/
theorem step_ready {s : SlowWorld} (ready : ∀ time, s.busy time = false) (op : Bus) :
    (s.step op).1 = (s.settled.step op).1 ∧ (s.step op).2.settled = (s.settled.step op).2 ∧
      (s.step op).2.busy = s.busy := by
  by_cases spi : op.onSpi = true
  · let begun : SlowWorld := { s with world := s.settled, clock := s.clock + 1, pending := none }
    have still : ∀ time, begun.busy time = false := ready
    have now : (if op.onSpi then s.tick else s) = begun := (if_pos spi).trans (tick_ready ready)
    unfold step
    rw [now]
    cases sent : op.command with
    | none => exact ⟨answer_ready still op, rfl, rfl⟩
    | some command =>
        exact ⟨answer_ready still op,
          (arrive_settled still rfl command).trans (World.step_command _ sent).symm,
          arrive_busy begun command⟩
  · cases op with
    | spiReceive | spiSend | spiReceiveEnhanced | spiSendEnhanced => exact absurd rfl spi
    | _ =>
        unfold settled
        cases s with
        | mk world busy clock pending arrivals => cases pending <;> exact ⟨rfl, rfl, rfl⟩

/-- **The chip of `World.step` is the one that is never busy.** -/
theorem run_ready {α : Type} (program : Firmware α) (s : SlowWorld)
    (ready : ∀ time, s.busy time = false) :
    (s.run program).1 = (s.settled.run program).1 ∧
      (s.run program).2.settled = (s.settled.run program).2 := by
  induction program generalizing s with
  | pure value => exact ⟨rfl, rfl⟩
  | ask op next ih =>
      obtain ⟨answer, after, busy⟩ := step_ready ready op
      show ((s.step op).2.run (next (s.step op).1)).1 =
          ((s.settled.step op).2.run (next (s.settled.step op).1)).1 ∧
        ((s.step op).2.run (next (s.step op).1)).2.settled =
          ((s.settled.step op).2.run (next (s.settled.step op).1)).2
      rw [← answer, ← after]
      exact ih _ _ fun time => (congrFun busy time).trans (ready time)
  | spin => exact ⟨rfl, rfl⟩

end SlowWorld

/-! ### The account of the cells -/

/-- A command that arrived at a clear busy bit which was clear again before the end. -/
def CarriedOut (busy : Nat → Bool) (stop arrival : Nat) : Prop :=
  busy arrival = false ∧ ∃ time ≤ stop, arrival < time ∧ busy time = false

instance (busy : Nat → Bool) (stop arrival : Nat) : Decidable (CarriedOut busy stop arrival) :=
  inferInstanceAs (Decidable (_ ∧ ∃ time, time ≤ stop ∧ arrival < time ∧ busy time = false))

/-- The commands the chip took. -/
def takenOf (busy : Nat → Bool) (arrivals : List (Nat × Command)) : List Command :=
  (arrivals.filter fun arrival => busy arrival.1 = false).map Prod.snd

/-- The commands the chip carried out. -/
def carriedOutOf (busy : Nat → Bool) (stop : Nat) (arrivals : List (Nat × Command)) :
    List Command :=
  (arrivals.filter fun arrival => CarriedOut busy stop arrival.1).map Prod.snd

theorem carriedOutOf_append (busy : Nat → Bool) (stop : Nat) (first second : List (Nat × Command)) :
    carriedOutOf busy stop (first ++ second) =
      carriedOutOf busy stop first ++ carriedOutOf busy stop second := by
  unfold carriedOutOf
  rw [List.filter_append, List.map_append]

/-- Another transaction at a set bit finishes nothing. -/
theorem carriedOut_succ_of_busy {busy : Nat → Bool} {stop : Nat} (set : busy (stop + 1) = true)
    (arrival : Nat) : CarriedOut busy (stop + 1) arrival ↔ CarriedOut busy stop arrival := by
  refine and_congr_right fun _ => ⟨?_, ?_⟩
  · rintro ⟨time, bound, later, clear⟩
    have earlier : time ≠ stop + 1 := by
      rintro rfl
      exact absurd (set.symm.trans clear) (by decide)
    exact ⟨time, by omega, later, clear⟩
  · rintro ⟨time, bound, later, clear⟩
    exact ⟨time, Nat.le_succ_of_le bound, later, clear⟩

/-- Another transaction at a clear bit finishes what was taken. -/
theorem carriedOut_succ_of_clear {busy : Nat → Bool} {stop arrival : Nat}
    (clear : busy (stop + 1) = false) (past : arrival ≤ stop) :
    CarriedOut busy (stop + 1) arrival ↔ busy arrival = false :=
  and_iff_left ⟨stop + 1, le_rfl, Nat.lt_succ_of_le past, clear⟩

namespace SlowWorld

/-- The cells are what the commands carried out made of them, and at most one command that was
taken is not finished. -/
structure Accounts (initial : Cells) (s : SlowWorld) : Prop where
  cells : s.world.chip.cells =
    replay chipGeometry (carriedOutOf s.busy s.clock s.arrivals) initial
  taken : takenOf s.busy s.arrivals = carriedOutOf s.busy s.clock s.arrivals ++ s.pending.toList
  past : ∀ arrival ∈ s.arrivals, arrival.1 ≤ s.clock

variable {initial : Cells} {s : SlowWorld}

/-- When the bit is clear, nothing is pending after the beginning of a transaction. -/
theorem tick_idle (s : SlowWorld) (clear : s.tick.busy s.tick.clock = false) :
    s.tick.pending = none := by
  unfold tick at clear ⊢
  split
  · rename_i set
    rw [if_pos set] at clear
    exact absurd (set.symm.trans clear) (by decide)
  · rfl

theorem tick_accounts (accounts : s.Accounts initial) : s.tick.Accounts initial := by
  unfold tick
  split
  · rename_i set
    have same : carriedOutOf s.busy (s.clock + 1) s.arrivals =
        carriedOutOf s.busy s.clock s.arrivals := by
      simp only [carriedOutOf, carriedOut_succ_of_busy set]
    exact
      { cells := by rw [same]; exact accounts.cells
        taken := by rw [same]; exact accounts.taken
        past := fun arrival member => Nat.le_succ_of_le (accounts.past arrival member) }
  · rename_i set
    have clear : s.busy (s.clock + 1) = false := Bool.eq_false_iff.mpr set
    have all : carriedOutOf s.busy (s.clock + 1) s.arrivals = takenOf s.busy s.arrivals := by
      refine congrArg (List.map Prod.snd) (List.filter_congr fun arrival member => ?_)
      exact decide_eq_decide.mpr (carriedOut_succ_of_clear clear (accounts.past arrival member))
    refine
      { cells := ?_
        taken := by rw [all]; exact (List.append_nil _).symm
        past := fun arrival member => Nat.le_succ_of_le (accounts.past arrival member) }
    rw [all, accounts.taken, NorFlash.replay_append, ← accounts.cells]
    show s.settled.chip.cells = _
    unfold settled
    cases s.pending with
    | none => rfl
    | some command => rfl

theorem arrive_accounts (accounts : s.Accounts initial)
    (idle : s.busy s.clock = false → s.pending = none) (command : Command) :
    (s.arrive command).Accounts initial := by
  have unfinished : ¬ CarriedOut s.busy s.clock s.clock := fun ⟨_, _, bound, later, _⟩ => by omega
  have same : carriedOutOf s.busy s.clock (s.arrivals ++ [(s.clock, command)]) =
      carriedOutOf s.busy s.clock s.arrivals := by
    rw [carriedOutOf_append]
    simp [carriedOutOf, unfinished]
  have past : ∀ arrival ∈ s.arrivals ++ [(s.clock, command)], arrival.1 ≤ s.clock := by
    intro arrival member
    rcases List.mem_append.mp member with before | now
    · exact accounts.past arrival before
    · rw [List.mem_singleton.mp now]
  unfold arrive
  split
  · split
    · rename_i set
      refine { cells := by rw [same]; exact accounts.cells, taken := ?_, past := past }
      rw [same, ← accounts.taken]
      simp [takenOf, set]
    · rename_i set
      have clear := Bool.eq_false_iff.mpr set
      refine { cells := by rw [same]; exact accounts.cells, taken := ?_, past := past }
      have before := accounts.taken
      rw [idle clear, Option.toList_none, List.append_nil] at before
      rw [same, ← before]
      simp [takenOf, clear]
  · exact accounts

theorem step_accounts (s : SlowWorld) (op : Bus) (accounts : s.Accounts initial) :
    (s.step op).2.Accounts initial := by
  have begun : (if op.onSpi then s.tick else s).Accounts initial := by
    split
    · exact tick_accounts accounts
    · exact accounts
  unfold step
  cases sent : op.command with
  | some command =>
      rw [Bus.onSpi_of_command sent] at begun ⊢
      exact arrive_accounts begun s.tick_idle command
  | none =>
      refine { cells := ?_, taken := begun.taken, past := begun.past }
      show (World.step _ op).2.chip.cells = _
      rw [World.step_noCommand _ sent]
      exact begun.cells

/-- **The account of a run.** -/
theorem run_accounts {α : Type} (world : World) (busy : Nat → Bool) (program : Firmware α) :
    ((start world busy).run program).2.Accounts world.chip.cells :=
  Prog.run_invariant step (Accounts world.chip.cells) step_accounts program _
    ⟨rfl, rfl, fun _ member => by cases member⟩

end SlowWorld

end K210Guard
