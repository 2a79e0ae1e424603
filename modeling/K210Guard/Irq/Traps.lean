/-
**Interrupt handlers that nest** (`crt.S`, `bsp/interrupt.c`, `drivers/plic.c`, `drivers/clint.c`).

The three handlers turn interrupts on again before they call the registered function, so a further
interrupt may be taken on top of it. A trap that is under way is a frame: the statements it still
has to execute, one a step, and the local variables of its handler. `System` is the interrupt
controller with both cores; a move is a step of a core's code, a trap, or a device's request.

Registered functions are taken to leave `mie` and `mstatus` alone and not to claim or complete
interrupts themselves; the program does the former with no trap under way (`BaseOp`). With a timer
function that calls `clint_timer_start`, say, a second timer interrupt is taken on top of the first.
-/

import Mathlib.Logic.Function.Basic

namespace K210Guard.Irq

/-! ### Registers -/

/-- The bits of `mie` in use: `MIP_MEIP`, `MIP_MTIP` and `MIP_MSIP`. -/
structure Mie where
  meip : Bool
  mtip : Bool
  msip : Bool
  deriving DecidableEq

/-- `MSTATUS_MPP`, and the mode that a core is in. -/
inductive Privilege
  | user
  | machine
  deriving DecidableEq

/-- What a trap and its handler change on a core. The threshold is a register of the controller, one
for each core. -/
structure Registers where
  mie : Mie
  mstatusMie : Bool
  mstatusMpie : Bool
  mstatusMpp : Privilege
  privilege : Privilege
  mepc : Nat
  pc : Nat
  priorityThreshold : Nat

/-- The interrupts that have a handler; the other entries of `irq_table` are `handle_irq_dummy`. -/
inductive Cause
  | irqMSoft
  | irqMTimer
  | irqMExt
  deriving DecidableEq

/-- The bit of an interrupt in `mie`. -/
def Mie.bit (mie : Mie) : Cause → Bool
  | .irqMSoft => mie.msip
  | .irqMTimer => mie.mtip
  | .irqMExt => mie.meip

/-- `clear_csr(mie, MIP_MTIP | MIP_MSIP)` -/
def Mie.clearTimerSoft (mie : Mie) : Mie := ⟨mie.meip, false, false⟩

/-- `clear_csr(mie, MIP_MTIP)` -/
def Mie.clearTimer (mie : Mie) : Mie := ⟨mie.meip, false, mie.msip⟩

/-- `clear_csr(mie, MIP_MSIP)` -/
def Mie.clearSoft (mie : Mie) : Mie := ⟨mie.meip, mie.mtip, false⟩

/-- `set_csr(mie, MIP_MSIP)` -/
def Mie.setSoft (mie : Mie) : Mie := ⟨mie.meip, mie.mtip, true⟩

/-! ### The statements of the handlers -/

inductive TrapOp
  /-- `csrr a1, mepc`, before `handle_irq` is called -/
  | readMepc
  /-- `if (read_csr(mip) & MIP_MEIP)` -/
  | testMeip
  /-- `ie_flag = read_csr(mie)` -/
  | readMie
  /-- `int_num = claim_complete` -/
  | claim
  /-- `int_threshold = priority_threshold` -/
  | readThreshold
  /-- `priority_threshold = priority[int_num]` -/
  | raiseThreshold
  /-- `clear_csr(mie, MIP_MTIP | MIP_MSIP)` -/
  | clearMieTimerSoft
  /-- `clear_csr(mie, MIP_MSIP)` -/
  | clearMieSoft
  /-- `set_csr(mstatus, MSTATUS_MIE)` -/
  | setMstatusMie
  /-- `clint_ipi_clear(core_id)` -/
  | ipiClear
  /-- The registered function, when there is one. -/
  | callback
  /-- `claim_complete = int_num` -/
  | complete
  /-- `clear_csr(mstatus, MSTATUS_MIE)` -/
  | clearMstatusMie
  /-- `set_csr(mstatus, MSTATUS_MPIE | MSTATUS_MPP)` -/
  | setMstatusMpp
  /-- `write_csr(mie, ie_flag)` -/
  | restoreMie
  /-- `set_csr(mie, MIP_MSIP)` -/
  | setMieSoft
  /-- `priority_threshold = int_threshold` -/
  | restoreThreshold
  /-- The timer goes on, or `clear_csr(mie, MIP_MTIP)`. -/
  | repeatTimer
  /-- `csrw mepc, a0` -/
  | writeMepc
  | mret
  deriving DecidableEq

def handleIrqMExt : List TrapOp :=
  [.testMeip, .readMie, .claim, .readThreshold, .raiseThreshold, .clearMieTimerSoft,
    .setMstatusMie, .callback, .complete, .clearMstatusMie, .setMstatusMpp, .restoreMie,
    .restoreThreshold]

def handleIrqMTimer : List TrapOp :=
  [.readMie, .clearMieTimerSoft, .setMstatusMie, .callback, .clearMstatusMie, .setMstatusMpp,
    .restoreMie, .repeatTimer]

def handleIrqMSoft : List TrapOp :=
  [.clearMieSoft, .setMstatusMie, .ipiClear, .callback, .clearMstatusMie, .setMstatusMpp,
    .setMieSoft]

/-- `irq_table` -/
def handleIrq : Cause → List TrapOp
  | .irqMSoft => handleIrqMSoft
  | .irqMTimer => handleIrqMTimer
  | .irqMExt => handleIrqMExt

/-- `.restore` -/
def restore : List TrapOp := [.writeMepc, .mret]

/-- `trap_entry`, without the general registers that go to the stack and come back from it. -/
def trapEntry (cause : Cause) : List TrapOp := .readMepc :: handleIrq cause ++ restore

/-- A trap under way. -/
structure TrapFrame where
  cause : Cause
  todo : List TrapOp
  epc : Nat
  ieFlag : Mie
  intNum : Nat
  intThreshold : Nat

/-- A trap that has just been taken; its variables have no values yet. -/
def TrapFrame.entered (cause : Cause) : TrapFrame where
  cause := cause
  todo := trapEntry cause
  epc := 0
  ieFlag := ⟨false, false, false⟩
  intNum := 0
  intThreshold := 0

/-! ### The controller -/

/-- `PLIC_NUM_SOURCES` and `PLIC_NUM_PRIORITIES` -/
def plicNumSources : Nat := 65

def plicNumPriorities : Nat := 7

/-- What the cores share of the PLIC. A gateway that has sent a request sends no other one until
the source is completed. -/
structure Plic where
  priority : Nat → Nat
  pending : Nat → Bool
  sent : Nat → Bool

/-- A core: its registers, its enable words and pending bits, `clint_timer_instance`, and the traps
under way on it, the innermost first. -/
structure Hart where
  regs : Registers
  enable : Nat → BitVec 32
  mtip : Bool
  msip : Bool
  singleShot : Bool
  cycles : Nat
  frames : List TrapFrame

def Hart.enabled (hart : Hart) (irq : Nat) : Bool := (hart.enable (irq / 32)).getLsbD (irq % 32)

/-- The sources that a core can claim: pending, enabled for it and of a priority above 0. -/
def Plic.rank (plic : Plic) (hart : Hart) (irq : Nat) : Nat :=
  if irq ≠ 0 ∧ plic.pending irq = true ∧ hart.enabled irq = true then plic.priority irq else 0

/-- The identifiers of the sources. -/
def sources : List Nat := List.range' 1 plicNumSources

/-- Reading `claim_complete`: the pending source of the highest priority, the first one of these,
or 0. The threshold plays no part. -/
def Plic.claimId (plic : Plic) (hart : Hart) : Nat :=
  sources.foldl (fun best irq => if plic.rank hart best < plic.rank hart irq then irq else best) 0

/-- `MIP_MEIP`: some source is above the threshold. -/
def Plic.meip (plic : Plic) (hart : Hart) : Bool :=
  sources.any fun irq => hart.regs.priorityThreshold < plic.rank hart irq

/-- A claim takes the request; 0 stands for no request. -/
def Plic.claim (plic : Plic) (irq : Nat) : Plic :=
  if irq = 0 then plic else { plic with pending := Function.update plic.pending irq false }

/-- A completion opens the gateway; it is ignored for a source that the core has not enabled. The
enable bit of source 0 is hardwired to 0. -/
def Plic.complete (plic : Plic) (hart : Hart) (irq : Nat) : Plic :=
  if irq ≠ 0 ∧ hart.enabled irq = true then
    { plic with sent := Function.update plic.sent irq false }
  else plic

/-- A gateway sends the request of its device. -/
def Plic.request (plic : Plic) (irq : Nat) : Option Plic :=
  if irq ∈ sources ∧ plic.sent irq = false then
    some { plic with
      pending := Function.update plic.pending irq true
      sent := Function.update plic.sent irq true }
  else none

/-! ### Executing a handler -/

/-- What a statement reads outside of the frame and the registers. -/
structure Inputs where
  meip : Bool
  claimed : Nat
  priority : Nat → Nat
  repeats : Bool

/-- What a statement does to its frame and the registers; `todo` of the frame is what follows it. -/
def TrapOp.effect (inputs : Inputs) (frame : TrapFrame) (regs : Registers) :
    TrapOp → TrapFrame × Registers
  | .readMepc => ({ frame with epc := regs.mepc }, regs)
  | .testMeip => ({ frame with todo := if inputs.meip then frame.todo else restore }, regs)
  | .readMie => ({ frame with ieFlag := regs.mie }, regs)
  | .claim => ({ frame with intNum := inputs.claimed }, regs)
  | .readThreshold => ({ frame with intThreshold := regs.priorityThreshold }, regs)
  | .raiseThreshold => (frame, { regs with priorityThreshold := inputs.priority frame.intNum })
  | .clearMieTimerSoft => (frame, { regs with mie := regs.mie.clearTimerSoft })
  | .clearMieSoft => (frame, { regs with mie := regs.mie.clearSoft })
  | .setMstatusMie => (frame, { regs with mstatusMie := true })
  | .clearMstatusMie => (frame, { regs with mstatusMie := false })
  | .setMstatusMpp => (frame, { regs with mstatusMpie := true, mstatusMpp := .machine })
  | .restoreMie => (frame, { regs with mie := frame.ieFlag })
  | .setMieSoft => (frame, { regs with mie := regs.mie.setSoft })
  | .restoreThreshold => (frame, { regs with priorityThreshold := frame.intThreshold })
  | .repeatTimer =>
      (frame, { regs with mie := if inputs.repeats then regs.mie else regs.mie.clearTimer })
  | .writeMepc => (frame, { regs with mepc := frame.epc })
  | .ipiClear | .callback | .complete | .mret => (frame, regs)

/-- `mret` -/
def Registers.mret (regs : Registers) : Registers :=
  { regs with
    mstatusMie := regs.mstatusMpie
    mstatusMpie := true
    privilege := regs.mstatusMpp
    mstatusMpp := .user
    pc := regs.mepc }

/-- What the hardware does when it takes a trap. -/
def Registers.trap (regs : Registers) (vector : Nat) : Registers :=
  { regs with
    mstatusMie := false
    mstatusMpie := regs.mstatusMie
    mstatusMpp := regs.privilege
    privilege := .machine
    mepc := regs.pc
    pc := vector }

/-- An exception between two instructions, handled by `handle_syscall` and returned from. -/
def Registers.exception (regs : Registers) (pc : Nat) : Registers :=
  ({ regs.trap 0 with mepc := pc } : Registers).mret

/-! ### The system -/

/-- `PLIC_NUM_CORES` is 2. -/
abbrev CoreId := Fin 2

def core0 : CoreId := ⟨0, by decide⟩

def core1 : CoreId := ⟨1, by decide⟩

theorem core_cases (core : CoreId) : core = core0 ∨ core = core1 := by
  revert core
  decide

structure System where
  plic : Plic
  harts : CoreId → Hart

def System.setHart (s : System) (core : CoreId) (hart : Hart) : System :=
  { s with harts := Function.update s.harts core hart }

/-- What a statement reads in a state. -/
def System.inputs (s : System) (core : CoreId) : Inputs where
  meip := s.plic.meip (s.harts core)
  claimed := s.plic.claimId (s.harts core)
  priority := s.plic.priority
  repeats := !(s.harts core).singleShot && (s.harts core).cycles != 0

/-- What a statement does to the controller. -/
def TrapOp.plicEffect (plic : Plic) (hart : Hart) (frame : TrapFrame) : TrapOp → Plic
  | .claim => plic.claim (plic.claimId hart)
  | .complete => plic.complete hart frame.intNum
  | _ => plic

/-- The pending interrupts of a core: `mip`. -/
def System.mip (s : System) (core : CoreId) : Cause → Bool
  | .irqMSoft => (s.harts core).msip
  | .irqMTimer => (s.harts core).mtip
  | .irqMExt => s.plic.meip (s.harts core)

/-- What code outside of the handlers may do: in the program itself or in a registered function. It
writes neither `mie` nor `mstatus`, so it calls none of `clint_timer_init`, `clint_timer_start`,
`clint_timer_stop`, `clint_ipi_init`, `clint_ipi_enable`, `clint_ipi_disable`, `plic_init`,
`sysctl_enable_irq` and `sysctl_disable_irq`; nor does it call `plic_irq_claim` or
`plic_irq_complete`. -/
inductive UserOp
  /-- Whatever changes nothing here. -/
  | compute
  /-- One step with its handling: interrupts are off meanwhile, and its frame is not counted. -/
  | exception
  | plicSetPriority (irq priority : Nat)
  | plicIrqEnable (irq : Nat)
  | plicIrqDisable (irq : Nat)
  | clintTimerSet (singleShot : Bool) (cycles : Nat)
  | clintIpiSend (core : CoreId)
  | clintIpiClear (core : CoreId)

/-- What only the program itself does, with no trap under way on its core. -/
inductive BaseOp
  | plicInit
  /-- `set_csr` and `clear_csr` of `mie` and `mstatus`. -/
  | writeCsrs (mie : Mie) (mstatusMie : Bool)

def Hart.plicIrqEnable (hart : Hart) (irq : Nat) : Hart :=
  if plicNumSources < irq then hart
  else { hart with
    enable := Function.update hart.enable (irq / 32)
      (hart.enable (irq / 32) ||| 1#32 <<< (irq % 32)) }

def Hart.plicIrqDisable (hart : Hart) (irq : Nat) : Hart :=
  if plicNumSources < irq then hart
  else { hart with
    enable := Function.update hart.enable (irq / 32)
      (hart.enable (irq / 32) &&& ~~~(1#32 <<< (irq % 32))) }

def Plic.setPriority (plic : Plic) (irq priority : Nat) : Plic :=
  if plicNumSources < irq then plic
  else { plic with priority := Function.update plic.priority irq priority }

/-- `plic_init`: three words and 65 priorities; with nothing enabled its claims return 0. -/
def System.plicInit (s : System) (core : CoreId) (pc : Nat) : System :=
  { s.setHart core
    { s.harts core with
      enable := fun word => if word < (plicNumSources + 32) / 32 then 0
        else (s.harts core).enable word
      regs := { (s.harts core).regs with
        pc := pc
        priorityThreshold := 0
        mie := { (s.harts core).regs.mie with meip := true } } } with
    plic := { s.plic with
      priority := fun irq => if irq < plicNumSources then 0 else s.plic.priority irq } }

/-- The core goes on to its next instruction. -/
def System.advance (s : System) (core : CoreId) (pc : Nat) : System :=
  s.setHart core { s.harts core with regs := { (s.harts core).regs with pc := pc } }

/-- A step of user code on a core, with the address of the next instruction. -/
def System.user (s : System) (core : CoreId) (pc : Nat) : UserOp → System
  | .compute => s.advance core pc
  | .exception => s.setHart core
      { s.harts core with regs := (s.harts core).regs.exception pc }
  | .plicSetPriority irq priority =>
      { s.advance core pc with plic := s.plic.setPriority irq priority }
  | .plicIrqEnable irq => s.setHart core
      { (s.harts core).plicIrqEnable irq with regs := { (s.harts core).regs with pc := pc } }
  | .plicIrqDisable irq => s.setHart core
      { (s.harts core).plicIrqDisable irq with regs := { (s.harts core).regs with pc := pc } }
  | .clintTimerSet singleShot cycles => s.setHart core
      { s.harts core with
        regs := { (s.harts core).regs with pc := pc }
        singleShot := singleShot
        cycles := cycles }
  | .clintIpiSend other =>
      (s.advance core pc).setHart other { (s.advance core pc).harts other with msip := true }
  | .clintIpiClear other =>
      (s.advance core pc).setHart other { (s.advance core pc).harts other with msip := false }

def System.base (s : System) (core : CoreId) (pc : Nat) : BaseOp → System
  | .plicInit => s.plicInit core pc
  | .writeCsrs mie mstatusMie => s.setHart core
      { s.harts core with
        regs := { (s.harts core).regs with pc := pc, mie := mie, mstatusMie := mstatusMie } }

/-- The core runs user code: no trap is under way, or a registered function has been called. -/
def Hart.inUserCode (hart : Hart) : Bool :=
  match hart.frames with
  | [] => true
  | frame :: _ => frame.todo.head? == some .callback

/-- An interrupt can be taken: it is pending, enabled, and interrupts are on. -/
def System.takes (s : System) (core : CoreId) (cause : Cause) : Bool :=
  ((s.harts core).regs.mstatusMie || (s.harts core).regs.privilege == .user) &&
    (s.harts core).regs.mie.bit cause && s.mip core cause

inductive Move
  /-- The gateway of a source sends a request. -/
  | device (irq : Nat)
  /-- `mtime` reaches `mtimecmp` of a core, or `mtimecmp` is moved on. -/
  | timer (core : CoreId) (mtip : Bool)
  | trap (core : CoreId) (cause : Cause) (vector : Nat)
  /-- The next statement of the innermost trap; a registered function returns. -/
  | execute (core : CoreId) (pc : Nat)
  | user (core : CoreId) (pc : Nat) (op : UserOp)
  | base (core : CoreId) (pc : Nat) (op : BaseOp)

/-- A move other than a call of `plic_set_priority` or `plic_init`. -/
def Move.keepsPriorities : Move → Bool
  | .user _ _ (.plicSetPriority _ _) => false
  | .base _ _ .plicInit => false
  | _ => true

/-- `op` is executed, the next statement of `frame`, which goes on with `todo`. -/
def System.executed (s : System) (core : CoreId) (pc : Nat) (frame : TrapFrame)
    (rest : List TrapFrame) (op : TrapOp) (todo : List TrapOp) : System :=
  let after := op.effect (s.inputs core) { frame with todo := todo } (s.harts core).regs
  { s.setHart core
    { s.harts core with
      regs := { after.2 with pc := pc }
      msip := op ≠ .ipiClear && (s.harts core).msip
      frames := after.1 :: rest } with
    plic := op.plicEffect s.plic (s.harts core) frame }

/-- The innermost trap returns. -/
def System.returned (s : System) (core : CoreId) (rest : List TrapFrame) : System :=
  s.setHart core { s.harts core with regs := (s.harts core).regs.mret, frames := rest }

/-- A statement of the innermost trap. -/
def System.execute (s : System) (core : CoreId) (pc : Nat) : Option System :=
  match (s.harts core).frames with
  | [] => none
  | frame :: rest =>
      match frame.todo with
      | [] => none
      | op :: todo =>
          if op = .mret then some (s.returned core rest)
          else some (s.executed core pc frame rest op todo)

def Move.step : Move → System → Option System
  | .device irq, s => (s.plic.request irq).map fun plic => { s with plic := plic }
  | .timer core mtip, s => some (s.setHart core { s.harts core with mtip := mtip })
  | .trap core cause vector, s =>
      if s.takes core cause = true then
        some (s.setHart core
          { s.harts core with
            regs := (s.harts core).regs.trap vector
            frames := .entered cause :: (s.harts core).frames })
      else none
  | .execute core pc, s => s.execute core pc
  | .user core pc op, s =>
      if (s.harts core).inUserCode = true then some (s.user core pc op) else none
  | .base core pc op, s =>
      if (s.harts core).frames.isEmpty = true then some (s.base core pc op) else none

end K210Guard.Irq
