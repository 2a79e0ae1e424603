/-
**The hand-off between the cores** (`register_core1`, `core1_entry`, `go_boot`, `drivers/clint.c`).

Core 0 registers `core1_entry`, does its checks, sends an IPI and spins on `jump_flag`; core 1 waits
for the registration, sets up its IPI, waits in `wfi` and sets `jump_flag`. A core is the list of
accesses it still has to make, one access a step, so the functions below are lists under the names
of the source. An enabled pending IPI is taken before the next access: the handler's accesses go in
front.
-/

import K210Guard.Cores.BringUp

namespace K210Guard

/-! ### The accesses -/

/-- What core 1 does. -/
inductive Core1Op
  /-- `while (!g_wake_up[core_id])` -/
  | pollWakeUp
  /-- `if (core1_instance.callback != NULL)` -/
  | testCallback
  /-- `core1_instance.callback(core1_instance.ctx)` -/
  | callCallback
  /-- `clear_csr(mie, MIP_MSIP)` -/
  | clearMieMsip
  /-- `set_csr(mie, MIP_MSIP)` -/
  | setMieMsip
  /-- `clear_csr(mip, MIP_MSIP)`: the bit follows `msip` of the CLINT and cannot be written. -/
  | clearMipMsip
  /-- `set_csr(mstatus, MSTATUS_MIE)` -/
  | setMstatusMie
  /-- `clear_csr(mstatus, MSTATUS_MIE)` -/
  | clearMstatusMie
  /-- `set_csr(mstatus, MSTATUS_MPIE | MSTATUS_MPP)` -/
  | setMstatusMpie
  /-- `clint_ipi_instance[core_id].callback = NULL` -/
  | nullIpiCallback
  /-- `if (clint->msip[core_id].msip)` -/
  | testMsip
  /-- `clint->msip[core_id].msip = 0` -/
  | clearMsip
  /-- `if (clint_ipi_instance[core_id].callback != NULL)` and the call -/
  | callIpiCallback
  | mret
  /-- `wfi`, not yet executed -/
  | wfi
  /-- `wfi`, waiting for an interrupt -/
  | waiting
  /-- `jump_flag = 1` -/
  | setJumpFlag
  deriving DecidableEq

/-- What core 0 does. -/
inductive Core0Op
  /-- `core1_instance.callback = func` -/
  | storeCallback (func : List Core1Op)
  /-- `core1_instance.ctx = ctx`: `NULL` over `NULL` -/
  | storeCtx
  /-- `g_wake_up[core_id] = 1` -/
  | wakeCore1
  /-- What `main` does up to `go_boot`; it touches nothing of what the cores share. -/
  | checks
  /-- `clint->msip[1].msip = 1` -/
  | sendMsip
  /-- `while (jump_flag == 0)` -/
  | spinJumpFlag
  deriving DecidableEq

/-! ### The functions -/

def clintIpiInit : List Core1Op := [.clearMieMsip, .clearMipMsip, .nullIpiCallback]

/-- `clint_ipi_clear`: the test goes on to the store when the flag is set. -/
def clintIpiClear : List Core1Op := [.testMsip]

def clintIpiEnable : List Core1Op := [.setMstatusMie, .setMieMsip]

def clintIpiDisable : List Core1Op := [.clearMieMsip, .clearMipMsip]

def clintIpiUnregister : List Core1Op := [.nullIpiCallback]

/-- `handle_irq_m_soft` and the return of `trap_entry`. -/
def handleIrqMSoft : List Core1Op :=
  [.clearMieMsip, .setMstatusMie] ++ clintIpiClear ++
    [.callIpiCallback, .clearMstatusMie, .setMstatusMpie, .setMieMsip, .mret]

/-- `go_boot` on core 1. -/
def goBoot1 : List Core1Op := [.setJumpFlag]

/-- `core1_entry` after its `wfi`. -/
def afterWfi : List Core1Op := clintIpiDisable ++ clintIpiClear ++ clintIpiUnregister ++ goBoot1

def core1Entry : List Core1Op :=
  clintIpiInit ++ clintIpiClear ++ clintIpiEnable ++ [.wfi] ++ afterWfi

/-- `thread_entry` and the call in `_init_bsp`. -/
def core1Start : List Core1Op := [.pollWakeUp, .testCallback]

def registerCore1 (func : List Core1Op) : List Core0Op :=
  [.storeCallback func, .storeCtx, .wakeCore1]

/-- `go_boot` on core 0. -/
def goBoot0 : List Core0Op := [.sendMsip, .spinJumpFlag]

/-- `main` on its way to `go_boot`. -/
def main0 : List Core0Op := registerCore1 core1Entry ++ [.checks] ++ goBoot0

/-! ### The steps -/

/-- What the cores share, the interrupt state of core 1, and what each has still to do. -/
structure HandOff where
  /-- `core1_instance.callback`, `none` for `NULL` -/
  callback : Option (List Core1Op)
  /-- `g_wake_up[1]` -/
  wakeUp : Bool
  jumpFlag : Bool
  /-- `clint->msip[1].msip` -/
  msip : Bool
  /-- `clint_ipi_instance[1].callback` -/
  ipiCallback : Option (List Core1Op)
  mieMsip : Bool
  mstatusMie : Bool
  mstatusMpie : Bool
  core0 : List Core0Op
  core1 : List Core1Op
  deriving DecidableEq

namespace HandOff

/-- After `_init_bsp` of core 0 has cleared the shared variables. `crt.S` clears `mie`; `msip` and
`mstatus` are what an earlier stage has left. -/
def start (msip mstatusMie mstatusMpie : Bool) : HandOff where
  callback := none
  wakeUp := false
  jumpFlag := false
  msip := msip
  ipiCallback := none
  mieMsip := false
  mstatusMie := mstatusMie
  mstatusMpie := mstatusMpie
  core0 := main0
  core1 := core1Start

/-- Core 0 makes its next access. -/
def step0 (s : HandOff) : Option HandOff :=
  match s.core0 with
  | [] => none
  | .storeCallback func :: rest => some { s with callback := some func, core0 := rest }
  | .storeCtx :: rest => some { s with core0 := rest }
  | .wakeCore1 :: rest => some { s with wakeUp := true, core0 := rest }
  | .checks :: rest => some { s with core0 := rest }
  | .sendMsip :: rest => some { s with msip := true, core0 := rest }
  | .spinJumpFlag :: rest => some { s with core0 := if s.jumpFlag then rest else s.core0 }

/-- One access of core 1. -/
def access (s : HandOff) (rest : List Core1Op) : Core1Op → HandOff
  | .pollWakeUp => if s.wakeUp then { s with core1 := rest } else s
  | .testCallback =>
      { s with core1 := if s.callback.isSome then .callCallback :: rest else rest }
  | .callCallback => { s with core1 := s.callback.getD [] ++ rest }
  | .clearMieMsip => { s with mieMsip := false, core1 := rest }
  | .setMieMsip => { s with mieMsip := true, core1 := rest }
  | .clearMipMsip => { s with core1 := rest }
  | .setMstatusMie => { s with mstatusMie := true, core1 := rest }
  | .clearMstatusMie => { s with mstatusMie := false, core1 := rest }
  | .setMstatusMpie => { s with mstatusMpie := true, core1 := rest }
  | .nullIpiCallback => { s with ipiCallback := none, core1 := rest }
  | .testMsip => { s with core1 := if s.msip then .clearMsip :: rest else rest }
  | .clearMsip => { s with msip := false, core1 := rest }
  | .callIpiCallback => { s with core1 := s.ipiCallback.getD [] ++ rest }
  | .mret => { s with mstatusMie := s.mstatusMpie, mstatusMpie := true, core1 := rest }
  | .wfi => { s with core1 := .waiting :: rest }
  | .waiting => if s.mieMsip && s.msip then { s with core1 := rest } else s
  | .setJumpFlag => { s with jumpFlag := true, core1 := rest }

/-- An IPI is pending and enabled. -/
def interrupted (s : HandOff) : Bool := s.mstatusMie && s.mieMsip && s.msip

/-- The trap: interrupts are off, the handler goes first. -/
def trap (s : HandOff) : HandOff :=
  { s with
    mstatusMpie := s.mstatusMie
    mstatusMie := false
    core1 := handleIrqMSoft ++ s.core1 }

/-- Core 1 takes a pending IPI, or makes its next access. A `wfi` that waits completes first. -/
def step1 (s : HandOff) : Option HandOff :=
  match s.core1 with
  | [] => none
  | .waiting :: rest => some (s.access rest .waiting)
  | op :: rest => some (if s.interrupted then s.trap else s.access rest op)

def step : Core → HandOff → Option HandOff
  | .core0 => step0
  | .core1 => step1

/-- Core 1 waits in `wfi`. -/
def Waits (s : HandOff) : Prop := s.core1.head? = some .waiting

/-- Core 0 spins in `go_boot`. -/
def Spins (s : HandOff) : Prop := s.core0.head? = some .spinJumpFlag

/-- Core 0 is about to send the IPI. -/
def Sends (s : HandOff) : Prop := s.core0.head? = some .sendMsip

/-- **The lost wake-up**: core 0 spins, core 1 waits, and no IPI is pending. -/
def Lost (s : HandOff) : Prop := s.Spins ∧ s.Waits ∧ s.msip = false

instance (s : HandOff) : Decidable s.Waits := inferInstanceAs (Decidable (_ = _))

instance (s : HandOff) : Decidable s.Lost := inferInstanceAs (Decidable (_ = _ ∧ _ = _ ∧ _ = _))

end HandOff

end K210Guard
