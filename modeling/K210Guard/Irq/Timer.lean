/-
**Timer interrupts** (`drivers/timer.c`, `drivers/plic.c`).

The four channels of a timer share two interrupt lines of the PLIC: channels 0 and 1 are part A,
channels 2 and 3 part B. `Timers` is what the calls on one core act on: the registered callbacks of
the channels, and the PLIC with the handlers of this core.
-/

import Mathlib.Logic.Function.Basic

namespace K210Guard

/-- The address of a function or of its context; `none` is `NULL`. -/
abbrev Pointer := Nat

/-! ### The PLIC -/

/-- The handlers that the timer driver registers: `timer0_interrupt_callback` and its siblings. -/
inductive PlicIrqCallback
  | timerInterruptCallback (device : Nat)
  deriving DecidableEq

/-- Their context, `&timer_instance[device]`. -/
inductive PlicCtx
  | timerInstance (device : Nat)
  deriving DecidableEq

/-- `plic_instance_t` -/
structure PlicInstance where
  callback : Option PlicIrqCallback
  ctx : Option PlicCtx

/-- The registers of the PLIC and `plic_instance`, as far as one core uses them. -/
structure Plic where
  priority : Nat → Nat
  enable : Nat → BitVec 32
  plicInstance : Nat → PlicInstance

/-- `PLIC_NUM_SOURCES` -/
def plicNumSources : Nat := 65

namespace Plic

def plicSetPriority (plic : Plic) (irqNumber priority : Nat) : Int × Plic :=
  if plicNumSources < irqNumber then (-1, plic)
  else (0, { plic with priority := Function.update plic.priority irqNumber priority })

def plicIrqEnable (plic : Plic) (irqNumber : Nat) : Int × Plic :=
  if plicNumSources < irqNumber then (-1, plic)
  else
    let current := plic.enable (irqNumber / 32) ||| 1#32 <<< (irqNumber % 32)
    (0, { plic with enable := Function.update plic.enable (irqNumber / 32) current })

def plicIrqRegister (plic : Plic) (irq : Nat) (callback : Option PlicIrqCallback)
    (ctx : Option PlicCtx) : Plic :=
  { plic with plicInstance := Function.update plic.plicInstance irq ⟨callback, ctx⟩ }

def plicIrqUnregister (plic : Plic) (irq : Nat) : Plic := plic.plicIrqRegister irq none none

end Plic

/-! ### The timer driver -/

/-- `TIMER_DEVICE_MAX` -/
def timerDeviceMax : Nat := 3

/-- `TIMER_CHANNEL_MAX` -/
def timerChannelMax : Nat := 4

/-- `timer_instance_t` -/
structure TimerInstance where
  callback : Option Pointer
  ctx : Option Pointer
  singleShot : Bool

structure Timers where
  timerInstance : Nat → Nat → TimerInstance
  plic : Plic

/-- `IRQN_TIMER0A_INTERRUPT` -/
def irqnTimer0A : Nat := 14

/-- `IRQN_TIMER0B_INTERRUPT` -/
def irqnTimer0B : Nat := 15

/-- 0 is `IRQN_NO_INTERRUPT`. -/
def getTimerIrqnByDeviceAndChannel (device channel : Nat) : Nat :=
  if device < timerDeviceMax ∧ channel < timerChannelMax then
    if channel < 2 then irqnTimer0A + device * 2 else irqnTimer0B + device * 2
  else 0

namespace Timers

/-- An assignment to `timer_instance[device][channel]`. -/
def setInstance (s : Timers) (device channel : Nat) (value : TimerInstance) : Timers :=
  { s with timerInstance := fun d c =>
      if d = device ∧ c = channel then value else s.timerInstance d c }

def timerIrqRegister (s : Timers) (device channel : Nat) (isSingleShot : Int) (priority : Nat)
    (callback ctx : Option Pointer) : Int × Timers :=
  if device < timerDeviceMax ∧ channel < timerChannelMax then
    let irqNumber := getTimerIrqnByDeviceAndChannel device channel
    let s := s.setInstance device channel ⟨callback, ctx, isSingleShot ≠ 0⟩
    let plic := (s.plic.plicSetPriority irqNumber priority).2
    let plic := plic.plicIrqRegister irqNumber (some (.timerInterruptCallback device))
      (some (.timerInstance device))
    (0, { s with plic := (plic.plicIrqEnable irqNumber).2 })
  else (-1, s)

/-- A channel has a callback. -/
def hasCallback (s : Timers) (device channel : Nat) : Bool :=
  (s.timerInstance device channel).callback.isSome

/-- The condition of `timer_irq_unregister`: part A or part B of the device has no callback. -/
def PartIdle (s : Timers) (device : Nat) : Prop :=
  ¬ (s.hasCallback device 0 || s.hasCallback device 1) ∨
    ¬ (s.hasCallback device 2 || s.hasCallback device 3)

instance (s : Timers) (device : Nat) : Decidable (s.PartIdle device) :=
  inferInstanceAs (Decidable (_ ∨ _))

def timerIrqUnregister (s : Timers) (device channel : Nat) : Int × Timers :=
  if device < timerDeviceMax ∧ channel < timerChannelMax then
    let s := s.setInstance device channel ⟨none, none, false⟩
    if s.PartIdle device then
      (0, { s with
        plic := s.plic.plicIrqUnregister (getTimerIrqnByDeviceAndChannel device channel) })
    else (0, s)
  else (-1, s)

/-- A PLIC handler is registered for an interrupt. -/
def hasHandler (s : Timers) (irq : Nat) : Bool := (s.plic.plicInstance irq).callback.isSome

/-! ### What the calls change -/

variable (s : Timers) {device channel : Nat}

/-- An assignment changes one channel. -/
theorem hasCallback_setInstance (value : TimerInstance) (d c : Nat) :
    (s.setInstance device channel value).hasCallback d c =
      if d = device ∧ c = channel then value.callback.isSome else s.hasCallback d c := by
  unfold hasCallback setInstance
  simp only
  split <;> rfl

/-- A call of `plic_irq_register` changes one handler. -/
theorem hasHandler_plicIrqRegister (plic : Plic) (irq : Nat) (callback : Option PlicIrqCallback)
    (ctx : Option PlicCtx) (other : Nat) :
    hasHandler { s with plic := plic.plicIrqRegister irq callback ctx } other =
      if other = irq then callback.isSome else hasHandler { s with plic := plic } other := by
  unfold hasHandler Plic.plicIrqRegister
  simp only [Function.update_apply]
  split <;> rfl

/-- Priorities and enable bits are no handlers. -/
theorem plicInstance_plicSetPriority (plic : Plic) (irqNumber priority : Nat) :
    (plic.plicSetPriority irqNumber priority).2.plicInstance = plic.plicInstance := by
  unfold Plic.plicSetPriority
  split <;> rfl

theorem plicInstance_plicIrqEnable (plic : Plic) (irqNumber : Nat) :
    (plic.plicIrqEnable irqNumber).2.plicInstance = plic.plicInstance := by
  unfold Plic.plicIrqEnable
  split <;> rfl

section Valid

variable (valid : device < timerDeviceMax ∧ channel < timerChannelMax)

include valid

theorem hasCallback_register (isSingleShot : Int) (priority : Nat) (callback ctx : Option Pointer)
    (d c : Nat) :
    (s.timerIrqRegister device channel isSingleShot priority callback ctx).2.hasCallback d c =
      if d = device ∧ c = channel then callback.isSome else s.hasCallback d c := by
  rw [timerIrqRegister, if_pos valid]
  exact s.hasCallback_setInstance _ d c

theorem hasHandler_register (isSingleShot : Int) (priority : Nat) (callback ctx : Option Pointer)
    (irq : Nat) :
    (s.timerIrqRegister device channel isSingleShot priority callback ctx).2.hasHandler irq =
      if irq = getTimerIrqnByDeviceAndChannel device channel then true else s.hasHandler irq := by
  rw [timerIrqRegister, if_pos valid]
  simp only [hasHandler, plicInstance_plicIrqEnable, Plic.plicIrqRegister, Function.update_apply,
    plicInstance_plicSetPriority]
  split <;> rfl

/-- An unregistration clears the channel, and takes the handler away when a part is idle then. -/
theorem timerIrqUnregister_eq :
    (s.timerIrqUnregister device channel).2 =
      if (s.setInstance device channel ⟨none, none, false⟩).PartIdle device then
        { s.setInstance device channel ⟨none, none, false⟩ with
          plic := s.plic.plicIrqUnregister (getTimerIrqnByDeviceAndChannel device channel) }
      else s.setInstance device channel ⟨none, none, false⟩ := by
  rw [timerIrqUnregister, if_pos valid]
  dsimp only
  split <;> rfl

theorem hasCallback_unregister (d c : Nat) :
    (s.timerIrqUnregister device channel).2.hasCallback d c =
      if d = device ∧ c = channel then false else s.hasCallback d c := by
  refine Eq.trans ?_ (s.hasCallback_setInstance ⟨none, none, false⟩ d c)
  rw [s.timerIrqUnregister_eq valid]
  split <;> rfl

theorem hasHandler_unregister (irq : Nat) :
    (s.timerIrqUnregister device channel).2.hasHandler irq =
      if irq = getTimerIrqnByDeviceAndChannel device channel ∧
          (s.setInstance device channel ⟨none, none, false⟩).PartIdle device then false
      else s.hasHandler irq := by
  rw [s.timerIrqUnregister_eq valid]
  by_cases idle : (s.setInstance device channel ⟨none, none, false⟩).PartIdle device
  · rw [if_pos idle]
    simp only [idle, and_true]
    exact hasHandler_plicIrqRegister _ s.plic _ none none irq
  · rw [if_neg idle, if_neg fun both => idle both.2]
    rfl

end Valid

end Timers

end K210Guard
