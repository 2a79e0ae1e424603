/-
**Timer handlers and registrations.**

`registrations` is what a sequence of calls has left registered, channel by channel, and `Records`
says that the driver's table agrees with it. `HandlersFollow` is the promise of the driver: the
PLIC has a handler for a part of a device exactly when one of its two channels has a callback.

* `handlersFollow_step`: a registration keeps it; an unregistration keeps it unless the other
  channel of the part is registered and the other part has no callback (`KeepsHandler`).
* `handlersFollow_iff`: so it holds along a run exactly when all its calls are such.
* `sibling_loses_handler`: channel 2 is registered, and loses its handler when channel 3 is
  unregistered.
-/

import Mathlib.Data.List.Induction
import Mathlib.Tactic.IntervalCases
import K210Guard.Irq.Timer

namespace K210Guard

/-! ### Calls -/

/-- A call of the driver; a registered callback is not `NULL`. -/
inductive TimerCall
  | register (device channel : Nat) (isSingleShot : Int) (priority : Nat) (callback : Pointer)
      (ctx : Option Pointer)
  | unregister (device channel : Nat)

/-- The state after a call. -/
def Timers.call (s : Timers) : TimerCall → Timers
  | .register device channel isSingleShot priority callback ctx =>
      (s.timerIrqRegister device channel isSingleShot priority (some callback) ctx).2
  | .unregister device channel => (s.timerIrqUnregister device channel).2

/-- Which channels have a registered callback. -/
abbrev Registered := Nat → Nat → Bool

/-- What a call does to the registrations; the numbers of other devices and channels are refused. -/
def Registered.call (registered : Registered) : TimerCall → Registered
  | .register device channel _ _ _ _ => fun d c =>
      if device < timerDeviceMax ∧ channel < timerChannelMax ∧ d = device ∧ c = channel then true
      else registered d c
  | .unregister device channel => fun d c =>
      if d = device ∧ c = channel then false else registered d c

/-- What a sequence of calls leaves registered. -/
def registrations (calls : List TimerCall) : Registered :=
  calls.foldl Registered.call fun _ _ => false

/-- Nothing is registered; the registers of the PLIC are as they are. -/
def Timers.start (priority : Nat → Nat) (enable : Nat → BitVec 32) : Timers where
  timerInstance _ _ := ⟨none, none, false⟩
  plic := ⟨priority, enable, fun _ => ⟨none, none⟩⟩

/-- A sequence of calls. -/
def Timers.run (s : Timers) (calls : List TimerCall) : Timers := calls.foldl Timers.call s

/-! ### Tables and handlers -/

/-- The table of the driver has the registrations. -/
def Timers.Records (s : Timers) (registered : Registered) : Prop :=
  ∀ device < timerDeviceMax, ∀ channel < timerChannelMax,
    s.hasCallback device channel = registered device channel

/-- **Handlers follow registrations**: part A of a device has a handler exactly when channel 0 or 1
is registered, part B when channel 2 or 3 is. -/
structure Timers.HandlersFollow (s : Timers) (registered : Registered) : Prop where
  partA : ∀ device < timerDeviceMax,
    s.hasHandler (irqnTimer0A + device * 2) = (registered device 0 || registered device 1)
  partB : ∀ device < timerDeviceMax,
    s.hasHandler (irqnTimer0B + device * 2) = (registered device 2 || registered device 3)

/-- The other channel of the same part. -/
def sibling (channel : Nat) : Nat := if channel % 2 = 0 then channel + 1 else channel - 1

/-- The first channel of the other part. -/
def otherPart (channel : Nat) : Nat := if channel < 2 then 2 else 0

/-- An unregistration leaves no registered channel without its handler: the other channel of the
part is not registered, or the other part has a callback. -/
def KeepsHandler (registered : Registered) : TimerCall → Prop
  | .register .. => True
  | .unregister device channel =>
      device < timerDeviceMax → channel < timerChannelMax →
        registered device (sibling channel) = false ∨
          (registered device (otherPart channel) ||
            registered device (otherPart channel + 1)) = true

instance (registered : Registered) (call : TimerCall) :
    Decidable (KeepsHandler registered call) := by
  cases call <;> unfold KeepsHandler <;> infer_instance

/-! ### One call -/

section Step

variable {s : Timers} {registered : Registered}

/-- Calls with other numbers are refused. -/
theorem call_refused {device channel : Nat}
    (refused : ¬ (device < timerDeviceMax ∧ channel < timerChannelMax)) :
    (∀ isSingleShot priority callback ctx,
      (s.timerIrqRegister device channel isSingleShot priority callback ctx).2 = s) ∧
      (s.timerIrqUnregister device channel).2 = s := by
  constructor
  · intro isSingleShot priority callback ctx
    rw [Timers.timerIrqRegister, if_neg refused]
  · rw [Timers.timerIrqUnregister, if_neg refused]

/-- **The table follows every call.** -/
theorem Timers.Records.step (records : s.Records registered) (call : TimerCall) :
    (s.call call).Records (registered.call call) := by
  intro d device c channel
  have before := records d device c channel
  cases call with
  | register dev chan isSingleShot priority callback ctx =>
      simp only [Timers.call, Registered.call]
      by_cases valid : dev < timerDeviceMax ∧ chan < timerChannelMax
      · rw [s.hasCallback_register valid, before]
        simp only [valid, true_and, Option.isSome_some]
      · rw [(call_refused valid).1, before, if_neg fun all => valid ⟨all.1, all.2.1⟩]
  | unregister dev chan =>
      simp only [Timers.call, Registered.call]
      by_cases valid : dev < timerDeviceMax ∧ chan < timerChannelMax
      · rw [s.hasCallback_unregister valid, before]
      · rw [(call_refused valid).2, before, if_neg]
        rintro ⟨rfl, rfl⟩
        exact valid ⟨device, channel⟩

/-- The line of part A of a device. -/
theorem lineA_eq_iff {device channel : Nat}
    (valid : device < timerDeviceMax ∧ channel < timerChannelMax) (d : Nat) :
    irqnTimer0A + d * 2 = getTimerIrqnByDeviceAndChannel device channel ↔
      d = device ∧ channel < 2 := by
  rw [getTimerIrqnByDeviceAndChannel, if_pos valid]
  unfold irqnTimer0A irqnTimer0B
  split <;> omega

/-- The line of part B of a device. -/
theorem lineB_eq_iff {device channel : Nat}
    (valid : device < timerDeviceMax ∧ channel < timerChannelMax) (d : Nat) :
    irqnTimer0B + d * 2 = getTimerIrqnByDeviceAndChannel device channel ↔
      d = device ∧ ¬ channel < 2 := by
  rw [getTimerIrqnByDeviceAndChannel, if_pos valid]
  unfold irqnTimer0A irqnTimer0B
  split <;> omega

/-- A registration keeps the promise. -/
theorem Timers.HandlersFollow.register (follow : s.HandlersFollow registered)
    (device channel : Nat) (isSingleShot : Int) (priority : Nat) (callback : Pointer)
    (ctx : Option Pointer) :
    (s.call (.register device channel isSingleShot priority callback ctx)).HandlersFollow
      (registered.call (.register device channel isSingleShot priority callback ctx)) := by
  simp only [Timers.call, Registered.call]
  by_cases valid : device < timerDeviceMax ∧ channel < timerChannelMax
  · have channels : channel = 0 ∨ channel = 1 ∨ channel = 2 ∨ channel = 3 := by
      have low := valid.2
      unfold timerChannelMax at low
      omega
    constructor
    · intro d low
      rw [s.hasHandler_register valid, follow.partA d low]
      simp only [lineA_eq_iff valid, valid, true_and]
      by_cases same : d = device
      · rcases channels with rfl | rfl | rfl | rfl <;> simp [same]
      · simp [same]
    · intro d low
      rw [s.hasHandler_register valid, follow.partB d low]
      simp only [lineB_eq_iff valid, valid, true_and]
      by_cases same : d = device
      · rcases channels with rfl | rfl | rfl | rfl <;> simp [same]
      · simp [same]
  · rw [(call_refused valid).1]
    have unchanged (d c : Nat) : ¬ (device < timerDeviceMax ∧ channel < timerChannelMax ∧
        d = device ∧ c = channel) := fun all => valid ⟨all.1, all.2.1⟩
    simp only [unchanged, if_false]
    exact follow

/-- The handlers of the device whose channel is unregistered, with the registrations before. -/
theorem handlersFollow_unregister {device channel : Nat} (records : s.Records registered)
    (follow : s.HandlersFollow registered)
    (valid : device < timerDeviceMax ∧ channel < timerChannelMax) :
    let left c := if c = channel then false else registered device c
    let idle := ¬ (left 0 || left 1) ∨ ¬ (left 2 || left 3)
    (s.timerIrqUnregister device channel).2.HandlersFollow
        (registered.call (.unregister device channel)) ↔
      (if channel < 2 ∧ idle then false else registered device 0 || registered device 1) =
          (left 0 || left 1) ∧
        (if ¬ channel < 2 ∧ idle then false else registered device 2 || registered device 3) =
          (left 2 || left 3) := by
  intro left idle
  have idle_iff : (s.setInstance device channel ⟨none, none, false⟩).PartIdle device ↔ idle := by
    unfold Timers.PartIdle
    simp only [Timers.hasCallback_setInstance, true_and, Option.isSome_none]
    rw [records device valid.1 0 (by decide), records device valid.1 1 (by decide),
      records device valid.1 2 (by decide), records device valid.1 3 (by decide)]
  have handlerA (d : Nat) (low : d < timerDeviceMax) :
      (s.timerIrqUnregister device channel).2.hasHandler (irqnTimer0A + d * 2) =
        if (d = device ∧ channel < 2) ∧ idle then false
        else registered d 0 || registered d 1 := by
    rw [s.hasHandler_unregister valid, follow.partA d low]
    simp only [lineA_eq_iff valid, idle_iff]
  have handlerB (d : Nat) (low : d < timerDeviceMax) :
      (s.timerIrqUnregister device channel).2.hasHandler (irqnTimer0B + d * 2) =
        if (d = device ∧ ¬ channel < 2) ∧ idle then false
        else registered d 2 || registered d 3 := by
    rw [s.hasHandler_unregister valid, follow.partB d low]
    simp only [lineB_eq_iff valid, idle_iff]
  constructor
  · rintro ⟨partA, partB⟩
    have after := partA device valid.1
    have after' := partB device valid.1
    rw [handlerA device valid.1] at after
    rw [handlerB device valid.1] at after'
    simp only [true_and, Registered.call] at after after'
    exact ⟨after, after'⟩
  · rintro ⟨partA, partB⟩
    constructor
    · intro d low
      rw [handlerA d low]
      by_cases same : d = device
      · simpa only [same, true_and, Registered.call] using partA
      · simp only [same, false_and, if_false, Registered.call]
    · intro d low
      rw [handlerB d low]
      by_cases same : d = device
      · simpa only [same, true_and, Registered.call] using partB
      · simp only [same, false_and, if_false, Registered.call]

/-- An unregistration keeps the promise exactly when it leaves no registered channel without its
handler. -/
theorem handlersFollow_unregister_iff (records : s.Records registered)
    (follow : s.HandlersFollow registered) (device channel : Nat) :
    (s.call (.unregister device channel)).HandlersFollow
        (registered.call (.unregister device channel)) ↔
      KeepsHandler registered (.unregister device channel) := by
  by_cases valid : device < timerDeviceMax ∧ channel < timerChannelMax
  · refine (handlersFollow_unregister records follow valid).trans ?_
    simp only [KeepsHandler, valid, true_implies]
    have channels : channel = 0 ∨ channel = 1 ∨ channel = 2 ∨ channel = 3 := by
      have low := valid.2
      unfold timerChannelMax at low
      omega
    -- what is left is a table over the four channels of the device
    rcases channels with rfl | rfl | rfl | rfl <;>
      · simp only [sibling, otherPart, Nat.reduceMod, Nat.reduceLT, Nat.reduceAdd, Nat.reduceSub,
          reduceIte, Nat.reduceEqDiff]
        generalize registered device 0 = first
        generalize registered device 1 = second
        generalize registered device 2 = third
        generalize registered device 3 = fourth
        revert first second third fourth
        decide
  · refine iff_of_true ?_ fun low low' => absurd ⟨low, low'⟩ valid
    have unchanged {d c : Nat} (low : d < timerDeviceMax) (low' : c < timerChannelMax) :
        registered.call (.unregister device channel) d c = registered d c := by
      refine if_neg ?_
      rintro ⟨rfl, rfl⟩
      exact valid ⟨low, low'⟩
    rw [Timers.call, (call_refused valid).2]
    constructor
    · intro d low
      rw [unchanged low (by decide), unchanged low (by decide)]
      exact follow.partA d low
    · intro d low
      rw [unchanged low (by decide), unchanged low (by decide)]
      exact follow.partB d low

/-- **What one call does to the promise.** -/
theorem handlersFollow_step (records : s.Records registered) (follow : s.HandlersFollow registered)
    (call : TimerCall) :
    (s.call call).HandlersFollow (registered.call call) ↔ KeepsHandler registered call := by
  cases call with
  | register device channel isSingleShot priority callback ctx =>
      exact iff_of_true (follow.register device channel isSingleShot priority callback ctx) trivial
  | unregister device channel => exact handlersFollow_unregister_iff records follow device channel

end Step

/-! ### Runs -/

section Runs

variable (priority : Nat → Nat) (enable : Nat → BitVec 32)

theorem run_concat (s : Timers) (calls : List TimerCall) (call : TimerCall) :
    s.run (calls ++ [call]) = (s.run calls).call call := by
  rw [Timers.run, List.foldl_append]
  rfl

theorem registrations_concat (calls : List TimerCall) (call : TimerCall) :
    registrations (calls ++ [call]) = (registrations calls).call call := by
  rw [registrations, List.foldl_append]
  rfl

/-- The table follows every run. -/
theorem records_run (calls : List TimerCall) :
    ((Timers.start priority enable).run calls).Records (registrations calls) := by
  induction calls using List.reverseRecOn with
  | nil => exact fun _ _ _ _ => rfl
  | append_singleton calls call ih =>
      rw [run_concat, registrations_concat]
      exact ih.step call

/-- Nothing is registered and no handler is. -/
theorem handlersFollow_start :
    ((Timers.start priority enable).run []).HandlersFollow (registrations []) :=
  ⟨fun _ _ => rfl, fun _ _ => rfl⟩

/-- **Handlers follow registrations** in every state of a run if and only if each of its calls keeps
the handlers that are needed. -/
theorem handlersFollow_iff (calls : List TimerCall) :
    (∀ front, front <+: calls →
      ((Timers.start priority enable).run front).HandlersFollow (registrations front)) ↔
      ∀ front call, front ++ [call] <+: calls → KeepsHandler (registrations front) call := by
  constructor
  · intro follow front call inside
    have before := follow front ((List.prefix_append front [call]).trans inside)
    have after := follow (front ++ [call]) inside
    rw [run_concat, registrations_concat] at after
    exact (handlersFollow_step (records_run priority enable front) before call).mp after
  · intro keeps front
    induction front using List.reverseRecOn with
    | nil => exact fun _ => handlersFollow_start priority enable
    | append_singleton front call ih =>
        intro inside
        have before := ih ((List.prefix_append front [call]).trans inside)
        rw [run_concat, registrations_concat]
        exact (handlersFollow_step (records_run priority enable front) before call).mpr
          (keeps front call inside)

end Runs

/-- Channel 2 of timer 0 is registered and channel 3, which is not, is unregistered: part A has no
callback, so part B loses its handler. -/
theorem sibling_loses_handler :
    ¬ ((Timers.start (fun _ => 0) fun _ => 0).run
        [.register 0 2 0 1 0x80000000 none, .unregister 0 3]).HandlersFollow
      (registrations [.register 0 2 0 1 0x80000000 none, .unregister 0 3]) := by
  intro follow
  exact absurd (follow.partB 0 (by decide)) (by decide)

end K210Guard
