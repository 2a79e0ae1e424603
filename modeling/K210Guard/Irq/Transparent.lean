/-
**Traps give back what they took.**

A handler saves `mie` and the threshold, turns interrupts on, and restores them after the registered
function; the registers that the hardware saves a trap in are overwritten by the next trap.
`Suspends` says of a trap under way, statement by statement, that it is on its way back to the level
of the code that it interrupted.

* `Suspends.effect`: every statement of the three handlers keeps it.
* `nested_step`: every move of the system keeps the whole stack of traps on its way back.
* `traps_transparent`: when a trap has returned, whatever was taken on top of it, the interrupted
  code goes on where it was, in machine mode, with interrupts on, and with its `mie` and threshold.
-/

import K210Guard.Interaction.CallStack
import K210Guard.Interaction.Schedule
import K210Guard.Irq.Moves
import Mathlib.Data.List.Infix
import Mathlib.Tactic.MkIffOfInductiveProp

namespace K210Guard.Irq

/-- What the interrupted code goes on with: `mie`, the threshold and the program counter. -/
structure Level where
  mie : Mie
  priorityThreshold : Nat
  pc : Nat

def Registers.level (regs : Registers) : Level := ⟨regs.mie, regs.priorityThreshold, regs.pc⟩

/-- The same bits, except that the timer's may have been cleared. -/
structure Mie.Within (mie bound : Mie) : Prop where
  meip : mie.meip = bound.meip
  msip : mie.msip = bound.msip
  mtip : mie.mtip = true → bound.mtip = true

/-- The interrupted code is resumed: interrupts on, in machine mode, at its level. -/
structure Resumes (level : Level) (regs : Registers) : Prop where
  mstatusMie : regs.mstatusMie = true
  machine : regs.privilege = .machine
  mie : regs.mie.Within level.mie
  threshold : regs.priorityThreshold = level.priorityThreshold
  pc : regs.pc = level.pc

/-- A trap on its way back to a level. -/
@[mk_iff] structure Suspends (frame : TrapFrame) (regs : Registers) (level : Level) : Prop where
  shape : frame.todo <:+ trapEntry frame.cause
  unfinished : frame.todo ≠ []
  caused : level.mie.bit frame.cause = true
  machine : regs.privilege = .machine
  mstatusMie : regs.mstatusMie = true ↔
    .setMstatusMie ∉ frame.todo ∧ .clearMstatusMie ∈ frame.todo
  back : .setMstatusMie ∈ frame.todo ∨ .setMstatusMpp ∉ frame.todo →
    regs.mstatusMpie = true ∧ regs.mstatusMpp = .machine
  epc : .readMepc ∉ frame.todo → frame.epc = level.pc
  mepc : .readMepc ∈ frame.todo ∨ .writeMepc ∉ frame.todo → regs.mepc = level.pc
  ieFlag : .readMie ∉ frame.todo → .restoreMie ∈ frame.todo → frame.ieFlag.Within level.mie
  outside : .clearMieTimerSoft ∈ frame.todo ∨ .clearMieSoft ∈ frame.todo ∨
    .restoreMie ∉ frame.todo ∧ .setMieSoft ∉ frame.todo → regs.mie.Within level.mie
  cleared : .clearMieTimerSoft ∉ frame.todo → .restoreMie ∈ frame.todo →
    regs.mie.Within level.mie.clearTimerSoft
  clearedSoft : .clearMieSoft ∉ frame.todo → .setMieSoft ∈ frame.todo →
    regs.mie.Within level.mie.clearSoft
  threshold : .raiseThreshold ∈ frame.todo ∨ .restoreThreshold ∉ frame.todo →
    regs.priorityThreshold = level.priorityThreshold
  intThreshold : .readThreshold ∉ frame.todo → .restoreThreshold ∈ frame.todo →
    frame.intThreshold = level.priorityThreshold

namespace Mie.Within

variable {mie bound : Mie}

theorem refl (mie : Mie) : mie.Within mie := ⟨rfl, rfl, id⟩

theorem trans {other : Mie} (first : mie.Within bound) (second : bound.Within other) :
    mie.Within other :=
  ⟨first.meip.trans second.meip, first.msip.trans second.msip,
    fun set => second.mtip (first.mtip set)⟩

theorem clearSoft (within : mie.Within bound) : mie.clearSoft.Within bound.clearSoft :=
  ⟨within.meip, rfl, within.mtip⟩

theorem clearTimerSoft (within : mie.Within bound) :
    mie.clearTimerSoft.Within bound.clearTimerSoft :=
  ⟨within.meip, rfl, nofun⟩

/-- The bit comes back that the handler had cleared. -/
theorem setSoft (within : mie.Within bound.clearSoft) (caused : bound.bit .irqMSoft = true) :
    mie.setSoft.Within bound :=
  ⟨within.meip, caused.symm, within.mtip⟩

/-- A timer that is not to go on is switched off. -/
theorem clearTimer (within : mie.Within bound) (goesOn : Bool) :
    Mie.Within (if goesOn then mie else mie.clearTimer) bound := by
  cases goesOn
  · exact ⟨within.meip, within.msip, nofun⟩
  · exact within

end Mie.Within

/-- A statement of a handler brings its trap on the way. -/
theorem Suspends.effect {frame : TrapFrame} {op : TrapOp} {todo : List TrapOp} {regs : Registers}
    {level : Level} (suspends : Suspends frame regs level) (next : frame.todo = op :: todo)
    (running : op ≠ .mret) (inputs : Inputs) (pc : Nat) :
    Suspends (op.effect inputs { frame with todo := todo } regs).1
      { (op.effect inputs { frame with todo := todo } regs).2 with pc := pc } level := by
  obtain ⟨cause, _, epc, ieFlag, intNum, intThreshold⟩ := frame
  cases next
  have shape := suspends.shape
  rw [suspends_iff] at suspends ⊢
  cases cause
  case irqMSoft =>
    simp only [trapEntry, handleIrq, handleIrqMSoft, restore, List.cons_append, List.nil_append,
      List.suffix_cons_iff, List.suffix_nil, reduceCtorEq, or_false, List.cons.injEq] at shape
    rcases shape with ⟨rfl, rfl⟩ | ⟨rfl, rfl⟩ | ⟨rfl, rfl⟩ | ⟨rfl, rfl⟩ | ⟨rfl, rfl⟩ | ⟨rfl, rfl⟩ |
      ⟨rfl, rfl⟩ | ⟨rfl, rfl⟩ | ⟨rfl, rfl⟩ | ⟨rfl, rfl⟩
    all_goals
      simp_all [TrapOp.effect, trapEntry, handleIrq, handleIrqMSoft, restore,
        List.suffix_cons_iff, Mie.Within.clearSoft, Mie.Within.setSoft]
  case irqMTimer =>
    simp only [trapEntry, handleIrq, handleIrqMTimer, restore, List.cons_append, List.nil_append,
      List.suffix_cons_iff, List.suffix_nil, reduceCtorEq, or_false, List.cons.injEq] at shape
    rcases shape with ⟨rfl, rfl⟩ | ⟨rfl, rfl⟩ | ⟨rfl, rfl⟩ | ⟨rfl, rfl⟩ | ⟨rfl, rfl⟩ | ⟨rfl, rfl⟩ |
      ⟨rfl, rfl⟩ | ⟨rfl, rfl⟩ | ⟨rfl, rfl⟩ | ⟨rfl, rfl⟩ | ⟨rfl, rfl⟩
    all_goals
      simp_all [TrapOp.effect, trapEntry, handleIrq, handleIrqMTimer, restore,
        List.suffix_cons_iff, Mie.Within.clearTimerSoft, Mie.Within.clearTimer]
  case irqMExt =>
    simp only [trapEntry, handleIrq, handleIrqMExt, restore, List.cons_append, List.nil_append,
      List.suffix_cons_iff, List.suffix_nil, reduceCtorEq, or_false, List.cons.injEq] at shape
    rcases shape with ⟨rfl, rfl⟩ | ⟨rfl, rfl⟩ | ⟨rfl, rfl⟩ | ⟨rfl, rfl⟩ | ⟨rfl, rfl⟩ | ⟨rfl, rfl⟩ |
      ⟨rfl, rfl⟩ | ⟨rfl, rfl⟩ | ⟨rfl, rfl⟩ | ⟨rfl, rfl⟩ | ⟨rfl, rfl⟩ | ⟨rfl, rfl⟩ | ⟨rfl, rfl⟩ |
      ⟨rfl, rfl⟩ | ⟨rfl, rfl⟩ | ⟨rfl, rfl⟩
    -- `mip` is tested: the rest of the handler, or none of it
    case inr.inl =>
      cases still : inputs.meip
      all_goals
        simp_all [TrapOp.effect, trapEntry, handleIrq, handleIrqMExt, restore, List.suffix_cons_iff]
    all_goals
      simp_all [TrapOp.effect, trapEntry, handleIrq, handleIrqMExt, restore,
        List.suffix_cons_iff, Mie.Within.clearTimerSoft]

/-- The statements between the two assignments of `mstatus`: `mie` is cleared, `mstatus` and `mepc`
are still to be set. -/
theorem opened {cause : Cause} {todo : List TrapOp} (shape : todo <:+ trapEntry cause)
    (on : .setMstatusMie ∉ todo ∧ .clearMstatusMie ∈ todo) :
    .readMepc ∉ todo ∧ .writeMepc ∈ todo ∧ .setMstatusMpp ∈ todo ∧
      .clearMieTimerSoft ∉ todo ∧ .clearMieSoft ∉ todo ∧
        (.restoreMie ∈ todo ∨ .setMieSoft ∈ todo) := by
  have all : ∀ todo ∈ (trapEntry cause).tails, .setMstatusMie ∉ todo ∧ .clearMstatusMie ∈ todo →
      .readMepc ∉ todo ∧ .writeMepc ∈ todo ∧ .setMstatusMpp ∈ todo ∧
      .clearMieTimerSoft ∉ todo ∧ .clearMieSoft ∉ todo ∧
        (.restoreMie ∈ todo ∨ .setMieSoft ∈ todo) := by
    cases cause <;> decide
  exact all todo ((List.mem_tails _ _).mpr shape) on

/-- Where interrupts are on, a trap does not notice that it has been interrupted. -/
theorem Suspends.resumed {frame : TrapFrame} {regs after : Registers} {level : Level}
    (suspends : Suspends frame regs level) (on : regs.mstatusMie = true)
    (stillOn : after.mstatusMie = true) (machine : after.privilege = .machine)
    (mie : after.mie.Within regs.mie)
    (threshold : after.priorityThreshold = regs.priorityThreshold) :
    Suspends frame after level := by
  have between := suspends.mstatusMie.mp on
  obtain ⟨read, write, mpp, timerSoft, soft, mieLater⟩ := opened suspends.shape between
  exact
    { suspends with
      machine := machine
      mstatusMie := ⟨fun _ => between, fun _ => stillOn⟩
      back := fun early => absurd early (by simp [between.1, mpp])
      mepc := fun early => absurd early (by simp [read, write])
      outside := fun late => absurd late (by
        simpa [timerSoft, soft] using fun h => mieLater.resolve_left h)
      cleared := fun h₁ h₂ => mie.trans (suspends.cleared h₁ h₂)
      clearedSoft := fun h₁ h₂ => mie.trans (suspends.clearedSoft h₁ h₂)
      threshold := fun h => threshold.trans (suspends.threshold h) }

/-- What a handler does once is still to be done when it is entered. -/
theorem mem_trapEntry (cause : Cause) :
    .readMepc ∈ trapEntry cause ∧ .setMstatusMie ∈ trapEntry cause ∧
      (.restoreMie ∈ trapEntry cause →
        .readMie ∈ trapEntry cause ∧ .clearMieTimerSoft ∈ trapEntry cause) ∧
      (.setMieSoft ∈ trapEntry cause → .clearMieSoft ∈ trapEntry cause) ∧
      (.restoreThreshold ∈ trapEntry cause → .readThreshold ∈ trapEntry cause) := by
  cases cause <;> decide

/-- A trap that has been taken, at its first statement. -/
theorem Suspends.taken {cause : Cause} {regs : Registers} (vector : Nat)
    (on : regs.mstatusMie = true) (machine : regs.privilege = .machine)
    (enabled : regs.mie.bit cause = true) :
    Suspends (.entered cause) (regs.trap vector) regs.level := by
  obtain ⟨readMepc, setMstatusMie, restoreMie, setMieSoft, restoreThreshold⟩ := mem_trapEntry cause
  exact
    { shape := List.suffix_rfl
      unfinished := List.cons_ne_nil _ _
      caused := enabled
      machine := rfl
      mstatusMie := ⟨nofun, fun later => absurd setMstatusMie later.1⟩
      back := fun _ => ⟨on, machine⟩
      epc := fun done => absurd readMepc done
      mepc := fun _ => rfl
      ieFlag := fun done later => absurd (restoreMie later).1 done
      outside := fun _ => Mie.Within.refl _
      cleared := fun done later => absurd (restoreMie later).2 done
      clearedSoft := fun done later => absurd (setMieSoft later) done
      threshold := fun _ => rfl
      intThreshold := fun done later => absurd (restoreThreshold later) done }

/-- The return of a trap: the interrupted code goes on at its level. -/
theorem Suspends.returns {frame : TrapFrame} {todo : List TrapOp} {regs : Registers} {level : Level}
    (suspends : Suspends frame regs level) (next : frame.todo = .mret :: todo) :
    Resumes level regs.mret := by
  have last : ∀ cause, ∀ todo ∈ (trapEntry cause).tails, todo.head? = some .mret →
      todo = [.mret] := by
    intro cause
    cases cause <;> decide
  have only : frame.todo = [.mret] :=
    last _ _ ((List.mem_tails _ _).mpr suspends.shape) (by rw [next]; rfl)
  obtain ⟨mstatusMpie, mstatusMpp⟩ := suspends.back (by simp [only])
  exact
    { mstatusMie := mstatusMpie
      machine := mstatusMpp
      mie := suspends.outside (by simp [only])
      threshold := suspends.threshold (by simp [only])
      pc := suspends.mepc (by simp [only]) }

/-! ### Whole runs -/

/-- A trap on its way back, with a further fact about it, the current threshold and its level. -/
def Suspends.With (E : TrapFrame → Nat → Level → Prop) (frame : TrapFrame) (regs : Registers)
    (level : Level) : Prop :=
  Suspends frame regs level ∧ E frame regs.priorityThreshold level

/-- The traps of a core above `bottom` are on their way back, down to registers in `P`. -/
abbrev Nested (E : TrapFrame → Nat → Level → Prop) (bottom : List TrapFrame)
    (P : Registers → Prop) (regs : Registers) (frames : List TrapFrame) : Prop :=
  Stacked (Suspends.With E) Resumes bottom P regs frames

variable {E : TrapFrame → Nat → Level → Prop} {bottom frames : List TrapFrame}
variable {P : Registers → Prop} {regs : Registers}

theorem Suspends.With.resumed {after : Registers} {frame : TrapFrame} {level : Level}
    (suspends : Suspends.With E frame regs level) (on : regs.mstatusMie = true)
    (resumes : Resumes regs.level after) : Suspends.With E frame after level :=
  ⟨suspends.1.resumed on resumes.mstatusMie resumes.machine resumes.mie resumes.threshold,
    resumes.threshold.symm ▸ suspends.2⟩

/-- A core whose traps are on their way back is in machine mode. -/
theorem Nested.machine (nested : Nested E bottom P regs frames)
    (base : ∀ r, P r → r.privilege = .machine) :
    regs.privilege = .machine := by
  cases nested with
  | bottom p => exact base regs p
  | frame level suspends _ => exact suspends.1.machine

/-- A registered function is called between the two assignments of `mstatus`. -/
theorem between_callback {cause : Cause} {todo : List TrapOp} (shape : todo <:+ trapEntry cause)
    (calls : todo.head? = some .callback) : .setMstatusMie ∉ todo ∧ .clearMstatusMie ∈ todo := by
  have all : ∀ cause, ∀ todo ∈ (trapEntry cause).tails, todo.head? = some .callback →
      .setMstatusMie ∉ todo ∧ .clearMstatusMie ∈ todo := by
    intro cause
    cases cause <;> decide
  exact all cause todo ((List.mem_tails _ _).mpr shape) calls

theorem callback_of_user {hart : Hart} {frame : TrapFrame} (user : hart.inUserCode = true)
    (top : frame ∈ hart.frames.head?) : frame.todo.head? = some .callback := by
  unfold Hart.inUserCode at user
  split at user
  case h_1 none => simp [none] at top
  case h_2 first rest frames =>
    obtain rfl : first = frame := by simpa [frames] using top
    exact beq_iff_eq.mp user

/-- In machine mode an interrupt is taken when it is enabled and interrupts are on. -/
theorem takes_of_machine {s : System} {core : CoreId} {cause : Cause}
    (machine : (s.harts core).regs.privilege = .machine) (takes : s.takes core cause = true) :
    (s.harts core).regs.mstatusMie = true ∧ (s.harts core).regs.mie.bit cause = true := by
  simp only [System.takes, machine, Bool.and_eq_true, Bool.or_eq_true, beq_iff_eq, reduceCtorEq,
    or_false] at takes
  exact takes.1

/-- Every level can be resumed. -/
theorem resumable (level : Level) : ∃ regs, Resumes level regs :=
  ⟨⟨level.mie, true, true, .user, .machine, 0, level.pc, level.priorityThreshold⟩,
    rfl, rfl, .refl _, rfl, rfl⟩

/-- **Every move keeps the traps on their way back**, and the further fact with it when a new trap
starts with it and a statement keeps it. -/
theorem nested_step {s : System} {core : CoreId} (moves : HartStep s core regs frames)
    (nested : Nested E bottom P (s.harts core).regs (s.harts core).frames)
    (machine : ∀ r, P r → r.privilege = .machine)
    (higher : bottom.length < (s.harts core).frames.length ∨
      bottom = [] ∧ ∀ r r', P r → r'.privilege = .machine → P r')
    (enters : ∀ cause, s.takes core cause = true →
      E (.entered cause) (s.harts core).regs.priorityThreshold (s.harts core).regs.level)
    (executes : ∀ frame rest op todo level, (s.harts core).frames = frame :: rest →
      frame.todo = op :: todo → Suspends.With E frame (s.harts core).regs level →
      E (op.effect (s.inputs core) { frame with todo := todo } (s.harts core).regs).1
        (op.effect (s.inputs core) { frame with todo := todo }
          (s.harts core).regs).2.priorityThreshold level) :
    Nested E bottom P regs frames := by
  have inMachine := nested.machine machine
  have stays {r : Registers} (same : r.privilege = .machine) :
      bottom.length < (s.harts core).frames.length ∨ (P (s.harts core).regs → P r) :=
    higher.imp id fun closed p => closed.2 _ _ p same
  have above {frame rest} (frames : (s.harts core).frames = frame :: rest) :
      bottom.length < (frame :: rest).length := by
    rcases higher with higher | ⟨rfl, -⟩
    · exact frames ▸ higher
    · exact Nat.zero_lt_succ _
  cases moves with
  | stay => exact nested
  | trap cause vector takes =>
      obtain ⟨on, enabled⟩ := takes_of_machine inMachine takes
      exact nested.interrupt (fun r resumes => stays resumes.machine)
        (fun r resumes frame _ level suspends => suspends.resumed on resumes)
        ⟨.taken vector on inMachine enabled, enters cause takes⟩
  | execute pc here next running =>
      rw [here] at nested
      exact nested.top (above here) fun level suspends =>
        ⟨suspends.1.effect next running (s.inputs core) pc,
          executes _ _ _ _ level here next suspends⟩
  | mret here next =>
      rw [here] at nested
      exact nested.pop (above here) fun level suspends => suspends.1.returns next
  | advance pc user =>
      exact nested.regs (stays inMachine) fun frame _ level suspends =>
        ⟨{ suspends.1 with }, suspends.2⟩
  | exception pc user =>
      refine nested.regs (stays inMachine) fun frame top level suspends => ?_
      have on : (s.harts core).regs.mstatusMie = true :=
        suspends.1.mstatusMie.mpr (between_callback suspends.1.shape (callback_of_user user top))
      exact ⟨suspends.1.resumed on on inMachine (Mie.Within.refl _) rfl, suspends.2⟩
  | base regs none same =>
      rw [none] at nested
      exact nested.regs (none ▸ stays (same.trans inMachine)) nofun

/-! ### Transparency -/

/-- A reset: no trap is under way, and the cores are in machine mode. -/
def System.Reset (s : System) : Prop :=
  ∀ core, (s.harts core).frames = [] ∧ (s.harts core).regs.privilege = .machine

/-- What can happen after a reset. -/
def System.Reachable (s : System) : Prop :=
  ∃ start schedule, start.Reset ∧ Schedule.follow Move.step schedule start = some s

theorem System.Reachable.step {s t : System} {move : Move} (reachable : s.Reachable)
    (moves : move.step s = some t) : t.Reachable := by
  obtain ⟨start, schedule, reset, runs⟩ := reachable
  exact ⟨start, schedule ++ [move], reset, Schedule.follow_concat Move.step runs moves⟩

/-- In a reachable state the traps of every core are on their way back. -/
theorem System.Reachable.nested {s : System} (reachable : s.Reachable) (core : CoreId) :
    Nested (fun _ _ _ => True) [] (fun regs => regs.privilege = .machine) (s.harts core).regs
      (s.harts core).frames := by
  obtain ⟨start, schedule, reset, runs⟩ := reachable
  refine Schedule.follow_invariant (fun s : System =>
    Nested (fun _ _ _ => True) [] (fun regs => regs.privilege = .machine) (s.harts core).regs
      (s.harts core).frames) (fun move s t moves nested => ?_) runs ?_
  · exact nested_step (hartStep moves core) nested (fun _ => id) (.inr ⟨rfl, fun _ _ _ => id⟩)
      (fun _ _ => trivial) fun _ _ _ _ _ _ _ _ => trivial
  · rw [(reset core).1]
    exact .bottom (reset core).2

/-- What the interrupted code finds again. -/
structure Hart.Resumed (before after : Hart) : Prop where
  frames : after.frames = before.frames
  pc : after.regs.pc = before.regs.pc
  privilege : after.regs.privilege = before.regs.privilege
  mstatusMie : after.regs.mstatusMie = before.regs.mstatusMie
  threshold : after.regs.priorityThreshold = before.regs.priorityThreshold
  mie : after.regs.mie.Within before.regs.mie

/-- A trap is under way on top of what a core did before. -/
def System.Deeper (s : System) (core : CoreId) (_ : Move) (t : System) : Prop :=
  (s.harts core).frames.length < (t.harts core).frames.length

instance (s : System) (core : CoreId) (move : Move) (t : System) :
    Decidable (s.Deeper core move t) :=
  inferInstanceAs (Decidable (_ < _))

/-- **Traps are transparent**, as long as registered functions write neither `mie` nor `mstatus` and
claim and complete nothing (`UserOp`). -/
theorem traps_transparent {s entered after : System} {core : CoreId} {cause : Cause}
    {vector : Nat} {schedule : List Move} (reachable : s.Reachable)
    (taken : (Move.trap core cause vector).step s = some entered)
    (deeper : Schedule.Along Move.step (s.Deeper core) schedule entered)
    (runs : Schedule.follow Move.step schedule entered = some after)
    (back : (after.harts core).frames.length ≤ (s.harts core).frames.length) :
    (s.harts core).Resumed (after.harts core) := by
  have machine := (reachable.nested core).machine fun _ => id
  obtain ⟨takes, ⟨⟩⟩ := Option.ite_none_right_eq_some.mp taken
  obtain ⟨on, enabled⟩ := takes_of_machine machine takes
  have returned : (after.harts core).frames = (s.harts core).frames ∧
      Resumes (s.harts core).regs.level (after.harts core).regs := by
    refine Stacked.returned resumable (Schedule.along_invariant (fun t : System =>
      Nested (fun _ _ _ => True) (s.harts core).frames (Resumes (s.harts core).regs.level)
        (t.harts core).regs (t.harts core).frames)
      (fun move t u above moves nested => ?_) deeper runs ?_) back
    · exact nested_step (hartStep moves core) nested (fun _ resumes => resumes.machine)
        (.inl above) (fun _ _ => trivial) fun _ _ _ _ _ _ _ _ => trivial
    · rw [harts_setHart, if_pos rfl]
      exact .frame _ ⟨.taken vector on machine enabled, trivial⟩ fun _ resumes => .bottom resumes
  obtain ⟨frames, resumes⟩ := returned
  exact
    { frames := frames
      pc := resumes.pc
      privilege := resumes.machine.trans machine.symm
      mstatusMie := resumes.mstatusMie.trans on.symm
      threshold := resumes.threshold
      mie := resumes.mie }

/-- Core 0 has two sources enabled, of priorities 1 and 2, and core 1 none. -/
def twoSources : System where
  plic := ⟨fun irq => min irq plicNumPriorities, fun _ => false, fun _ => false⟩
  harts core :=
    { regs := ⟨⟨true, true, true⟩, true, true, .user, .machine, 0, 0, 0⟩
      enable := fun _ => if core = core0 then 6 else 0
      mtip := false
      msip := false
      singleShot := false
      cycles := 0
      frames := [] }

theorem twoSources_reset : twoSources.Reset := fun _ => ⟨rfl, rfl⟩

/-- The first source interrupts core 0; while its registered function runs the second one comes. -/
def firstServed : List Move :=
  [.device 1, .trap core0 .irqMExt 4] ++ List.replicate 8 (.execute core0 8) ++ [.device 2]

/-- The state that a schedule leads to. -/
def System.after (s : System) (schedule : List Move) : System :=
  (Schedule.follow Move.step schedule s).getD s

theorem follow_after (s : System) (schedule : List Move)
    (runs : (Schedule.follow Move.step schedule s).isSome = true) :
    Schedule.follow Move.step schedule s = some (s.after schedule) :=
  (Option.getD_of_ne_none (Option.isSome_iff_ne_none.mp runs) s).symm

/-- The second interrupt executes its sixteen statements on top of the first one, and core 0 goes on
with the function of the first. -/
theorem traps_transparent_twoSources :
    ((twoSources.after firstServed).harts core0).frames.length = 1 ∧
      ((twoSources.after firstServed).harts core0).Resumed
        ((((twoSources.after firstServed).after [.trap core0 .irqMExt 4]).after
          (List.replicate 16 (.execute core0 8))).harts core0) := by
  have taken : (Move.trap core0 .irqMExt 4).step (twoSources.after firstServed) =
      some ((twoSources.after firstServed).after [.trap core0 .irqMExt 4]) := by
    have runs := follow_after (twoSources.after firstServed) [.trap core0 .irqMExt 4]
      (by decide +kernel)
    obtain ⟨entered, taken, rest⟩ := Schedule.follow_cons_inv Move.step runs
    rw [taken, ← rest]
    rfl
  exact ⟨by decide +kernel, traps_transparent
    ⟨twoSources, firstServed, twoSources_reset, follow_after _ _ (by decide +kernel)⟩ taken
    (by decide +kernel) (follow_after _ _ (by decide +kernel)) (by decide +kernel)⟩

end K210Guard.Irq
