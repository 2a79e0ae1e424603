/-
**External interrupts preempt by priority.**

`handle_irq_m_ext` raises the threshold to the priority of the source that it serves, so only a
source of a higher priority comes on top. This needs that nobody else takes the request between the
trap and the claim (`System.Private`: no source is enabled on both cores), and that the priorities
stay as they are.

* `preempts_by_priority`: the traps under way on a core are, from the outermost, at most one
  software interrupt, at most one timer interrupt, and external interrupts of strictly increasing
  priority.
* `nesting_bounded`: so no more than 2 + `PLIC_NUM_PRIORITIES` traps are on the stack.
-/

import K210Guard.Irq.Service

namespace K210Guard.Irq

/-! ### Thresholds -/

/-- A source of a core is pending, and its priority is above a threshold. -/
def System.PendingAbove (s : System) (core : CoreId) (priority : Nat → Nat) (threshold : Nat) :
    Prop :=
  ∃ irq ∈ sources, s.plic.pending irq = true ∧ (s.harts core).enabled irq = true ∧
    threshold < priority irq

/-- What a trap of an external interrupt has claimed is above the threshold that it found, and while
it runs the registered function the threshold is the priority of what it has claimed. -/
structure Ranks (priority : Nat → Nat) (frame : TrapFrame) (threshold : Nat) (level : Level) :
    Prop where
  claimed : frame.cause = .irqMExt → .claim ∉ frame.todo →
    level.priorityThreshold < priority frame.intNum
  raised : frame.cause = .irqMExt → .raiseThreshold ∉ frame.todo →
    .restoreThreshold ∈ frame.todo → threshold = priority frame.intNum

/-- The source that a claim returns is above the threshold when some source is. -/
theorem claimId_above {s : System} {core : CoreId} {threshold : Nat}
    (above : s.PendingAbove core s.plic.priority threshold) :
    threshold < s.plic.priority (s.plic.claimId (s.harts core)) := by
  obtain ⟨irq, source, pending, enabled, higher⟩ := above
  have positive : irq ≠ 0 := by
    rintro rfl
    exact absurd source (by decide)
  have rank : s.plic.rank (s.harts core) irq = s.plic.priority irq :=
    if_pos ⟨positive, pending, enabled⟩
  have best := rank_le_claimId s.plic (s.harts core) source
  have atMost : s.plic.rank (s.harts core) (s.plic.claimId (s.harts core)) ≤
      s.plic.priority (s.plic.claimId (s.harts core)) := by
    unfold Plic.rank
    split
    · exact Nat.le_refl _
    · exact Nat.zero_le _
  omega

/-- `MIP_MEIP` says that some source is above the threshold. -/
theorem pendingAbove_of_meip {s : System} {core : CoreId}
    (meip : s.plic.meip (s.harts core) = true) :
    s.PendingAbove core s.plic.priority (s.harts core).regs.priorityThreshold := by
  obtain ⟨irq, source, higher⟩ := List.any_eq_true.mp meip
  have higher := of_decide_eq_true higher
  obtain ⟨positive, pending, enabled⟩ := rank_pos (Nat.lt_of_le_of_lt (Nat.zero_le _) higher)
  rw [Plic.rank, if_pos ⟨positive, pending, enabled⟩] at higher
  exact ⟨irq, source, pending, enabled, higher⟩

theorem meip_of_pendingAbove {s : System} {core : CoreId}
    (above : s.PendingAbove core s.plic.priority (s.harts core).regs.priorityThreshold) :
    s.plic.meip (s.harts core) = true := by
  obtain ⟨irq, source, pending, enabled, higher⟩ := above
  have positive : irq ≠ 0 := by
    rintro rfl
    exact absurd source (by decide)
  refine List.any_eq_true.mpr ⟨irq, source, decide_eq_true ?_⟩
  rw [Plic.rank, if_pos ⟨positive, pending, enabled⟩]
  exact higher

/-- A trap that has not claimed yet finds its request pending. -/
def System.StillPending (s : System) (core : CoreId) (priority : Nat → Nat) : Prop :=
  ∀ frame ∈ (s.harts core).frames.head?, frame.cause = .irqMExt → .claim ∈ frame.todo →
    s.PendingAbove core priority (s.harts core).regs.priorityThreshold

/-- Where the statements of `handle_irq_m_ext` stand. -/
theorem mem_ext {op : TrapOp} {todo : List TrapOp} (shape : op :: todo <:+ trapEntry .irqMExt) :
    (.claim ∈ todo → .raiseThreshold ∈ todo) ∧
      (op = .raiseThreshold → .claim ∉ todo) ∧
      (op = .restoreThreshold → .restoreThreshold ∉ todo) ∧
      (op = .claim → .raiseThreshold ∈ todo) ∧ (op = .testMeip → .claim ∈ todo) := by
  have all : ∀ list ∈ (trapEntry .irqMExt).tails,
      (.claim ∈ list.tail → .raiseThreshold ∈ list.tail) ∧
        (list.head? = some .raiseThreshold → .claim ∉ list.tail) ∧
        (list.head? = some .restoreThreshold → .restoreThreshold ∉ list.tail) ∧
        (list.head? = some .claim → .raiseThreshold ∈ list.tail) ∧
        (list.head? = some .testMeip → .claim ∈ list.tail) := by
    decide
  simpa using all _ ((List.mem_tails _ _).mpr shape)

theorem cause_effect (op : TrapOp) (inputs : Inputs) (frame : TrapFrame) (regs : Registers) :
    (op.effect inputs frame regs).1.cause = frame.cause := by
  cases op <;> rfl

/-- A statement keeps the ranks. -/
theorem Ranks.effect {s : System} {core : CoreId} {frame : TrapFrame} {rest : List TrapFrame}
    {op : TrapOp} {todo : List TrapOp} {level : Level}
    (ranks : Ranks s.plic.priority frame (s.harts core).regs.priorityThreshold level)
    (suspends : Suspends frame (s.harts core).regs level)
    (still : s.StillPending core s.plic.priority)
    (here : (s.harts core).frames = frame :: rest) (next : frame.todo = op :: todo) :
    Ranks s.plic.priority
      (op.effect (s.inputs core) { frame with todo := todo } (s.harts core).regs).1
      (op.effect (s.inputs core) { frame with todo := todo }
        (s.harts core).regs).2.priorityThreshold level := by
  obtain ⟨cause, _, epc, ieFlag, intNum, intThreshold⟩ := frame
  cases next
  have still := still _ (by rw [here]; rfl)
  have shape := suspends.shape
  by_cases isExt : cause = .irqMExt
  case neg =>
    have same := cause_effect op (s.inputs core) ⟨cause, todo, epc, ieFlag, intNum, intThreshold⟩
      (s.harts core).regs
    exact ⟨fun ext => absurd (same.symm.trans ext) isExt,
      fun ext => absurd (same.symm.trans ext) isExt⟩
  case pos =>
    subst isExt
    obtain ⟨claimLater, raise, restore, claim, test⟩ := mem_ext shape
    cases op
    case claim =>
      refine ⟨fun _ _ => ?_, fun _ raised => absurd (claim rfl) raised⟩
      have same := suspends.threshold (.inl (List.mem_cons_of_mem _ (claim rfl)))
      rw [← same]
      exact claimId_above (still rfl List.mem_cons_self)
    case testMeip =>
      have reach := test rfl
      have pending : (s.inputs core).meip = true :=
        meip_of_pendingAbove (still rfl (List.mem_cons_of_mem _ reach))
      refine ⟨fun _ claimed => ?_, fun _ raised => ?_⟩
      · simp only [TrapOp.effect, pending, ↓reduceIte] at claimed
        exact absurd reach claimed
      · simp only [TrapOp.effect, pending, ↓reduceIte] at raised
        exact absurd (claimLater reach) raised
    case raiseThreshold =>
      exact ⟨fun ext claimed =>
          ranks.claimed ext (List.not_mem_cons_of_ne_of_not_mem (by decide) claimed),
        fun _ _ _ => rfl⟩
    case restoreThreshold =>
      exact ⟨fun ext claimed =>
          ranks.claimed ext (List.not_mem_cons_of_ne_of_not_mem (by decide) claimed),
        fun _ _ later => absurd later (restore rfl)⟩
    all_goals
      exact ⟨fun ext claimed =>
          ranks.claimed ext (List.not_mem_cons_of_ne_of_not_mem (by decide) claimed),
        fun ext raised later => ranks.raised ext
          (List.not_mem_cons_of_ne_of_not_mem (by decide) raised) (List.mem_cons_of_mem _ later)⟩

/-! ### Moves -/

/-- No source of a core is enabled on the other one. -/
def System.Private (s : System) (core : CoreId) : Prop :=
  ∀ other, other ≠ core → ∀ irq ∈ sources, (s.harts core).enabled irq = true →
    (s.harts other).enabled irq ≠ true

/-- No priority is changed, and the sources of a core are its own. -/
def System.Settled (core : CoreId) (move : Move) (s : System) : Prop :=
  move.keepsPriorities = true ∧ s.Private core

instance (s : System) (core : CoreId) : Decidable (s.Private core) :=
  inferInstanceAs (Decidable (∀ _, _ → ∀ _ ∈ _, _))

instance (core : CoreId) (move : Move) (s : System) : Decidable (System.Settled core move s) :=
  inferInstanceAs (Decidable (_ ∧ _))

/-- Only two calls change the priorities. -/
theorem priority_step {s t : System} {move : Move} (moves : move.step s = some t)
    (keeps : move.keepsPriorities = true) : t.plic.priority = s.plic.priority := by
  cases move with
  | device irq =>
      obtain ⟨plic, request, rfl⟩ := Option.map_eq_some_iff.mp moves
      obtain ⟨-, ⟨⟩⟩ := Option.ite_none_right_eq_some.mp request
      rfl
  | timer core mtip =>
      cases moves
      rfl
  | trap core cause vector =>
      obtain ⟨-, ⟨⟩⟩ := Option.ite_none_right_eq_some.mp moves
      rfl
  | execute core pc =>
      obtain ⟨frame, rest, op, todo, -, -, ⟨-, rfl⟩ | ⟨-, rfl⟩⟩ := execute_cases moves
      · rfl
      · cases op
        case claim =>
          simp only [System.executed, TrapOp.plicEffect, Plic.claim]
          split <;> rfl
        case complete =>
          simp only [System.executed, TrapOp.plicEffect, Plic.complete]
          split <;> rfl
        all_goals rfl
  | user core pc op =>
      obtain ⟨-, ⟨⟩⟩ := Option.ite_none_right_eq_some.mp moves
      cases op
      case plicSetPriority => exact absurd keeps Bool.false_ne_true
      all_goals rfl
  | base core pc op =>
      obtain ⟨-, ⟨⟩⟩ := Option.ite_none_right_eq_some.mp moves
      cases op
      case plicInit => exact absurd keeps Bool.false_ne_true
      all_goals rfl

/-- Only its own user code changes what a core has enabled. -/
theorem enable_step {s t : System} {move : Move} (moves : move.step s = some t) (core : CoreId) :
    (t.harts core).enable = (s.harts core).enable ∨
      (s.harts core).inUserCode = true ∧ (t.harts core).frames = (s.harts core).frames := by
  have setHart (other : CoreId) (hart : Hart) (same : hart.enable = (s.harts other).enable) :
      ((s.setHart other hart).harts core).enable = (s.harts core).enable := by
    rw [harts_setHart]
    split
    case isTrue equal => rw [same, equal]
    case isFalse => rfl
  cases move with
  | device irq =>
      obtain ⟨plic, -, rfl⟩ := Option.map_eq_some_iff.mp moves
      exact .inl rfl
  | timer other mtip =>
      cases moves
      exact .inl (setHart other _ rfl)
  | trap other cause vector =>
      obtain ⟨-, ⟨⟩⟩ := Option.ite_none_right_eq_some.mp moves
      exact .inl (setHart other _ rfl)
  | execute other pc =>
      obtain ⟨frame, rest, op, todo, -, -, ⟨-, rfl⟩ | ⟨-, rfl⟩⟩ := execute_cases moves
      · exact .inl (setHart other _ rfl)
      · exact .inl (setHart other _ rfl)
  | user other pc op =>
      obtain ⟨user, ⟨⟩⟩ := Option.ite_none_right_eq_some.mp moves
      by_cases own : core = other
      · exact .inr ⟨own ▸ user, frames_user s other pc op core⟩
      · refine .inl ?_
        cases op
        case clintIpiSend target | clintIpiClear target =>
          simp only [System.user, System.advance, harts_setHart, if_neg own]
          split <;> simp_all
        all_goals simp only [System.user, System.advance, harts_setHart, if_neg own]
  | base other pc op =>
      obtain ⟨empty, ⟨⟩⟩ := Option.ite_none_right_eq_some.mp moves
      by_cases own : core = other
      · subst own
        have none := List.isEmpty_iff.mp empty
        exact .inr ⟨by rw [Hart.inUserCode, none], frames_base s core pc op core⟩
      · refine .inl ?_
        cases op
        all_goals simp only [System.base, System.plicInit, harts_setHart, if_neg own]

/-- A request of a core's own source stays pending until the core claims it. -/
theorem pending_step {s t : System} (step : ServiceStep s t) {core : CoreId}
    (own : s.Private core) (same : (t.harts core).held = (s.harts core).held) {irq : Nat}
    (source : irq ∈ sources) (enabled : (s.harts core).enabled irq = true)
    (pending : s.plic.pending irq = true) :
    t.plic.pending irq = true := by
  cases step with
  | quiet _ kept _ | complete _ _ _ _ _ kept _ | ignored _ _ _ _ _ _ kept _ => rw [kept, pending]
  | request other _ _ _ set _ =>
      rw [set, Function.update_apply]
      split
      · rfl
      · exact pending
  | claim other claimed held _ _ enabledThere set _ =>
      by_cases taken : irq = claimed
      · -- a core that claims it is this one, and then holds it
        subst taken
        have here : other = core := by
          by_contra elsewhere
          exact own other elsewhere irq source enabled enabledThere
        rw [held, if_pos here.symm] at same
        exact absurd same (List.cons_ne_self _ _)
      · rw [set, Function.update_of_ne taken]
        exact pending

/-- Where the claim of `handle_irq_m_ext` is still to come. -/
theorem mem_claim {todo : List TrapOp} (shape : todo <:+ trapEntry .irqMExt)
    (later : .claim ∈ todo) :
    .setMstatusMie ∈ todo ∧ todo.head? ≠ some .callback ∧
      todo.head? ≠ some .raiseThreshold ∧ todo.head? ≠ some .restoreThreshold ∧
        todo.head? ≠ some .complete := by
  have all : ∀ list ∈ (trapEntry .irqMExt).tails, .claim ∈ list →
      .setMstatusMie ∈ list ∧ list.head? ≠ some .callback ∧
        list.head? ≠ some .raiseThreshold ∧ list.head? ≠ some .restoreThreshold ∧
          list.head? ≠ some .complete := by
    decide
  exact all todo ((List.mem_tails _ _).mpr shape) later

/-- Only two statements change the threshold. -/
theorem threshold_effect {op : TrapOp} (raise : op ≠ .raiseThreshold)
    (restore : op ≠ .restoreThreshold) (inputs : Inputs) (frame : TrapFrame) (regs : Registers) :
    (op.effect inputs frame regs).2.priorityThreshold = regs.priorityThreshold := by
  cases op
  case raiseThreshold => exact absurd rfl raise
  case restoreThreshold => exact absurd rfl restore
  all_goals rfl

/-- A statement does not bring back a claim. -/
theorem claim_effect {op : TrapOp} {inputs : Inputs} {frame : TrapFrame} {regs : Registers}
    (later : .claim ∈ (op.effect inputs frame regs).1.todo) : .claim ∈ frame.todo := by
  cases op
  case testMeip =>
    simp only [TrapOp.effect] at later
    split at later
    · exact later
    · simp [restore] at later
  all_goals exact later

variable {E : TrapFrame → Nat → Level → Prop} {P : Registers → Prop}

theorem Nested.suspends_top {regs : Registers} {frames : List TrapFrame}
    (nested : Nested E [] P regs frames) {frame : TrapFrame} (top : frame ∈ frames.head?) :
    ∃ level, Suspends.With E frame regs level := by
  cases frames with
  | nil => exact absurd top (by simp)
  | cons first rest =>
      obtain rfl := Option.some.inj top
      obtain ⟨level, suspends, -⟩ := nested.above (Nat.zero_lt_succ _)
      exact ⟨level, suspends⟩

/-- A trap that has not claimed yet finds a source above the threshold, as before the move. -/
theorem stillPending_hart {s : System} {core : CoreId} {regs : Registers}
    {frames : List TrapFrame} (step : HartStep s core regs frames)
    (nested : Nested E [] P (s.harts core).regs (s.harts core).frames)
    (after : Nested E [] P regs frames) (still : s.StillPending core s.plic.priority)
    {frame : TrapFrame} (top : frame ∈ frames.head?) (ext : frame.cause = .irqMExt)
    (later : .claim ∈ frame.todo) :
    s.PendingAbove core s.plic.priority regs.priorityThreshold ∧
      frames.filterMap TrapFrame.holds = (s.harts core).held := by
  cases step with
  | stay | advance _ _ | exception _ _ => exact ⟨still frame top ext later, rfl⟩
  | trap cause vector takes =>
      obtain rfl : TrapFrame.entered cause = frame := Option.some.inj top
      obtain rfl : cause = .irqMExt := ext
      simp only [System.takes, System.mip, Bool.and_eq_true] at takes
      refine ⟨pendingAbove_of_meip takes.2, ?_⟩
      rw [List.filterMap_cons, holds_entered]
      rfl
  | @execute old rest op todo pc here next running =>
      obtain rfl := Option.some.inj top
      rw [cause_effect] at ext
      have rest' := claim_effect later
      rw [here] at nested
      obtain ⟨level, suspends, -⟩ := nested.above (Nat.zero_lt_succ _)
      have shape := suspends.1.shape
      have inTodo : .claim ∈ old.todo := next ▸ List.mem_cons_of_mem _ rest'
      have first : old.todo.head? = some op := by rw [next]; rfl
      rw [ext] at shape
      obtain ⟨-, -, raise, restore, complete⟩ := mem_claim shape inTodo
      rw [first] at raise restore complete
      have notClaim : op ≠ .claim := by
        rintro rfl
        exact (mem_todo (next ▸ shape)).1 rfl |>.1 rest'
      refine ⟨?_, ?_⟩
      · have same := threshold_effect (fun h => raise (congrArg some h))
          (fun h => restore (congrArg some h)) (s.inputs core) { old with todo := todo }
          (s.harts core).regs
        show s.PendingAbove core _ (TrapOp.effect _ _ _ _).2.priorityThreshold
        rw [same]
        exact still old (by rw [here]; rfl) ext inTodo
      · rw [held_cons here, List.filterMap_cons,
          holds_effect (ext ▸ shape) next notClaim (fun h => complete (congrArg some h))]
        cases old.holds <;> rfl
  | @mret old _ todo here next =>
      -- the trap below goes on with interrupts on, so it has claimed
      rw [here] at nested
      obtain ⟨level, suspends, -⟩ := nested.above (Nat.zero_lt_succ _)
      have on := (suspends.1.returns next).mstatusMie
      obtain ⟨level, suspends⟩ := after.suspends_top top
      exact absurd (mem_claim (ext ▸ suspends.1.shape) later).1 (suspends.1.mstatusMie.mp on).1
  | base _ _ _ => exact absurd top (by simp)

theorem stillPending_step {s t : System} {move : Move} {core : CoreId} (reachable : s.Reachable)
    (moves : move.step s = some t)
    (nested : Nested E [] P (s.harts core).regs (s.harts core).frames)
    (after : Nested E [] P (t.harts core).regs (t.harts core).frames) (own : s.Private core)
    (still : s.StillPending core s.plic.priority) : t.StillPending core s.plic.priority := by
  intro frame top ext later
  obtain ⟨⟨irq, source, pending, enabled, higher⟩, held⟩ :=
    stillPending_hart (hartStep moves core) nested after still top ext later
  have same : (t.harts core).enable = (s.harts core).enable := by
    refine (enable_step moves core).resolve_right fun ⟨user, frames⟩ => ?_
    -- user code runs after the claim
    have calls := callback_of_user user (frames ▸ top)
    obtain ⟨level, suspends⟩ := after.suspends_top top
    exact (mem_claim (ext ▸ suspends.1.shape) later).2.1 calls
  refine ⟨irq, source, pending_step (serviceStep reachable moves) own held source enabled pending,
    ?_,
    higher⟩
  rw [Hart.enabled, same]
  exact enabled

/-! ### The order of the traps on a core -/

/-- Which trap may be on top of which. -/
def Preempts (priority : Nat → Nat) (inner outer : TrapFrame) : Prop :=
  match outer.cause with
  | .irqMSoft => inner.cause ≠ .irqMSoft
  | .irqMTimer => inner.cause = .irqMExt
  | .irqMExt => inner.cause = .irqMExt ∧
      (.claim ∉ inner.todo → priority outer.intNum < priority inner.intNum)

/-- What the traps under way keep out while interrupts are on. -/
structure KeepsOut (priority : Nat → Nat) (regs : Registers) (frames : List TrapFrame) : Prop where
  soft : ∀ frame ∈ frames, regs.mie.msip = false
  timer : ∀ frame ∈ frames, frame.cause ≠ .irqMSoft → regs.mie.mtip = false
  ext : ∀ frame ∈ frames, frame.cause = .irqMExt →
    priority frame.intNum ≤ regs.priorityThreshold
  count : frames.countP (·.cause = .irqMExt) ≤ regs.priorityThreshold

/-- A trap with interrupts on has cleared its bits of `mie`, and the threshold is its level's or its
priority. -/
theorem Suspends.With.keepsOut {priority : Nat → Nat} {frame : TrapFrame} {regs : Registers}
    {level : Level} (suspends : Suspends.With (Ranks priority) frame regs level)
    (on : regs.mstatusMie = true) :
    regs.mie.msip = false ∧ (frame.cause ≠ .irqMSoft → regs.mie.mtip = false) ∧
      (frame.cause = .irqMExt → level.priorityThreshold < priority frame.intNum ∧
        regs.priorityThreshold = priority frame.intNum) ∧
      (frame.cause ≠ .irqMExt → regs.priorityThreshold = level.priorityThreshold) := by
  have between := suspends.1.mstatusMie.mp on
  have all : ∀ cause, ∀ list ∈ (trapEntry cause).tails,
      .setMstatusMie ∉ list ∧ .clearMstatusMie ∈ list →
      .clearMieTimerSoft ∉ list ∧ .clearMieSoft ∉ list ∧ .claim ∉ list ∧ .raiseThreshold ∉ list ∧
        (cause = .irqMSoft ∧ .setMieSoft ∈ list ∨ cause ≠ .irqMSoft ∧ .restoreMie ∈ list) ∧
        (.restoreThreshold ∈ list ↔ cause = .irqMExt) := by
    intro cause
    cases cause <;> decide
  obtain ⟨timerSoft, soft, claim, raise, saved, threshold⟩ :=
    all _ _ ((List.mem_tails _ _).mpr suspends.1.shape) between
  refine ⟨?_, fun notSoft => ?_, fun ext => ⟨suspends.2.claimed ext claim, ?_⟩, fun notExt => ?_⟩
  · rcases saved with ⟨-, later⟩ | ⟨-, later⟩
    · exact (suspends.1.clearedSoft soft later).msip
    · exact (suspends.1.cleared timerSoft later).msip
  · have within := suspends.1.cleared timerSoft (saved.resolve_left fun h => notSoft h.1).2
    exact Bool.eq_false_iff.mpr fun set => Bool.false_ne_true (within.mtip set)
  · exact suspends.2.raised ext raise (threshold.mpr ext)
  · exact suspends.1.threshold (.inr fun later => notExt (threshold.mp later))

/-- The registers that a level stands for, exactly. -/
def Level.regs (level : Level) : Registers :=
  ⟨level.mie, true, true, .user, .machine, 0, level.pc, level.priorityThreshold⟩

theorem Level.resumes (level : Level) : Resumes level level.regs :=
  ⟨rfl, rfl, .refl _, rfl, rfl⟩

/-- What is on top of a trap was not kept out by it. -/
theorem KeepsOut.preempts {priority : Nat → Nat} {level : Level} {rest : List TrapFrame}
    (keeps : KeepsOut priority level.regs rest) {inner outer : TrapFrame} (inRest : outer ∈ rest)
    (caused : level.mie.bit inner.cause = true)
    (higher : inner.cause = .irqMExt → .claim ∉ inner.todo →
      level.priorityThreshold < priority inner.intNum) : Preempts priority inner outer := by
  have notSoft : inner.cause ≠ .irqMSoft := by
    intro soft
    rw [soft] at caused
    exact Bool.false_ne_true ((keeps.soft outer inRest).symm.trans caused)
  have isExt (outerCause : outer.cause ≠ .irqMSoft) : inner.cause = .irqMExt := by
    have off := keeps.timer outer inRest outerCause
    cases innerCause : inner.cause with
    | irqMSoft => exact absurd innerCause notSoft
    | irqMTimer =>
        rw [innerCause] at caused
        exact absurd (off.symm.trans caused) Bool.false_ne_true
    | irqMExt => rfl
  unfold Preempts
  cases outerCause : outer.cause with
  | irqMSoft => exact notSoft
  | irqMTimer => exact isExt (by rw [outerCause]; exact nofun)
  | irqMExt =>
      have ext := isExt (by rw [outerCause]; exact nofun)
      exact ⟨ext, fun claimed =>
        Nat.lt_of_le_of_lt (keeps.ext outer inRest outerCause) (higher ext claimed)⟩

/-- One more trap with interrupts on. -/
theorem KeepsOut.cons {priority : Nat → Nat} {level : Level} {rest : List TrapFrame}
    (keeps : KeepsOut priority level.regs rest) {frame : TrapFrame} {regs : Registers}
    (suspends : Suspends.With (Ranks priority) frame regs level) (on : regs.mstatusMie = true) :
    KeepsOut priority regs (frame :: rest) := by
  obtain ⟨soft, timer, raised, same⟩ := suspends.keepsOut on
  have grows : level.priorityThreshold ≤ regs.priorityThreshold := by
    by_cases ext : frame.cause = .irqMExt
    · rw [(raised ext).2]
      exact Nat.le_of_lt (raised ext).1
    · exact Nat.le_of_eq (same ext).symm
  refine ⟨fun _ _ => soft, List.forall_mem_cons.mpr ⟨timer, fun outer inRest _ => ?_⟩,
    List.forall_mem_cons.mpr ⟨fun ext => Nat.le_of_eq (raised ext).2.symm,
      fun outer inRest ext => Nat.le_trans (keeps.ext outer inRest ext) grows⟩, ?_⟩
  · refine timer fun isSoft => ?_
    have caused := suspends.1.caused
    rw [isSoft] at caused
    exact Bool.false_ne_true ((keeps.soft outer inRest).symm.trans caused)
  · have count := keeps.count
    rw [List.countP_cons]
    by_cases ext : frame.cause = .irqMExt
    · have higher := (raised ext).1
      rw [← (raised ext).2] at higher
      simp only [ext, decide_true, ↓reduceIte]
      exact Nat.succ_le_of_lt (Nat.lt_of_le_of_lt count higher)
    · simp only [ext, decide_false, Bool.false_eq_true, ↓reduceIte]
      exact Nat.le_trans count grows

theorem ordered {priority : Nat → Nat} {regs : Registers} {frames : List TrapFrame}
    (nested : Nested (Ranks priority) [] P regs frames) :
    frames.Pairwise (Preempts priority) ∧
      (regs.mstatusMie = true → KeepsOut priority regs frames) := by
  induction nested with
  | bottom _ => exact ⟨.nil, fun _ => ⟨nofun, nofun, nofun, Nat.zero_le _⟩⟩
  | @frame regs frame rest level suspends _ ih =>
      obtain ⟨sorted, keeps⟩ := ih level.regs level.resumes
      exact ⟨.cons (fun outer inRest =>
          (keeps rfl).preempts inRest suspends.1.caused suspends.2.claimed) sorted,
        (keeps rfl).cons suspends⟩

/-- At most one element of a list is such. -/
theorem countP_le_one {α : Type} {R : α → α → Prop} {p : α → Bool} {list : List α}
    (pairs : list.Pairwise R) (apart : ∀ a b, R a b → p b = true → p a = false) :
    list.countP p ≤ 1 := by
  induction pairs with
  | nil => exact Nat.zero_le 1
  | @cons first rest related _ ih =>
      rw [List.countP_cons]
      by_cases such : p first = true
      · have none : rest.countP p = 0 := by
          rw [List.countP_eq_zero]
          intro other inRest isSuch
          have not := apart first other (related other inRest) isSuch
          exact Bool.false_ne_true (not.symm.trans such)
        rw [none, if_pos such]
      · rw [if_neg such]
        exact ih

/-- What is known of a core whose sources are its own. -/
structure System.Ranked (s : System) (core : CoreId) (priority : Nat → Nat) : Prop where
  reachable : s.Reachable
  fixed : s.plic.priority = priority
  nested : Nested (Ranks priority) [] (fun regs => regs.privilege = .machine) (s.harts core).regs
    (s.harts core).frames
  still : s.StillPending core priority

theorem ranks_entered {priority : Nat → Nat} (cause : Cause) (threshold : Nat) (level : Level) :
    Ranks priority (.entered cause) threshold level := by
  have both : .claim ∈ trapEntry .irqMExt ∧ .raiseThreshold ∈ trapEntry .irqMExt := by decide
  refine ⟨fun ext claimed => ?_, fun ext raised => ?_⟩
  all_goals obtain rfl : cause = .irqMExt := ext
  · exact absurd both.1 claimed
  · exact absurd both.2 raised

theorem ranked_step {s t : System} {move : Move} {core : CoreId} {priority : Nat → Nat}
    (settled : System.Settled core move s) (moves : move.step s = some t)
    (ranked : s.Ranked core priority) : t.Ranked core priority := by
  obtain ⟨keeps, own⟩ := settled
  obtain rfl := ranked.fixed
  have after := nested_step (hartStep moves core) ranked.nested (fun _ => id)
    (.inr ⟨rfl, fun _ _ _ => id⟩)
    (fun cause _ => ranks_entered cause _ _)
    fun frame rest op todo level here next suspends =>
      suspends.2.effect suspends.1 ranked.still here next
  exact ⟨ranked.reachable.step moves, priority_step moves keeps, after,
    stillPending_step ranked.reachable moves ranked.nested after own ranked.still⟩

theorem ranked {start s : System} {schedule : List Move} {core : CoreId}
    (reset : start.Reset)
    (settled : Schedule.Along Move.step (System.Settled core) schedule start)
    (runs : Schedule.follow Move.step schedule start = some s) :
    s.Ranked core start.plic.priority := by
  refine Schedule.along_invariant (fun s : System => s.Ranked core start.plic.priority)
    (fun move s t settled moves => ranked_step settled moves) settled runs ?_
  refine ⟨⟨start, [], reset, rfl⟩, rfl, ?_, ?_⟩
  · rw [(reset core).1]
    exact .bottom (reset core).2
  · rw [System.StillPending, (reset core).1]
    exact nofun

/-- **External interrupts preempt by priority**, as long as registered functions write neither `mie`
nor `mstatus` and claim and complete nothing (`UserOp`). -/
theorem preempts_by_priority {start s : System} {schedule : List Move} {core : CoreId}
    (reset : start.Reset)
    (settled : Schedule.Along Move.step (System.Settled core) schedule start)
    (runs : Schedule.follow Move.step schedule start = some s) :
    (s.harts core).frames.Pairwise (Preempts start.plic.priority) :=
  (ordered (ranked reset settled runs).nested).1

/-- Both interrupts of core 0 are under way, the one of the higher priority on top. -/
theorem preempts_by_priority_twoSources :
    ((twoSources.after (firstServed ++ [.trap core0 .irqMExt 4])).harts core0).frames.length = 2 ∧
      ((twoSources.after (firstServed ++ [.trap core0 .irqMExt 4])).harts core0).frames.Pairwise
        (Preempts twoSources.plic.priority) :=
  ⟨by decide +kernel, preempts_by_priority twoSources_reset (by decide +kernel)
    (follow_after _ _ (by decide +kernel))⟩

theorem length_by_cause (frames : List TrapFrame) :
    frames.length = frames.countP (·.cause = .irqMSoft) + frames.countP (·.cause = .irqMTimer) +
      frames.countP (·.cause = .irqMExt) := by
  induction frames with
  | nil => rfl
  | cons frame rest ih =>
      simp only [List.length_cons, List.countP_cons, ih]
      cases frame.cause <;> simp <;> omega

/-- External interrupts on the stack of a core: one for each priority at most. -/
theorem countP_ext_le {s : System} {core : CoreId} {priority : Nat → Nat} {bound : Nat}
    (ranked : s.Ranked core priority) (small : ∀ irq, priority irq ≤ bound) :
    (s.harts core).frames.countP (·.cause = .irqMExt) ≤ bound := by
  have sorted := (ordered ranked.nested).1
  cases frames : (s.harts core).frames with
  | nil => exact Nat.zero_le _
  | cons frame rest =>
      have nested := ranked.nested
      rw [frames] at nested sorted
      obtain ⟨level, suspends, below⟩ := nested.above (Nat.zero_lt_succ _)
      have count := ((ordered (below _ level.resumes)).2 rfl).count
      rw [List.countP_cons]
      by_cases ext : frame.cause = .irqMExt
      · have higher : level.priorityThreshold < bound := by
          by_cases later : .claim ∈ frame.todo
          · obtain ⟨irq, -, -, -, above⟩ := ranked.still frame (by rw [frames]; rfl) ext later
            have all : ∀ list ∈ (trapEntry .irqMExt).tails, .claim ∈ list →
                .raiseThreshold ∈ list := by
              decide
            have raise := all _ ((List.mem_tails _ _).mpr (ext ▸ suspends.1.shape)) later
            rw [suspends.1.threshold (.inl raise)] at above
            exact Nat.lt_of_lt_of_le above (small irq)
          · exact Nat.lt_of_lt_of_le (suspends.2.claimed ext later) (small _)
        simp only [ext, decide_true, ↓reduceIte]
        exact Nat.succ_le_of_lt (Nat.lt_of_le_of_lt count higher)
      · have none : rest.countP (·.cause = .irqMExt) = 0 := by
          refine List.countP_eq_zero.mpr fun outer inRest isExt => ext ?_
          have preempts := List.rel_of_pairwise_cons sorted inRest
          rw [Preempts, of_decide_eq_true isExt] at preempts
          exact preempts.1
        simp [none, ext]

/-- **The stack of interrupts is bounded**, whatever the devices, the timers and the other core do,
with registered functions as in `UserOp`. The frame of an exception in one of them comes on top. -/
theorem nesting_bounded {start s : System} {schedule : List Move} {core : CoreId}
    (reset : start.Reset)
    (settled : Schedule.Along Move.step (System.Settled core) schedule start)
    (runs : Schedule.follow Move.step schedule start = some s)
    (small : ∀ irq, start.plic.priority irq ≤ plicNumPriorities) :
    (s.harts core).frames.length ≤ 2 + plicNumPriorities := by
  have ranked := ranked reset settled runs
  have sorted := (ordered ranked.nested).1
  have soft : (s.harts core).frames.countP (·.cause = .irqMSoft) ≤ 1 := by
    refine countP_le_one sorted fun inner outer preempts isSoft => ?_
    rw [Preempts, of_decide_eq_true isSoft] at preempts
    exact decide_eq_false preempts
  have timer : (s.harts core).frames.countP (·.cause = .irqMTimer) ≤ 1 := by
    refine countP_le_one sorted fun inner outer preempts isTimer => ?_
    rw [Preempts, of_decide_eq_true isTimer] at preempts
    rw [preempts]
    rfl
  have ext := countP_ext_le ranked small
  rw [length_by_cause]
  omega

/-- Two sources, two traps. -/
theorem nesting_bounded_twoSources :
    ((twoSources.after (firstServed ++ [.trap core0 .irqMExt 4])).harts core0).frames.length ≤
      2 + plicNumPriorities :=
  nesting_bounded twoSources_reset (by decide +kernel)
    (follow_after _ _ (by decide +kernel)) fun _ => Nat.min_le_right _ _

end K210Guard.Irq
