/-
**Every interrupt is served once.**

A trap holds the source that it has claimed and not yet completed. Both cores share the controller,
and either may claim any source that it has enabled.

* `served_once`: in every reachable state the sources held by the traps of both cores are different
  ones, and each has its gateway closed and no request pending.
* `none_lost`: if no core disables a source while it serves it, every request that a gateway has
  sent is pending or held by a trap, so each claim is followed by its completion or still under way.
-/

import K210Guard.Irq.Transparent

namespace K210Guard.Irq

/-- The source that a trap has claimed and not completed. -/
def TrapFrame.holds (frame : TrapFrame) : Option Nat :=
  if .claim ∉ frame.todo ∧ .complete ∈ frame.todo ∧ frame.intNum ≠ 0 then some frame.intNum
  else none

/-- The sources that the traps of a core hold. -/
def Hart.held (hart : Hart) : List Nat := hart.frames.filterMap TrapFrame.holds

/-! ### Statements -/

/-- Before the claim nothing is held, and between the claim and the completion the source is. -/
theorem mem_todo {cause : Cause} {op : TrapOp} {todo : List TrapOp}
    (shape : op :: todo <:+ trapEntry cause) :
    (op = .claim → .claim ∉ todo ∧ .complete ∈ todo) ∧
      (op = .complete → .claim ∉ todo ∧ .complete ∉ todo) ∧
        (op = .testMeip → .claim ∈ todo) := by
  have all : ∀ cause, ∀ list ∈ (trapEntry cause).tails,
      (list.head? = some .claim → .claim ∉ list.tail ∧ .complete ∈ list.tail) ∧
        (list.head? = some .complete → .claim ∉ list.tail ∧ .complete ∉ list.tail) ∧
          (list.head? = some .testMeip → .claim ∈ list.tail) := by
    intro cause
    cases cause <;> decide
  simpa using all cause (op :: todo) ((List.mem_tails _ _).mpr shape)

theorem holds_congr {frame other : TrapFrame}
    (claim : .claim ∈ frame.todo ↔ .claim ∈ other.todo)
    (complete : .complete ∈ frame.todo ↔ .complete ∈ other.todo)
    (intNum : frame.intNum = other.intNum) : frame.holds = other.holds := by
  unfold TrapFrame.holds
  rw [intNum]
  exact if_congr (and_congr (not_congr claim) (and_congr complete Iff.rfl)) rfl rfl

theorem holds_entered (cause : Cause) : (TrapFrame.entered cause).holds = none := by
  simp [TrapFrame.holds, TrapFrame.entered]

variable {frame : TrapFrame} {op : TrapOp} {todo : List TrapOp}

/-- A statement other than the claim and the completion leaves what is held. -/
theorem holds_effect (shape : frame.todo <:+ trapEntry frame.cause)
    (next : frame.todo = op :: todo) (noClaim : op ≠ .claim) (noComplete : op ≠ .complete)
    (inputs : Inputs) (regs : Registers) :
    (op.effect inputs { frame with todo := todo } regs).1.holds = frame.holds := by
  rw [next] at shape
  have test := (mem_todo shape).2.2
  cases op
  case testMeip =>
    have before := test rfl
    cases still : inputs.meip
    -- nothing is pending any more: the trap returns without a claim
    · simp [TrapOp.effect, TrapFrame.holds, next, still, before, restore]
    · exact holds_congr (by simp [TrapOp.effect, next, still])
        (by simp [TrapOp.effect, next, still]) rfl
  case claim => exact absurd rfl noClaim
  case complete => exact absurd rfl noComplete
  all_goals exact holds_congr (by simp [TrapOp.effect, next]) (by simp [TrapOp.effect, next]) rfl

theorem holds_claim (shape : frame.todo <:+ trapEntry frame.cause)
    (next : frame.todo = .claim :: todo) (inputs : Inputs) (regs : Registers) :
    frame.holds = none ∧
      (TrapOp.effect inputs { frame with todo := todo } regs .claim).1.holds =
        if inputs.claimed = 0 then none else some inputs.claimed := by
  rw [next] at shape
  have after := (mem_todo shape).1 rfl
  simp [TrapFrame.holds, TrapOp.effect, next, after]

theorem holds_complete (shape : frame.todo <:+ trapEntry frame.cause)
    (next : frame.todo = .complete :: todo) (inputs : Inputs) (regs : Registers) :
    frame.holds = (if frame.intNum = 0 then none else some frame.intNum) ∧
      (TrapOp.effect inputs { frame with todo := todo } regs .complete).1.holds = none := by
  rw [next] at shape
  have after := (mem_todo shape).2.1 rfl
  simp [TrapFrame.holds, TrapOp.effect, next, after]

theorem holds_mret (shape : frame.todo <:+ trapEntry frame.cause)
    (next : frame.todo = .mret :: todo) : frame.holds = none := by
  have all : ∀ cause, ∀ list ∈ (trapEntry cause).tails, list.head? = some .mret →
      .complete ∉ list := by
    intro cause
    cases cause <;> decide
  have finished := all frame.cause frame.todo ((List.mem_tails _ _).mpr shape) (by rw [next]; rfl)
  simp [TrapFrame.holds, finished]

/-! ### Moves -/

/-- What a move of the system does to what is held, to the pending bits and to the gateways. -/
inductive ServiceStep (s t : System) : Prop
  | quiet : (∀ core, (t.harts core).held = (s.harts core).held) →
      t.plic.pending = s.plic.pending → t.plic.sent = s.plic.sent → ServiceStep s t
  | request (irq : Nat) : (∀ core, (t.harts core).held = (s.harts core).held) → irq ≠ 0 →
      s.plic.sent irq = false →
      t.plic.pending = Function.update s.plic.pending irq true →
      t.plic.sent = Function.update s.plic.sent irq true → ServiceStep s t
  | claim (core : CoreId) (irq : Nat) :
      (∀ other, (t.harts other).held =
        if other = core then irq :: (s.harts other).held else (s.harts other).held) →
      irq ≠ 0 → s.plic.pending irq = true → (s.harts core).enabled irq = true →
      t.plic.pending = Function.update s.plic.pending irq false → t.plic.sent = s.plic.sent →
      ServiceStep s t
  | complete (core : CoreId) (irq : Nat) (rest : List Nat) : (s.harts core).held = irq :: rest →
      (∀ other, (t.harts other).held = if other = core then rest else (s.harts other).held) →
      t.plic.pending = s.plic.pending →
      t.plic.sent = Function.update s.plic.sent irq false → ServiceStep s t
  /-- A completion of a source that the core has disabled. -/
  | ignored (core : CoreId) (irq : Nat) (rest : List Nat) : (s.harts core).held = irq :: rest →
      (∀ other, (t.harts other).held = if other = core then rest else (s.harts other).held) →
      (s.harts core).enabled irq ≠ true →
      t.plic.pending = s.plic.pending → t.plic.sent = s.plic.sent → ServiceStep s t

/-- The statement that a trap executes is of its handler. -/
theorem System.Reachable.shape {s : System} (reachable : s.Reachable) {core : CoreId}
    {frame : TrapFrame} {rest : List TrapFrame} (frames : (s.harts core).frames = frame :: rest) :
    frame.todo <:+ trapEntry frame.cause := by
  have nested := reachable.nested core
  rw [frames] at nested
  obtain ⟨level, suspends, -⟩ := nested.above (Nat.zero_lt_succ _)
  exact suspends.1.shape

theorem held_setHart (s : System) (core other : CoreId) (hart : Hart) :
    ((s.setHart core hart).harts other).held =
      if other = core then hart.held else (s.harts other).held := by
  rw [harts_setHart]
  split <;> rfl

theorem held_cons {hart : Hart} {frame : TrapFrame} {rest : List TrapFrame}
    (frames : hart.frames = frame :: rest) :
    hart.held = frame.holds.toList ++ rest.filterMap TrapFrame.holds := by
  rw [Hart.held, frames, List.filterMap_cons]
  cases frame.holds <;> rfl

/-- A core with the same traps holds the same sources. -/
theorem held_congr {hart other : Hart} (frames : hart.frames = other.frames) :
    hart.held = other.held := by
  rw [Hart.held, frames, Hart.held]

/-- What a statement changes of what its core holds. -/
theorem held_executed {s : System} {core : CoreId} {pc : Nat} {frame : TrapFrame}
    {rest : List TrapFrame} (other : CoreId) :
    ((s.executed core pc frame rest op todo).harts other).held =
      if other = core then
        (op.effect (s.inputs core) { frame with todo := todo }
          (s.harts core).regs).1.holds.toList ++ rest.filterMap TrapFrame.holds
      else (s.harts other).held := by
  refine (held_setHart s core other _).trans ?_
  rw [held_cons rfl]

theorem serviceStep_executed {s : System} {core : CoreId} {pc : Nat} {frame : TrapFrame}
    {rest : List TrapFrame} (shape : frame.todo <:+ trapEntry frame.cause)
    (frames : (s.harts core).frames = frame :: rest) (next : frame.todo = op :: todo) :
    ServiceStep s (s.executed core pc frame rest op todo) := by
  have before := held_cons frames
  by_cases isClaim : op = .claim
  · subst isClaim
    obtain ⟨nothing, after⟩ := holds_claim shape next (s.inputs core) (s.harts core).regs
    rw [nothing] at before
    by_cases none : (s.inputs core).claimed = 0
    · have plic : (s.executed core pc frame rest .claim todo).plic = s.plic := if_pos none
      refine .quiet (fun other => ?_) (congrArg Plic.pending plic) (congrArg Plic.sent plic)
      rw [held_executed, after, if_pos none]
      split
      case isTrue same => exact same ▸ before.symm
      case isFalse => rfl
    · have plic : (s.executed core pc frame rest .claim todo).plic =
          ⟨s.plic.priority, Function.update s.plic.pending (s.inputs core).claimed false,
            s.plic.sent⟩ := if_neg none
      obtain ⟨-, pending, enabled⟩ := rank_pos (claimId_pos none)
      refine .claim core (s.inputs core).claimed (fun other => ?_) none pending enabled
        (by rw [plic]) (by rw [plic])
      rw [held_executed, after, if_neg none]
      split
      case isTrue same =>
        rw [same, before]
        rfl
      case isFalse => rfl
  by_cases isComplete : op = .complete
  · subst isComplete
    obtain ⟨holds, after⟩ := holds_complete shape next (s.inputs core) (s.harts core).regs
    rw [holds] at before
    by_cases none : frame.intNum = 0
    · have plic : (s.executed core pc frame rest .complete todo).plic = s.plic :=
        if_neg fun both => both.1 none
      rw [if_pos none] at before
      refine .quiet (fun other => ?_) (congrArg Plic.pending plic) (congrArg Plic.sent plic)
      rw [held_executed, after]
      split
      case isTrue same => exact same ▸ before.symm
      case isFalse => rfl
    · rw [if_neg none] at before
      have held (other : CoreId) :
          ((s.executed core pc frame rest .complete todo).harts other).held =
            if other = core then rest.filterMap TrapFrame.holds else (s.harts other).held := by
        rw [held_executed, after]
        rfl
      by_cases enabled : (s.harts core).enabled frame.intNum = true
      · have plic : (s.executed core pc frame rest .complete todo).plic =
            ⟨s.plic.priority, s.plic.pending, Function.update s.plic.sent frame.intNum false⟩ :=
          if_pos ⟨none, enabled⟩
        exact .complete core frame.intNum _ before held (by rw [plic]) (by rw [plic])
      · have plic : (s.executed core pc frame rest .complete todo).plic = s.plic :=
          if_neg fun both => enabled both.2
        exact .ignored core frame.intNum _ before held enabled (by rw [plic]) (by rw [plic])
  · have same := holds_effect shape next isClaim isComplete (s.inputs core) (s.harts core).regs
    have plic : (s.executed core pc frame rest op todo).plic = s.plic := by
      cases op
      case claim => exact absurd rfl isClaim
      case complete => exact absurd rfl isComplete
      all_goals rfl
    refine .quiet (fun other => ?_) (congrArg Plic.pending plic) (congrArg Plic.sent plic)
    rw [held_executed, same]
    split
    case isTrue same => exact same ▸ before.symm
    case isFalse => rfl

theorem serviceStep {s t : System} {move : Move} (reachable : s.Reachable)
    (moves : move.step s = some t) : ServiceStep s t := by
  cases move with
  | device irq =>
      obtain ⟨plic, request, rfl⟩ := Option.map_eq_some_iff.mp moves
      obtain ⟨⟨source, idle⟩, ⟨⟩⟩ := Option.ite_none_right_eq_some.mp request
      have positive : irq ≠ 0 := by
        rintro rfl
        exact absurd source (by decide)
      exact .request irq (fun _ => rfl) positive idle rfl rfl
  | timer core mtip =>
      cases moves
      refine .quiet (fun other => ?_) rfl rfl
      rw [held_setHart]
      split
      case isTrue same => exact same ▸ rfl
      case isFalse => rfl
  | trap core cause vector =>
      obtain ⟨-, ⟨⟩⟩ := Option.ite_none_right_eq_some.mp moves
      refine .quiet (fun other => ?_) rfl rfl
      rw [held_setHart]
      split
      case isTrue same =>
        rw [held_cons rfl, holds_entered, same]
        rfl
      case isFalse => rfl
  | execute core pc =>
      obtain ⟨frame, rest, op, todo, frames, next, ⟨rfl, rfl⟩ | ⟨-, rfl⟩⟩ := execute_cases moves
      · refine .quiet (fun other => ?_) rfl rfl
        rw [System.returned, held_setHart]
        split
        case isTrue same =>
          rw [same, held_cons frames, holds_mret (reachable.shape frames) next]
          rfl
        case isFalse => rfl
      · exact serviceStep_executed (reachable.shape frames) frames next
  | user core pc op =>
      obtain ⟨-, ⟨⟩⟩ := Option.ite_none_right_eq_some.mp moves
      refine .quiet (fun other => held_congr (frames_user s core pc op other)) ?_ ?_
      all_goals
        cases op
        case plicSetPriority irq priority =>
          simp only [System.user, Plic.setPriority]
          split <;> rfl
        all_goals rfl
  | base core pc op =>
      obtain ⟨-, ⟨⟩⟩ := Option.ite_none_right_eq_some.mp moves
      refine .quiet (fun other => held_congr (frames_base s core pc op other)) ?_ ?_
      all_goals cases op <;> rfl

/-! ### Counting -/

/-- How many traps hold a source, on both cores. -/
def System.serving (s : System) (irq : Nat) : Nat :=
  (s.harts core0).held.count irq + (s.harts core1).held.count irq

/-- A source is in service, 1, or not, 0: its gateway has sent a request that is not pending any
more. -/
def System.inService (s : System) (irq : Nat) : Nat :=
  if s.plic.sent irq = true ∧ s.plic.pending irq = false then 1 else 0

theorem serving_congr {s t : System} (held : ∀ core, (t.harts core).held = (s.harts core).held)
    (irq : Nat) : t.serving irq = s.serving irq := by
  rw [System.serving, held, held, System.serving]

/-- One more trap holds a source. -/
theorem serving_cons {s t : System} {core : CoreId} {irq : Nat}
    (held : ∀ other, (t.harts other).held =
      if other = core then irq :: (s.harts other).held else (s.harts other).held) (other : Nat) :
    t.serving other = s.serving other + if irq = other then 1 else 0 := by
  have different : core0 ≠ core1 := by decide
  rcases core_cases core with rfl | rfl
  · simp only [System.serving, held, ↓reduceIte, if_neg different.symm, List.count_cons,
      beq_iff_eq]
    omega
  · simp only [System.serving, held, ↓reduceIte, if_neg different, List.count_cons, beq_iff_eq]
    omega

/-- A trap gives up the source that it holds. -/
theorem held_tail {s t : System} {core : CoreId} {irq : Nat} {rest : List Nat}
    (before : (s.harts core).held = irq :: rest)
    (held : ∀ other, (t.harts other).held =
      if other = core then rest else (s.harts other).held) (other : CoreId) :
    (s.harts other).held =
      if other = core then irq :: (t.harts other).held else (t.harts other).held := by
  rw [held]
  split
  case isTrue same => rw [same, before]
  case isFalse => rfl

theorem inService_congr {s t : System} (pending : t.plic.pending = s.plic.pending)
    (sent : t.plic.sent = s.plic.sent) (irq : Nat) : t.inService irq = s.inService irq := by
  rw [System.inService, pending, sent, System.inService]

/-- What holds of the requests in every state: a request is pending only when its gateway has sent
it, and no source is held by more traps than are in service. -/
structure System.ServedOnce (s : System) : Prop where
  sent : ∀ irq, s.plic.pending irq = true → s.plic.sent irq = true
  once : ∀ irq, s.serving irq ≤ s.inService irq

/-- A source that a trap holds. -/
theorem serving_of_held {s : System} {core : CoreId} {irq : Nat} {rest : List Nat}
    (held : (s.harts core).held = irq :: rest) : 0 < s.serving irq := by
  unfold System.serving
  rcases core_cases core with rfl | rfl
  all_goals
    rw [held, List.count_cons_self]
    omega

/-- The numbers of holders and of sources in service change together, unless a completion is
ignored. -/
theorem balance {s t : System} (before : s.ServedOnce) (step : ServiceStep s t) :
    (∀ irq, t.serving irq + s.inService irq = t.inService irq + s.serving irq) ∨
      (∃ core, ∃ irq ∈ (s.harts core).held, (s.harts core).enabled irq ≠ true) ∧
        ∀ irq, t.serving irq ≤ s.serving irq ∧ t.inService irq = s.inService irq := by
  cases step with
  | quiet held pending sent =>
      refine .inl fun irq => ?_
      rw [serving_congr held, inService_congr pending sent, Nat.add_comm]
  | request irq held source idle pending sent =>
      refine .inl fun other => ?_
      rw [serving_congr held, Nat.add_comm]
      congr 1
      unfold System.inService
      rw [pending, sent]
      by_cases same : other = irq
      · rw [same]
        simp [idle]
      · rw [Function.update_of_ne same, Function.update_of_ne same]
  | claim core irq held source requested enabled pending sent =>
      refine .inl fun other => ?_
      rw [serving_cons held]
      unfold System.inService
      rw [pending, sent]
      by_cases same : other = irq
      · subst same
        simp [requested, before.sent _ requested, Nat.add_comm]
      · rw [Function.update_of_ne same, if_neg (Ne.symm same), Nat.add_comm, Nat.add_zero]
  | complete core irq rest held after pending sent =>
      refine .inl fun other => ?_
      rw [serving_cons (held_tail held after) other]
      by_cases same : other = irq
      · subst same
        have finished : t.inService other = 0 := by
          simp [System.inService, sent]
        have once := before.once other
        have one : s.inService other ≤ 1 := by
          unfold System.inService
          split <;> omega
        rw [serving_cons (held_tail held after) other, if_pos rfl] at once
        rw [if_pos rfl]
        omega
      · have unchanged : t.inService other = s.inService other := by
          unfold System.inService
          rw [pending, sent, Function.update_of_ne same]
        rw [unchanged, if_neg (Ne.symm same), Nat.add_comm, Nat.add_zero]
  | ignored core irq rest held after disabled pending sent =>
      refine .inr ⟨⟨core, irq, held ▸ List.mem_cons_self, disabled⟩, fun other => ?_⟩
      rw [serving_cons (held_tail held after) other]
      exact ⟨Nat.le_add_right _ _, inService_congr pending sent other⟩

theorem sent_step {s t : System} (before : s.ServedOnce) (step : ServiceStep s t) (irq : Nat)
    (requested : t.plic.pending irq = true) : t.plic.sent irq = true := by
  revert requested
  cases step with
  | quiet held pending sent | ignored _ _ _ _ _ _ pending sent =>
      rw [pending, sent]
      exact before.sent irq
  | request other held source idle pending sent =>
      rw [pending, sent, Function.update_apply, Function.update_apply]
      split
      · exact fun _ => rfl
      · exact before.sent irq
  | claim core other held source requested enabled pending sent =>
      rw [pending, sent, Function.update_apply]
      split
      · exact nofun
      · exact before.sent irq
  | complete core other rest held after pending sent =>
      rw [pending, sent, Function.update_apply]
      split
      case isTrue same =>
        -- what a trap holds is not pending
        intro requested
        have holders := before.once other
        have held := serving_of_held held
        rw [System.inService, if_neg (by simp [← same, requested])] at holders
        omega
      case isFalse => exact before.sent irq

/-! ### Runs -/

theorem servedOnce_step {s t : System} (before : s.ServedOnce) (step : ServiceStep s t) :
    t.ServedOnce where
  sent := sent_step before step
  once irq := by
    have once := before.once irq
    rcases balance before step with even | ⟨-, fewer⟩
    · have := even irq
      omega
    · obtain ⟨fewer, same⟩ := fewer irq
      omega

/-- Nothing is in service: the requests that the gateways have sent are pending. -/
def System.Idle (s : System) : Prop := s.plic.sent = s.plic.pending

theorem serving_reset {s : System} (reset : s.Reset) (irq : Nat) : s.serving irq = 0 := by
  simp [System.serving, Hart.held, (reset core0).1, (reset core1).1]

theorem inService_idle {s : System} (idle : s.Idle) (irq : Nat) : s.inService irq = 0 := by
  rw [System.inService, idle]
  exact if_neg fun both => absurd both.2 (by rw [both.1]; exact Bool.true_eq_false.mp)

theorem servedOnce_start {s : System} (reset : s.Reset) (idle : s.Idle) : s.ServedOnce where
  sent irq requested := by rw [idle, requested]
  once irq := by rw [serving_reset reset]; exact Nat.zero_le _

/-- **Every interrupt is served once**: whatever the cores and the devices do, with registered
functions as in `UserOp`, a source is held by one trap at most, on either core, and only while its
request is taken and its gateway closed. -/
theorem served_once {start s : System} {schedule : List Move} (reset : start.Reset)
    (idle : start.Idle) (runs : Schedule.follow Move.step schedule start = some s) (irq : Nat) :
    s.serving irq ≤ s.inService irq := by
  have both : s.Reachable ∧ s.ServedOnce := by
    refine Schedule.follow_invariant (fun s : System => s.Reachable ∧ s.ServedOnce)
      (fun move s t moves holds => ?_) runs
      ⟨⟨start, [], reset, rfl⟩, servedOnce_start reset idle⟩
    exact ⟨holds.1.step moves, servedOnce_step holds.2 (serviceStep holds.1 moves)⟩
  exact both.2.once irq

theorem twoSources_idle : twoSources.Idle := rfl

/-- The first source is held while its function runs. -/
theorem served_once_twoSources :
    (twoSources.after firstServed).serving 1 = 1 ∧
      (twoSources.after firstServed).serving 1 ≤ (twoSources.after firstServed).inService 1 :=
  ⟨by decide +kernel, served_once twoSources_reset twoSources_idle
    (follow_after _ _ (by decide +kernel)) 1⟩

/-- No core has disabled a source that it serves. -/
def System.ServesEnabled (_ : Move) (s : System) : Prop :=
  ∀ core, ∀ irq ∈ (s.harts core).held, (s.harts core).enabled irq = true

instance (move : Move) (s : System) : Decidable (System.ServesEnabled move s) :=
  inferInstanceAs (Decidable (∀ _, ∀ _ ∈ _, _))

/-- **No request is lost**: if no core disables a source while it serves it, and registered
functions are as in `UserOp`, the sources in service are those that a trap holds. -/
theorem none_lost {start s : System} {schedule : List Move} (reset : start.Reset)
    (idle : start.Idle)
    (enabled : Schedule.Along Move.step System.ServesEnabled schedule start)
    (runs : Schedule.follow Move.step schedule start = some s) (irq : Nat) :
    s.serving irq = s.inService irq := by
  have all : s.Reachable ∧ s.ServedOnce ∧ ∀ irq, s.serving irq = s.inService irq := by
    refine Schedule.along_invariant
      (fun s : System => s.Reachable ∧ s.ServedOnce ∧ ∀ irq, s.serving irq = s.inService irq)
      (fun move s t serves moves holds => ?_) enabled runs
      ⟨⟨start, [], reset, rfl⟩, servedOnce_start reset idle,
        fun irq => by rw [serving_reset reset, inService_idle idle]⟩
    obtain ⟨reachable, once, equal⟩ := holds
    have step := serviceStep reachable moves
    refine ⟨reachable.step moves, servedOnce_step once step, fun irq => ?_⟩
    rcases balance once step with even | ⟨⟨core, irq, held, disabled⟩, -⟩
    · have even := even irq
      have equal := equal irq
      omega
    · exact absurd (serves core irq held) disabled
  exact all.2.2 irq

theorem none_lost_twoSources :
    (twoSources.after firstServed).serving 1 = (twoSources.after firstServed).inService 1 :=
  none_lost twoSources_reset twoSources_idle (by decide +kernel)
    (follow_after _ _ (by decide +kernel)) 1

end K210Guard.Irq
