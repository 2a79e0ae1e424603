/-
**What a move does to a core.**

`HartStep` is the inversion of `Move.step` for the registers and the traps of one core: a move of
another core or of a device leaves them alone (`hartStep`).
-/

import K210Guard.Irq.Traps

namespace K210Guard.Irq

/-! ### Claims -/

/-- The search for the source of the highest rank. -/
theorem foldl_best (rank : Nat → Nat) (list : List Nat) (start : Nat) :
    let best := list.foldl (fun best irq => if rank best < rank irq then irq else best) start
    (best = start ∨ rank start < rank best) ∧ rank start ≤ rank best ∧
      ∀ irq ∈ list, rank irq ≤ rank best := by
  induction list generalizing start with
  | nil => exact ⟨.inl rfl, Nat.le_refl _, nofun⟩
  | cons first rest ih =>
      rw [List.foldl_cons]
      by_cases higher : rank start < rank first
      · obtain ⟨-, atLeast, all⟩ := ih first
        rw [if_pos higher]
        have above := Nat.lt_of_lt_of_le higher atLeast
        exact ⟨.inr above, Nat.le_of_lt above, List.forall_mem_cons.mpr ⟨atLeast, all⟩⟩
      · obtain ⟨best, atLeast, all⟩ := ih start
        rw [if_neg higher]
        exact ⟨best, atLeast,
          List.forall_mem_cons.mpr ⟨Nat.le_trans (Nat.not_lt.mp higher) atLeast, all⟩⟩

/-- A source that can be claimed. -/
theorem rank_pos {plic : Plic} {hart : Hart} {irq : Nat} (above : 0 < plic.rank hart irq) :
    irq ≠ 0 ∧ plic.pending irq = true ∧ hart.enabled irq = true := by
  unfold Plic.rank at above
  split at above
  case isTrue claimable => exact claimable
  case isFalse => exact absurd above (Nat.lt_irrefl 0)

/-- A claim returns 0 or a source that can be claimed. -/
theorem claimId_pos {plic : Plic} {hart : Hart} (claimed : plic.claimId hart ≠ 0) :
    0 < plic.rank hart (plic.claimId hart) := by
  rcases (foldl_best (plic.rank hart) sources 0).1 with none | above
  · exact absurd none claimed
  · exact Nat.lt_of_le_of_lt (Nat.zero_le _) above

/-- A claim returns a source of the highest priority. -/
theorem rank_le_claimId (plic : Plic) (hart : Hart) {irq : Nat} (source : irq ∈ sources) :
    plic.rank hart irq ≤ plic.rank hart (plic.claimId hart) :=
  (foldl_best (plic.rank hart) sources 0).2.2 irq source

/-! ### Cores -/

/-- What a move of the system does to the registers and the frames of a core. -/
inductive HartStep (s : System) (core : CoreId) : Registers → List TrapFrame → Prop
  | stay : HartStep s core (s.harts core).regs (s.harts core).frames
  | trap (cause : Cause) (vector : Nat) : s.takes core cause = true →
      HartStep s core ((s.harts core).regs.trap vector) (.entered cause :: (s.harts core).frames)
  | execute {frame : TrapFrame} {rest : List TrapFrame} {op : TrapOp} {todo : List TrapOp}
      (pc : Nat) : (s.harts core).frames = frame :: rest → frame.todo = op :: todo → op ≠ .mret →
      HartStep s core
        { (op.effect (s.inputs core) { frame with todo := todo } (s.harts core).regs).2 with
          pc := pc }
        ((op.effect (s.inputs core) { frame with todo := todo } (s.harts core).regs).1 :: rest)
  | mret {frame : TrapFrame} {rest : List TrapFrame} {todo : List TrapOp} :
      (s.harts core).frames = frame :: rest → frame.todo = .mret :: todo →
      HartStep s core (s.harts core).regs.mret rest
  | advance (pc : Nat) : (s.harts core).inUserCode = true →
      HartStep s core { (s.harts core).regs with pc := pc } (s.harts core).frames
  | exception (pc : Nat) : (s.harts core).inUserCode = true →
      HartStep s core ((s.harts core).regs.exception pc) (s.harts core).frames
  | base (regs : Registers) : (s.harts core).frames = [] →
      regs.privilege = (s.harts core).regs.privilege → HartStep s core regs []

theorem harts_setHart (s : System) (core other : CoreId) (hart : Hart) :
    (s.setHart core hart).harts other = if other = core then hart else s.harts other :=
  Function.update_apply s.harts core hart other

/-- Only one core moves: what its new state is says what the move did. -/
theorem HartStep.of_setHart {s : System} {core : CoreId} {hart : Hart}
    (moved : HartStep s core hart.regs hart.frames) (other : CoreId) :
    HartStep s other ((s.setHart core hart).harts other).regs
      ((s.setHart core hart).harts other).frames := by
  rw [harts_setHart]
  split
  case isTrue same => exact same ▸ moved
  case isFalse => exact .stay

/-- A statement is the return of the innermost trap or another one. -/
theorem execute_cases {s t : System} {core : CoreId} {pc : Nat}
    (moves : s.execute core pc = some t) :
    ∃ frame rest op todo, (s.harts core).frames = frame :: rest ∧ frame.todo = op :: todo ∧
      (op = .mret ∧ t = s.returned core rest ∨
        op ≠ .mret ∧ t = s.executed core pc frame rest op todo) := by
  unfold System.execute at moves
  split at moves
  case h_1 => exact absurd moves nofun
  case h_2 frame rest frames =>
    split at moves
    case h_1 => exact absurd moves nofun
    case h_2 op todo next =>
      refine ⟨frame, rest, op, todo, frames, next, ?_⟩
      split at moves
      case isTrue last => exact .inl ⟨last, (Option.some.inj moves).symm⟩
      case isFalse running => exact .inr ⟨running, (Option.some.inj moves).symm⟩

theorem hartStep_execute {s t : System} {core : CoreId} {pc : Nat}
    (moves : s.execute core pc = some t) (other : CoreId) :
    HartStep s other (t.harts other).regs (t.harts other).frames := by
  obtain ⟨frame, rest, op, todo, frames, next, ⟨rfl, rfl⟩ | ⟨running, rfl⟩⟩ := execute_cases moves
  · exact .of_setHart (.mret frames next) other
  · exact .of_setHart (s := s) (.execute pc frames next running) other

theorem hartStep_advance (s : System) {core : CoreId} (pc : Nat)
    (user : (s.harts core).inUserCode = true) (other : CoreId) :
    HartStep s other ((s.advance core pc).harts other).regs
      ((s.advance core pc).harts other).frames := by
  refine .of_setHart ?_ other
  exact .advance pc user

theorem frames_plicIrqEnable (hart : Hart) (irq : Nat) :
    (hart.plicIrqEnable irq).frames = hart.frames := by
  unfold Hart.plicIrqEnable
  split <;> rfl

theorem frames_plicIrqDisable (hart : Hart) (irq : Nat) :
    (hart.plicIrqDisable irq).frames = hart.frames := by
  unfold Hart.plicIrqDisable
  split <;> rfl

/-- User code takes no traps and returns from none. -/
theorem frames_user (s : System) (core : CoreId) (pc : Nat) (op : UserOp) (other : CoreId) :
    ((s.user core pc op).harts other).frames = (s.harts other).frames := by
  cases op
  case clintIpiSend target | clintIpiClear target =>
    simp only [System.user, System.advance, harts_setHart]
    split <;> split <;> simp_all
  all_goals
    simp only [System.user, System.advance, harts_setHart]
    split <;> simp_all [frames_plicIrqEnable, frames_plicIrqDisable]

theorem frames_base (s : System) (core : CoreId) (pc : Nat) (op : BaseOp) (other : CoreId) :
    ((s.base core pc op).harts other).frames = (s.harts other).frames := by
  cases op
  all_goals
    simp only [System.base, System.plicInit, harts_setHart]
    split <;> simp_all

theorem hartStep_user (s : System) {core : CoreId} (pc : Nat) (op : UserOp)
    (user : (s.harts core).inUserCode = true) (other : CoreId) :
    HartStep s other ((s.user core pc op).harts other).regs
      ((s.user core pc op).harts other).frames := by
  cases op with
  | exception => exact .of_setHart (.exception pc user) other
  | plicIrqEnable irq =>
      refine .of_setHart (s := s) ?_ other
      rw [frames_plicIrqEnable]
      exact .advance pc user
  | plicIrqDisable irq =>
      refine .of_setHart (s := s) ?_ other
      rw [frames_plicIrqDisable]
      exact .advance pc user
  | clintIpiSend target | clintIpiClear target =>
      -- the bit is written in the state in which the core has gone on
      have gone := hartStep_advance s pc user other
      rw [System.user, harts_setHart]
      split
      case isTrue same => exact same ▸ gone
      case isFalse => exact gone
  | clintTimerSet =>
      refine .of_setHart ?_ other
      exact .advance pc user
  | compute | plicSetPriority => exact hartStep_advance s pc user other

theorem hartStep {s t : System} {move : Move} (moves : move.step s = some t) (core : CoreId) :
    HartStep s core (t.harts core).regs (t.harts core).frames := by
  cases move with
  | device irq =>
      obtain ⟨plic, -, rfl⟩ := Option.map_eq_some_iff.mp moves
      exact .stay
  | timer other mtip =>
      cases moves
      refine .of_setHart ?_ core
      exact .stay
  | trap other cause vector =>
      obtain ⟨takes, ⟨⟩⟩ := Option.ite_none_right_eq_some.mp moves
      exact .of_setHart (.trap cause vector takes) core
  | execute other pc => exact hartStep_execute moves core
  | user other pc op =>
      obtain ⟨user, ⟨⟩⟩ := Option.ite_none_right_eq_some.mp moves
      exact hartStep_user s pc op user core
  | base other pc op =>
      obtain ⟨empty, ⟨⟩⟩ := Option.ite_none_right_eq_some.mp moves
      have none : (s.harts other).frames = [] := List.isEmpty_iff.mp empty
      have moved (regs : Registers) (same : regs.privilege = (s.harts other).regs.privilege) :
          HartStep s other regs (s.harts other).frames := none ▸ .base regs none same
      cases op with
      | plicInit | writeCsrs =>
          refine .of_setHart ?_ core
          exact moved _ rfl

end K210Guard.Irq
