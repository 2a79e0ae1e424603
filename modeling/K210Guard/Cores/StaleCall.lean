/-
**When core 1 calls a stale function.**

Core 1 stores nothing in `.bss`, so the memory is what the first stores of core 0 have made of it
(`memAt`), and what core 1 has seen says how far core 0 must have come.

* `never_stale_iff`: core 1 calls nothing but the registered function, in every order of the steps,
  exactly when one of `env_ready`, `g_wake_up[1]` and `core1_instance.callback` was zero before.
-/

import Mathlib.Tactic.IntervalCases
import K210Guard.Cores.BringUp

namespace K210Guard

/-! ### Doublewords -/

namespace Bss

theorem load64_eq_zero {bss : Bss} {index : Nat} :
    bss.load64 index = 0 ↔ bss index = 0 ∧ bss (index + 1) = 0 := by
  constructor
  · intro zero
    have low := congrArg (BitVec.extractLsb' 0 32) zero
    have high := congrArg (BitVec.extractLsb' 32 32) zero
    rw [load64, BitVec.extractLsb'_append_eq_right] at low
    rw [load64, BitVec.extractLsb'_append_eq_left] at high
    exact ⟨low, high⟩
  · rintro ⟨low, high⟩
    rw [load64, low, high]
    rfl

/-- A load of what was stored. -/
@[simp] theorem load64_store64 (bss : Bss) (index : Nat) (value : BitVec 64) :
    (bss.store64 index value).load64 index = value := by
  have other : index ≠ index + 1 := by omega
  rw [load64, store64, Function.update_self, Function.update_of_ne other, Function.update_self]
  exact BitVec.extractLsb'_append_extractLsb'

theorem store64_apart (bss : Bss) {index other : Nat} (value : BitVec 64)
    (apart : other < index ∨ index + 1 < other) : bss.store64 index value other = bss other := by
  rw [store64, Function.update_of_ne (by omega), Function.update_of_ne (by omega)]

theorem load64_congr {bss bss' : Bss} {index : Nat} (low : bss index = bss' index)
    (high : bss (index + 1) = bss' (index + 1)) : bss.load64 index = bss'.load64 index := by
  rw [load64, load64, low, high]

end Bss

theorem BssLayout.callback_lt (layout : BssLayout) : layout.core1Instance + 1 < layout.size := by
  have := layout.core1Instance_lt
  omega

namespace BringUp

open Schedule (follow)

variable (layout : BssLayout) (func ctx : BitVec 64) (bss : Bss)

/-! ### The memory after the first stores -/

/-- The stores of core 0 after `init_bss`. -/
def afterClear : List InitOp :=
  [.setEnvReady, .storeCallback 0, .storeCtx 0] ++ registerCore1 func ctx

theorem initBss_length (size : Nat) : (initBss size).length = size := by
  rw [initBss, List.length_map, List.length_range]

theorem afterClear_of_given (given : func ≠ 0) : afterClear func ctx =
    [.setEnvReady, .storeCallback 0, .storeCtx 0, .storeCallback func, .storeCtx ctx,
      .wakeCore1] := by
  rw [afterClear, registerCore1, if_neg given]
  rfl

/-- The memory after the first `count` stores of core 0. -/
def memAt (count : Nat) : Bss :=
  ((initBss layout.size ++ afterClear func ctx).take count).foldl (write layout) bss

/-- While it is cleared, the memory is zero up to the next word. -/
theorem memAt_clearing {count : Nat} (bound : count ≤ layout.size) (index : Nat) :
    memAt layout func ctx bss count index = if index < count then 0 else bss index := by
  have clears : memAt layout func ctx bss count =
      ((List.range count).map .clear).foldl (write layout) bss := by
    rw [memAt, initBss, List.take_append_of_le_length (by simpa using bound), ← List.map_take,
      List.take_range, Nat.min_eq_left bound]
  rw [clears]
  clear clears bound
  induction count with
  | zero => simp
  | succ count ih =>
      rw [List.range_succ, List.map_append, List.foldl_append]
      show Function.update _ count 0 index = _
      by_cases here : index = count
      · rw [here, Function.update_self, if_pos (Nat.lt_succ_self count)]
      · rw [Function.update_of_ne here, ih]
        simp only [Nat.lt_succ_iff, Nat.le_iff_lt_or_eq, here, or_false]

/-- Afterwards the stores of `afterClear` are made in the cleared memory. -/
theorem memAt_after (count : Nat) :
    memAt layout func ctx bss (layout.size + count) =
      ((afterClear func ctx).take count).foldl (write layout)
        (memAt layout func ctx bss layout.size) := by
  have whole : (initBss layout.size ++ afterClear func ctx).take (layout.size + count) =
      (initBss layout.size ++ afterClear func ctx).take layout.size ++
        (afterClear func ctx).take count := by
    rw [List.take_add, List.drop_append_of_le_length (initBss_length _).ge,
      List.drop_of_length_le (initBss_length _).le]
    rfl
  rw [memAt, whole, List.foldl_append]
  rfl

/-- One more store. -/
theorem memAt_succ {count : Nat} {op : InitOp} {rest : List InitOp}
    (next : (initBss layout.size ++ afterClear func ctx).drop count = op :: rest) :
    memAt layout func ctx bss (count + 1) = write layout (memAt layout func ctx bss count) op ∧
      (initBss layout.size ++ afterClear func ctx).drop (count + 1) = rest := by
  have taken : (initBss layout.size ++ afterClear func ctx).take (count + 1) =
      (initBss layout.size ++ afterClear func ctx).take count ++ [op] := by
    rw [List.take_add, next]
    rfl
  refine ⟨?_, ?_⟩
  · rw [memAt, taken, List.foldl_append]
    rfl
  · rw [← List.drop_drop, next]
    rfl

/-! ### What core 1 sees there -/

/-- Until it is cleared, a word pair keeps its old value or is partly zero. -/
theorem memAt_early_ne {count index : Nat} (early : count ≤ layout.size)
    (inside : index + 1 < layout.size)
    (nonzero : (memAt layout func ctx bss count).load64 index ≠ 0) :
    bss.load64 index ≠ 0 ∧ count < layout.size := by
  refine ⟨fun zero => nonzero ?_, ?_⟩
  · obtain ⟨low, high⟩ := Bss.load64_eq_zero.mp zero
    rw [Bss.load64_eq_zero, memAt_clearing _ _ _ _ early, memAt_clearing _ _ _ _ early, low, high,
      ite_self, ite_self]
    exact ⟨rfl, rfl⟩
  · by_contra late
    apply nonzero
    rw [Bss.load64_eq_zero, memAt_clearing _ _ _ _ early, memAt_clearing _ _ _ _ early,
      if_pos (by omega), if_pos (by omega)]
    exact ⟨rfl, rfl⟩

/-- `.bss` has been cleared. -/
theorem memAt_cleared {index : Nat} (inside : index + 1 < layout.size) :
    (memAt layout func ctx bss layout.size).load64 index = 0 := by
  by_contra nonzero
  exact (memAt_early_ne layout func ctx bss le_rfl inside nonzero).2.ne rfl

/-- Only the wake-up itself and the clearing store in `g_wake_up[1]`. -/
theorem write_wakeUp {op : InitOp} (cleared : ∀ index, op ≠ .clear index)
    (other : op ≠ .wakeCore1) :
    (write layout bss op).load64 layout.wakeUp = bss.load64 layout.wakeUp := by
  have apart := layout.envReady_wakeUp
  have apart' := layout.wakeUp_core1Instance
  cases op with
  | clear index => exact absurd rfl (cleared index)
  | wakeCore1 => exact absurd rfl other
  | setEnvReady =>
      refine Bss.load64_congr ?_ ?_
      · exact Function.update_of_ne (by omega) _ _
      · exact Function.update_of_ne (by omega) _ _
  | storeCallback _ | storeCtx _ =>
      refine Bss.load64_congr ?_ ?_
      · exact Bss.store64_apart _ _ (by omega)
      · exact Bss.store64_apart _ _ (by omega)

/-- The other stores leave the callback alone. -/
theorem write_callback {op : InitOp} (cleared : ∀ index, op ≠ .clear index)
    (other : ∀ func, op ≠ .storeCallback func) :
    (write layout bss op).load64 layout.core1Instance = bss.load64 layout.core1Instance := by
  have apart := layout.envReady_core1Instance
  have apart' := layout.wakeUp_core1Instance
  cases op with
  | clear index => exact absurd rfl (cleared index)
  | storeCallback func => exact absurd rfl (other func)
  | setEnvReady =>
      refine Bss.load64_congr ?_ ?_
      · exact Function.update_of_ne (by omega) _ _
      · exact Function.update_of_ne (by omega) _ _
  | wakeCore1 | storeCtx _ =>
      refine Bss.load64_congr ?_ ?_
      · exact Bss.store64_apart _ _ (by omega)
      · exact Bss.store64_apart _ _ (by omega)

theorem write_storeCallback (func : BitVec 64) :
    (write layout bss (.storeCallback func)).load64 layout.core1Instance = func :=
  Bss.load64_store64 ..

/-- Between `init_bss` and `register_core1`, `g_wake_up[1]` is zero and the callback `NULL`. -/
theorem memAt_unregistered {count : Nat} (late : layout.size ≤ count)
    (early : count < layout.size + 4) :
    (memAt layout func ctx bss count).load64 layout.wakeUp = 0 ∧
      (memAt layout func ctx bss count).load64 layout.core1Instance = 0 := by
  obtain ⟨count, rfl⟩ := Nat.exists_eq_add_of_le late
  have wake := memAt_cleared layout func ctx bss layout.wakeUp_lt
  have callback := memAt_cleared layout func ctx bss layout.callback_lt
  have few : count < 4 := by omega
  rw [memAt_after]
  interval_cases count <;>
    simp [afterClear, write_wakeUp, write_callback, write_storeCallback, wake, callback]

/-- From the registration on, the callback is the function. -/
theorem memAt_registered {count : Nat} (late : layout.size + 4 ≤ count)
    (bound : count ≤ layout.size + (afterClear func ctx).length) :
    (memAt layout func ctx bss count).load64 layout.core1Instance = func ∧ func ≠ 0 ∧
      .storeCallback func ∉ (initBss layout.size ++ afterClear func ctx).drop count := by
  have given : func ≠ 0 := by
    rintro rfl
    have short : (afterClear 0 ctx).length = 3 := rfl
    omega
  rw [afterClear_of_given func ctx given] at bound ⊢
  obtain ⟨count, rfl⟩ := Nat.exists_eq_add_of_le late
  have few : count < 3 := by
    simp only [List.length_cons, List.length_nil] at bound
    omega
  refine ⟨?_, given, ?_⟩
  · rw [Nat.add_assoc, memAt_after, afterClear_of_given func ctx given]
    interval_cases count <;>
      simp [write_callback, write_storeCallback]
  · rw [Nat.add_assoc, ← List.drop_drop, List.drop_left' (initBss_length _)]
    interval_cases count <;> simp

/-- A set `env_ready` that was zero before has been set by core 0. -/
theorem envReady_seen {count : Nat}
    (nonzero : memAt layout func ctx bss count layout.envReady ≠ 0)
    (zero : bss layout.envReady = 0) : layout.size ≤ count := by
  by_contra early
  apply nonzero
  rw [memAt_clearing _ _ _ _ (Nat.le_of_not_le early), zero, ite_self]

/-- A set `g_wake_up[1]` has been set by core 0 if it was zero before, or if it has been cleared. -/
theorem wakeUp_seen {count : Nat}
    (nonzero : (memAt layout func ctx bss count).load64 layout.wakeUp ≠ 0)
    (zero : layout.size ≤ count ∨ bss.load64 layout.wakeUp = 0) : layout.size + 4 ≤ count := by
  by_contra early
  rcases Nat.le_total layout.size count with late | clearing
  · exact nonzero (memAt_unregistered layout func ctx bss late (by omega)).1
  · obtain ⟨old, below⟩ := memAt_early_ne layout func ctx bss clearing layout.wakeUp_lt nonzero
    rcases zero with late | zero
    · omega
    · exact old zero

/-- A callback that was `NULL` before has been registered. -/
theorem callback_seen {count : Nat}
    (nonzero : (memAt layout func ctx bss count).load64 layout.core1Instance ≠ 0)
    (zero : bss.load64 layout.core1Instance = 0) : layout.size + 4 ≤ count := by
  by_contra early
  rcases Nat.le_total layout.size count with late | clearing
  · exact nonzero (memAt_unregistered layout func ctx bss late (by omega)).2
  · exact (memAt_early_ne layout func ctx bss clearing layout.callback_lt nonzero).1 zero

/-! ### What core 1 has seen -/

/-- One of the variables was zero before. -/
def Guarded : Prop :=
  bss layout.envReady = 0 ∨ bss.load64 layout.wakeUp = 0 ∨ bss.load64 layout.core1Instance = 0

/-- What core 1 has still to do tells how many stores core 0 has made at least. -/
inductive Seen (count : Nat) : List PollOp → Prop
  | nothing : Seen count initBsp1
  | ready (seen : bss layout.envReady = 0 → layout.size ≤ count) :
      Seen count [.pollWakeUp, .testCallback, .loadCtx, .callCallback]
  | woken (seen : bss layout.envReady = 0 ∨ bss.load64 layout.wakeUp = 0 →
        layout.size + 4 ≤ count) :
      Seen count [.testCallback, .loadCtx, .callCallback]
  | tested (seen : layout.size + 4 ≤ count) : Seen count [.loadCtx, .callCallback]
  | loaded (seen : layout.size + 4 ≤ count) : Seen count [.callCallback]
  | done : Seen count []

/-- Core 0 has made `count` stores. -/
structure After (s : BringUp) (count : Nat) : Prop where
  memory : s.bss = memAt layout func ctx bss count
  ahead : s.core0 = (initBss layout.size ++ afterClear func ctx).drop count
  bound : count ≤ layout.size + (afterClear func ctx).length
  seen : Seen layout bss count s.core1
  called : ∀ value argument, s.called = some (value, argument) →
    layout.size + 4 ≤ count ∧ value = func

variable {layout func ctx bss}

theorem after_start : After layout func ctx bss (start layout func ctx bss) 0 where
  memory := rfl
  ahead := rfl
  bound := Nat.zero_le _
  seen := .nothing
  called := by
    intro value argument called
    cases called

/-- More stores do no harm. -/
theorem Seen.mono {count more : Nat} {ops : List PollOp} (seen : Seen layout bss count ops)
    (le : count ≤ more) : Seen layout bss more ops := by
  cases seen with
  | nothing => exact .nothing
  | ready seen => exact .ready fun zero => (seen zero).trans le
  | woken seen => exact .woken fun zero => (seen zero).trans le
  | tested seen => exact .tested (seen.trans le)
  | loaded seen => exact .loaded (seen.trans le)
  | done => exact .done

/-- A store of core 0. -/
theorem After.step0 {s t : BringUp} {count : Nat} (after : After layout func ctx bss s count)
    (moves : step layout .core0 s = some t) : After layout func ctx bss t (count + 1) := by
  unfold step at moves
  dsimp only at moves
  split at moves
  · cases moves
  · rename_i op rest here
    cases moves
    have next := after.ahead.symm.trans here
    obtain ⟨written, dropped⟩ := memAt_succ layout func ctx bss next
    have some_left := congrArg List.length next
    rw [List.length_drop, List.length_append, initBss_length, List.length_cons] at some_left
    refine ⟨?_, dropped.symm, by omega, after.seen.mono (Nat.le_succ count), ?_⟩
    · rw [written, ← after.memory]
    · intro value argument called
      obtain ⟨late, same⟩ := after.called value argument called
      exact ⟨late.trans (Nat.le_succ count), same⟩

/-- **A load of core 1.** -/
theorem After.step1 {s t : BringUp} {count : Nat} (guarded : Guarded layout bss)
    (after : After layout func ctx bss s count) (moves : step layout .core1 s = some t) :
    After layout func ctx bss t count := by
  obtain ⟨memory, ahead, bound, seen, called⟩ := after
  unfold step at moves
  dsimp only at moves
  split at moves
  · cases moves
  · rename_i op rest here
    cases moves
    rw [here] at seen
    cases seen with
    | nothing =>
        unfold poll
        dsimp only
        split
        · exact ⟨memory, ahead, bound, here ▸ .nothing, called⟩
        · rename_i nonzero
          refine ⟨memory, ahead, bound, .ready fun zero => ?_, called⟩
          rw [memory] at nonzero
          exact envReady_seen layout func ctx bss nonzero zero
    | ready seen =>
        unfold poll
        dsimp only
        split
        · exact ⟨memory, ahead, bound, here ▸ .ready seen, called⟩
        · rename_i nonzero
          refine ⟨memory, ahead, bound, .woken fun zero => ?_, called⟩
          rw [memory] at nonzero
          exact wakeUp_seen layout func ctx bss nonzero (zero.imp_left seen)
    | woken seen =>
        unfold poll
        dsimp only
        split
        · exact ⟨memory, ahead, bound, .done, called⟩
        · rename_i nonzero
          refine ⟨memory, ahead, bound, .tested ?_, called⟩
          rw [memory] at nonzero
          rcases guarded with zero | zero | zero
          · exact seen (Or.inl zero)
          · exact seen (Or.inr zero)
          · exact callback_seen layout func ctx bss nonzero zero
    | tested seen => exact ⟨memory, ahead, bound, .loaded seen, called⟩
    | loaded seen =>
        refine ⟨memory, ahead, bound, .done, ?_⟩
        intro value argument calls
        cases calls
        rw [memory]
        exact ⟨seen, (memAt_registered layout func ctx bss seen bound).1⟩

/-- Guarded, core 1 calls only the registered function. -/
theorem fresh_of_guarded (guarded : Guarded layout bss) {schedule : List Core} {t : BringUp}
    (runs : follow (step layout) schedule (start layout func ctx bss) = some t) : t.Fresh func := by
  have kept : ∃ count, After layout func ctx bss t count := by
    refine Schedule.follow_invariant (fun s => ∃ count, After layout func ctx bss s count) ?_ runs
      ⟨0, after_start⟩
    rintro core s s' moves ⟨count, after⟩
    cases core with
    | core0 => exact ⟨count + 1, after.step0 moves⟩
    | core1 => exact ⟨count, after.step1 guarded moves⟩
  obtain ⟨count, after⟩ := kept
  intro value argument called
  obtain ⟨late, same⟩ := after.called value argument called
  obtain ⟨_, given, registered⟩ := memAt_registered layout func ctx bss late after.bound
  exact ⟨given, after.ahead ▸ registered, same⟩

/-- With all three set, core 1 runs through before core 0 has stored anything. -/
theorem runs_through (unguarded : ¬ Guarded layout bss) :
    follow (step layout) (List.replicate 5 .core1) (start layout func ctx bss) =
      some { start layout func ctx bss with
        core1 := []
        argument := bss.load64 (layout.core1Instance + 2)
        called := some (bss.load64 layout.core1Instance,
          bss.load64 (layout.core1Instance + 2)) } := by
  obtain ⟨ready, woken, callback⟩ := by simpa only [Guarded, not_or] using unguarded
  let s := start layout func ctx bss
  have first : step layout .core1 s = some { s with core1 := initBsp1.drop 1 } :=
    congrArg some (if_neg ready)
  have second : step layout .core1 { s with core1 := initBsp1.drop 1 } =
      some { s with core1 := initBsp1.drop 2 } := congrArg some (if_neg woken)
  have third : step layout .core1 { s with core1 := initBsp1.drop 2 } =
      some { s with core1 := initBsp1.drop 3 } := by
    show some { s with core1 := if bss.load64 layout.core1Instance = 0 then [] else _ } = _
    rw [if_neg callback]
    rfl
  rw [show List.replicate 5 Core.core1 = [.core1, .core1, .core1, .core1, .core1] from rfl,
    Schedule.follow_cons _ first, Schedule.follow_cons _ second, Schedule.follow_cons _ third]
  rfl

variable (layout func ctx bss)

/-- **When core 1 calls nothing stale**: in every order of the steps core 1 calls only the function
that `register_core1` has stored, exactly when one of the three variables was zero before. -/
theorem never_stale_iff :
    (∀ schedule t, follow (step layout) schedule (start layout func ctx bss) = some t →
      t.Fresh func) ↔ Guarded layout bss := by
  constructor
  · intro fresh
    by_contra unguarded
    obtain ⟨given, registered, _⟩ := fresh _ _ (runs_through unguarded) _ _ rfl
    apply registered
    show InitOp.storeCallback func ∈ initBsp0 layout.size func ctx
    rw [initBsp0, registerCore1, if_neg given]
    simp
  · intro guarded schedule t runs
    exact fresh_of_guarded guarded runs

/-- A `.bss` of eight words. -/
def eightWords : BssLayout where
  size := 8
  envReady := 0
  wakeUp := 2
  core1Instance := 4
  envReady_lt := by decide
  wakeUp_lt := by decide
  core1Instance_lt := by decide
  envReady_wakeUp := by decide
  envReady_core1Instance := by decide
  wakeUp_core1Instance := by decide

/-- After a warm reset every word is still 1: core 1 calls `0x100000001` before core 0 has stored
anything. -/
theorem stale_called : ∃ schedule t,
    follow (step eightWords) schedule (start eightWords 0x80001000 0 fun _ => 1) = some t ∧
      ¬ t.Fresh 0x80001000 := by
  refine ⟨List.replicate 5 .core1, _, rfl, fun fresh => ?_⟩
  exact absurd (fresh _ _ rfl).2.2 (by decide)

end BringUp

end K210Guard
