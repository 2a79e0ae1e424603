/-
**Bringing up the second core** (`_init_bsp`, `init_bss`, `register_core1`, `thread_entry`).

Core 0 clears `.bss` word by word, sets `env_ready` and later registers a callback; core 1 polls
`env_ready` and `g_wake_up[1]` and calls the callback. All these variables lie in `.bss`
themselves, so until core 0 has cleared them core 1 sees what was there before.
-/

import Mathlib.Logic.Function.Basic
import K210Guard.Interaction.Schedule

namespace K210Guard

/-- The two cores. -/
inductive Core
  | core0
  | core1
  deriving DecidableEq

/-! ### The memory -/

/-- The 32-bit words of `.bss`. -/
abbrev Bss := Nat → BitVec 32

/-- A load of a doubleword. -/
def Bss.load64 (bss : Bss) (index : Nat) : BitVec 64 := bss (index + 1) ++ bss index

/-- A store of a doubleword. -/
def Bss.store64 (bss : Bss) (index : Nat) (value : BitVec 64) : Bss :=
  Function.update (Function.update bss index (value.extractLsb' 0 32)) (index + 1)
    (value.extractLsb' 32 32)

/-- Where the linker has put the variables, in words from `_bss` on. -/
structure BssLayout where
  size : Nat
  envReady : Nat
  /-- `g_wake_up[1]`, two words -/
  wakeUp : Nat
  /-- `core1_instance`: `callback` and `ctx`, two words each -/
  core1Instance : Nat
  envReady_lt : envReady < size
  wakeUp_lt : wakeUp + 1 < size
  core1Instance_lt : core1Instance + 3 < size
  envReady_wakeUp : envReady < wakeUp ∨ wakeUp + 1 < envReady
  envReady_core1Instance : envReady < core1Instance ∨ core1Instance + 3 < envReady
  wakeUp_core1Instance : wakeUp + 1 < core1Instance ∨ core1Instance + 3 < wakeUp

namespace BringUp

/-! ### The code -/

/-- What core 0 stores. -/
inductive InitOp
  /-- `*dst++ = 0` -/
  | clear (index : Nat)
  /-- `env_ready = 1` -/
  | setEnvReady
  /-- `core1_instance.callback = func` -/
  | storeCallback (func : BitVec 64)
  /-- `core1_instance.ctx = ctx` -/
  | storeCtx (ctx : BitVec 64)
  /-- `g_wake_up[core_id] = 1` -/
  | wakeCore1
  deriving DecidableEq

/-- What core 1 loads. -/
inductive PollOp
  /-- `while (env_ready == 0)` -/
  | pollEnvReady
  /-- `while (!g_wake_up[core_id])` -/
  | pollWakeUp
  /-- `if (core1_instance.callback != NULL)` -/
  | testCallback
  /-- The argument `core1_instance.ctx` -/
  | loadCtx
  /-- The call of `core1_instance.callback` -/
  | callCallback
  deriving DecidableEq

def initBss (size : Nat) : List InitOp := (List.range size).map .clear

def registerCore1 (func ctx : BitVec 64) : List InitOp :=
  if func = 0 then [] else [.storeCallback func, .storeCtx ctx, .wakeCore1]

/-- `_init_bsp` on core 0 up to `register_core1`; the drivers it sets up in between store nothing
in these variables. -/
def initBsp0 (size : Nat) (func ctx : BitVec 64) : List InitOp :=
  initBss size ++ ([.setEnvReady, .storeCallback 0, .storeCtx 0] ++ registerCore1 func ctx)

/-- `_init_bsp` on core 1 with `thread_entry`. -/
def initBsp1 : List PollOp :=
  [.pollEnvReady, .pollWakeUp, .testCallback, .loadCtx, .callCallback]

end BringUp

/-- The memory, what each core has still to do, and the call of core 1. -/
structure BringUp where
  bss : Bss
  core0 : List BringUp.InitOp
  core1 : List BringUp.PollOp
  argument : BitVec 64
  /-- The function that core 1 has called, and its argument. -/
  called : Option (BitVec 64 × BitVec 64)

namespace BringUp

open Schedule (follow)

variable (layout : BssLayout)

/-- A store of core 0. -/
def write (bss : Bss) : InitOp → Bss
  | .clear index => Function.update bss index 0
  | .setEnvReady => Function.update bss layout.envReady 1
  | .storeCallback func => bss.store64 layout.core1Instance func
  | .storeCtx ctx => bss.store64 (layout.core1Instance + 2) ctx
  | .wakeCore1 => bss.store64 layout.wakeUp 1

/-- A load of core 1. -/
def poll (s : BringUp) (rest : List PollOp) : PollOp → BringUp
  | .pollEnvReady => if s.bss layout.envReady = 0 then s else { s with core1 := rest }
  | .pollWakeUp => if s.bss.load64 layout.wakeUp = 0 then s else { s with core1 := rest }
  | .testCallback =>
      { s with core1 := if s.bss.load64 layout.core1Instance = 0 then [] else rest }
  | .loadCtx => { s with argument := s.bss.load64 (layout.core1Instance + 2), core1 := rest }
  | .callCallback =>
      { s with called := some (s.bss.load64 layout.core1Instance, s.argument), core1 := rest }

def step (core : Core) (s : BringUp) : Option BringUp :=
  match core with
  | .core0 =>
      match s.core0 with
      | [] => none
      | op :: rest => some { s with bss := write layout s.bss op, core0 := rest }
  | .core1 =>
      match s.core1 with
      | [] => none
      | op :: rest => some (poll layout s rest op)

/-- Both cores enter `_init_bsp`. -/
def start (func ctx : BitVec 64) (bss : Bss) : BringUp where
  bss := bss
  core0 := initBsp0 layout.size func ctx
  core1 := initBsp1
  argument := 0
  called := none

/-- **What core 1 has called** is the registered function, after its registration;
`register_core1` does not take `NULL`. -/
def Fresh (func : BitVec 64) (s : BringUp) : Prop :=
  ∀ value argument, s.called = some (value, argument) →
    func ≠ 0 ∧ .storeCallback func ∉ s.core0 ∧ value = func

end BringUp

end K210Guard
