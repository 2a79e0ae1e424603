/-
**Words and bytes of the AES driver** (`drivers/aes.c`).

`wordBytes` are the bytes of a list of words, in the order in which they lie in memory. `Does` is a
triple about the driver's memory and the engine: whatever the flags do, the program leaves the core
as promised if it returns; no look at `data_out_flag` was in vain, and the text written so far is a
prefix of what is to be written.
-/

import Mathlib.Algebra.BigOperators.Group.List.Basic
import K210Guard.Aes.Driver

namespace K210Guard

open Filter
open Prog (Serves)

namespace Aes

/-! ### Bytes of words -/

def wordBytes (words : List Word) : List Byte := words.flatMap fun word => leBytes 4 word.toNat

@[simp] theorem wordBytes_nil : wordBytes [] = [] := rfl

@[simp] theorem wordBytes_append (first second : List Word) :
    wordBytes (first ++ second) = wordBytes first ++ wordBytes second := by
  simp [wordBytes]

@[simp] theorem wordBytes_length (words : List Word) :
    (wordBytes words).length = 4 * words.length := by
  induction words with
  | nil => rfl
  | cons word rest ih =>
      have split := wordBytes_append [word] rest
      rw [List.singleton_append] at split
      rw [split, List.length_append, ih, List.length_cons]
      simp [wordBytes]
      omega

/-- Four bytes are the bytes of the word they make. -/
theorem wordBytes_singleton {bytes : List Byte} (four : bytes.length = 4) :
    wordBytes [BitVec.ofNat 32 (leNat bytes)] = bytes := by
  have exact : leBytes 4 (BitVec.ofNat 32 (leNat bytes)).toNat = leBytes 4 (leNat bytes) := by
    rw [BitVec.toNat_ofNat]
    exact leBytes_mod 4 _
  have back := leBytes_leNat bytes
  rw [four] at back
  show leBytes 4 _ ++ [] = bytes
  rw [List.append_nil, exact, back]

theorem wordBytes_wordAt (ram : Nat → Byte) (address : Nat) :
    wordBytes [wordAt ram address] = readRange ram address 4 :=
  wordBytes_singleton (readRange_length ram address 4)

/-- The words that the engine returns, from one of them on. -/
def Engine.outputs (engine : Engine) (start count : Nat) : List Word :=
  (List.range' start count).map engine.output

@[simp] theorem Engine.outputs_length (engine : Engine) (start count : Nat) :
    (engine.outputs start count).length = count := by simp [Engine.outputs]

theorem Engine.outputs_add (engine : Engine) (start first second : Nat) :
    engine.outputs start (first + second) =
      engine.outputs start first ++ engine.outputs (start + first) second := by
  rw [Engine.outputs, ← List.range'_append_1, List.map_append]
  rfl

/-! ### Triples over the core -/

/-- Both flags are raised again and again. -/
structure Engine.Fair (engine : Engine) : Prop where
  dataIn : ∃ᶠ clock in atTop, engine.dataInFlag clock ≠ 0
  dataOut : ∃ᶠ clock in atTop, engine.dataOutFlag clock ≠ 0

/-- No look at `data_out_flag` was in vain: the engine owed a word each time. -/
def Machine.Owed (m : Machine) : Prop := ∀ wait ∈ m.waits, wait.1 < wait.2

/-- What holds at any time while these bytes of text are written. -/
structure Streaming (text : List Byte) (m : Machine) : Prop where
  owed : m.Owed
  written : wordBytes m.core.text <+: text

/-- From a machine with this core, the program leaves a core as promised. -/
def Does {α : Type} (engine : Engine) (text : List Byte) (core : Core) (p : Nat → Program α)
    (promise : α → Core → Prop) : Prop :=
  ∀ m : Machine, m.core = core → m.Owed →
    Serves (Machine.step engine) engine.Fair (Streaming text) m p
      fun value t => t.Owed ∧ promise value t.core

namespace Does

variable {α β : Type} {engine : Engine} {text : List Byte} {core : Core}

theorem pure {value : α} {promise : α → Core → Prop} (holds : promise value core) :
    Does engine text core (fun _ => Prog.pure value) promise := by
  rintro m rfl owed
  exact .pure ⟨owed, holds⟩

theorem bind {p : Nat → Program α} {f : Nat → α → Program β} {between : α → Core → Prop}
    {promise : β → Core → Prop} (first : Does engine text core p between)
    (rest : ∀ value middle, between value middle →
      Does engine text middle (fun polls => f polls value) promise) :
    Does engine text core (fun polls => p polls >>= f polls) promise := by
  rintro m same owed
  exact (first m same owed).bind fun value t after => rest value t.core after.2 t rfl after.1

theorem weaken {p : Nat → Program α} {strong promise : α → Core → Prop}
    (does : Does engine text core p strong)
    (weaker : ∀ value after, strong value after → promise value after) :
    Does engine text core p promise := by
  rintro m same owed
  exact (does m same owed).weaken fun value t after => ⟨after.1, weaker value t.core after.2⟩

/-- An operation that does not depend on the clock and looks at no flag, then the rest. -/
theorem andThen {op : Op} {f : Nat → op.Ans → Program β} {promise : β → Core → Prop}
    {answer : op.Ans} {after : Core}
    (effect : ∀ clock, core.access engine clock op = (answer, after))
    (quiet : ∀ m : Machine, m.noted op = m.waits)
    (rest : Does engine text after (fun polls => f polls answer) promise) :
    Does engine text core (fun polls => Prog.perform op >>= f polls) promise := by
  rintro m rfl owed
  have step : Machine.step engine m op = (answer, ⟨after, m.clock + 1, m.waits⟩) := by
    rw [Machine.step, effect, quiet]
  refine Serves.andThen ?_
  rw [step]
  exact rest _ rfl owed

/-- The last operation. -/
theorem perform {op : Op} {promise : op.Ans → Core → Prop} {answer : op.Ans} {after : Core}
    (effect : ∀ clock, core.access engine clock op = (answer, after))
    (quiet : ∀ m : Machine, m.noted op = m.waits) (holds : promise answer after) :
    Does engine text core (fun _ => Prog.perform op) promise :=
  andThen effect quiet (pure holds)

theorem forLoop {body : Nat → Nat → Program Unit} (I : Nat → Core → Prop) {count : Nat}
    (each : ∀ i < count, ∀ c, I i c →
      Does engine text c (fun polls => body polls i) fun _ after => I (i + 1) after)
    (first : I 0 core) :
    Does engine text core (fun polls => Prog.forLoop (body polls) 0 count)
      fun _ after => I count after := by
  rintro m rfl owed
  refine (Serves.forLoop (fun i t => t.Owed ∧ I i t.core) ?_ ⟨owed, first⟩).weaken ?_
  · rintro i below s ⟨owed, holds⟩
    exact each i (by omega) s.core holds s rfl owed
  · rintro _ t ⟨owed, holds⟩
    exact ⟨owed, Nat.zero_add count ▸ holds⟩

/-- **Waiting for a flag** that goes up again and again leaves the core as it is. -/
theorem waitFlag {flag : Register} (raised : Nat → Word)
    (look : ∀ clock, core.access engine clock (.read flag) = (raised clock, core))
    (inTime : ∀ m : Machine, m.core = core → m.Owed → (m.step engine (.read flag)).2.Owed)
    (again : engine.Fair → ∃ᶠ clock in atTop, raised clock ≠ 0)
    (written : wordBytes core.text <+: text) :
    Does engine text core (fun polls => Aes.waitFlag flag polls ())
      fun _ after => after = core := by
  rintro m same owed
  refine Serves.repeatUntil (fun _ t => t.Owed ∧ t.core = core)
    (fun _ t => untilNext (raised · ≠ 0) t.clock) ?_
    (fun _ t invariant => ⟨invariant.1, by rw [invariant.2]; exact written⟩) ⟨owed, same⟩
  rintro _ t ⟨owed, rfl⟩
  have later := inTime t rfl owed
  refine Serves.andThen ?_
  have answer : (t.step engine (.read flag)).1 = raised t.clock := congrArg Prod.fst (look t.clock)
  have unmoved : (t.step engine (.read flag)).2.core = t.core := congrArg Prod.snd (look t.clock)
  rw [answer]
  by_cases low : raised t.clock = 0
  · rw [if_pos low]
    exact .pure ⟨⟨later, unmoved⟩, fun isFair => untilNext_succ_lt (again isFair) (not_not.mpr low)⟩
  · rw [if_neg low]
    exact .pure ⟨later, unmoved⟩

theorem waitDataIn (written : wordBytes core.text <+: text) :
    Does engine text core (fun polls => Aes.waitFlag .dataInFlag polls ())
      fun _ after => after = core :=
  waitFlag engine.dataInFlag (fun _ => rfl) (fun _ _ owed => owed) (fun isFair => isFair.dataIn)
    written

/-- The engine owes a word, so its flag will go up. -/
theorem waitDataOut (owes : core.taken < core.text.length)
    (written : wordBytes core.text <+: text) :
    Does engine text core (fun polls => Aes.waitFlag .dataOutFlag polls ())
      fun _ after => after = core := by
  refine waitFlag engine.dataOutFlag (fun clock => ?_) ?_ (fun isFair => isFair.dataOut) written
  · show (if _ then _ else _, core) = _
    rw [if_pos owes]
  · rintro m rfl owed wait noted
    rcases List.mem_append.mp noted with before | now
    · exact owed wait before
    · rw [List.mem_singleton.mp now]
      exact owes

end Does

end Aes

end K210Guard
