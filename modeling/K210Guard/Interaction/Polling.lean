/-
**Programs that wait.**

A loop without a bound has no tree. A waiting program is a family of programs, one for each number
of laps that a loop may take; a loop that uses its laps up does not return, and has then come as far
as the endless run comes in as many laps.

* `Serves`: whatever the number of laps, the program keeps its promise if it returns and is safe
  where it stops if not; in a fair environment it returns the same, in the same state, for every
  number of laps that is large enough.
* `Serves.bind`, `Serves.forLoop`, `Serves.repeatUntil`: the rules for sequences and for loops. A
  loop without a bound needs an invariant, and a rank that goes down with each lap in a fair
  environment.
* `untilNext`: the time to the next of infinitely many events, which is what such a rank measures.
-/

import Mathlib.Order.Filter.AtTopBot.Basic
import Mathlib.Order.Lattice.Nat
import K210Guard.Interaction.Prog

namespace K210Guard

open Filter

/-! ### The next of infinitely many events -/

/-- How many ticks after `clock` the next event comes. -/
noncomputable def untilNext (event : Nat → Prop) (clock : Nat) : Nat :=
  sInf {ticks | event (clock + ticks)}

/-- **A tick without an event brings the next one closer.** -/
theorem untilNext_succ_lt {event : Nat → Prop} (again : ∃ᶠ clock in atTop, event clock)
    {clock : Nat} (quiet : ¬ event clock) :
    untilNext event (clock + 1) < untilNext event clock := by
  obtain ⟨later, after, happens⟩ := frequently_atTop.mp again clock
  have next : event (clock + untilNext event clock) := by
    refine Nat.sInf_mem (s := {ticks | event (clock + ticks)}) ⟨later - clock, ?_⟩
    show event (clock + (later - clock))
    rwa [Nat.add_sub_cancel' after]
  have positive : 0 < untilNext event clock := by
    refine Nat.pos_of_ne_zero fun none => quiet ?_
    rwa [none, Nat.add_zero] at next
  have closer : untilNext event (clock + 1) ≤ untilNext event clock - 1 := by
    refine Nat.sInf_le ?_
    show event (clock + 1 + (untilNext event clock - 1))
    rwa [Nat.add_assoc, Nat.add_sub_cancel' positive]
  omega

namespace Prog

variable {Op : Type} {Ans : Op → Type} {α β γ σ : Type}

/-- Repeats `body` until it gives a result, for at most `laps` laps. -/
def repeatUntil (body : γ → Prog Op Ans (γ ⊕ α)) : (laps : Nat) → γ → Prog Op Ans α
  | 0, _ => .spin
  | laps + 1, c => body c >>= fun
      | .inl next => repeatUntil body laps next
      | .inr value => pure value

/-- `for (i = start; i < start + count; i++) body(i);` -/
def forLoop (body : Nat → Prog Op Ans Unit) : (start count : Nat) → Prog Op Ans Unit
  | _, 0 => pure ()
  | start, count + 1 => body start >>= fun _ => forLoop body (start + 1) count

/-- The promise holds of a run that returned, `safe` of a run that did not. -/
def Kept (safe : σ → Prop) (promise : α → σ → Prop) : Option α × σ → Prop
  | (some value, t) => promise value t
  | (none, t) => safe t

/-- **A waiting program keeps its promise**, and returns in a fair environment. -/
structure Serves (step : σ → (op : Op) → Ans op × σ) (fair : Prop) (safe : σ → Prop) (s : σ)
    (p : Nat → Prog Op Ans α) (promise : α → σ → Prop) : Prop where
  keeps : ∀ polls, Kept safe promise (run step (p polls) s)
  settles : fair → ∃ value t, ∀ᶠ polls in atTop, run step (p polls) s = (some value, t)

namespace Serves

variable {step : σ → (op : Op) → Ans op × σ} {fair : Prop} {safe : σ → Prop} {s : σ}

theorem pure {value : α} {promise : α → σ → Prop} (holds : promise value s) :
    Serves step fair safe s (fun _ => Prog.pure value) promise :=
  ⟨fun _ => holds, fun _ => ⟨value, s, Eventually.of_forall fun _ => rfl⟩⟩

theorem perform {op : Op} {promise : Ans op → σ → Prop}
    (holds : promise (step s op).1 (step s op).2) :
    Serves step fair safe s (fun _ => Prog.perform op) promise :=
  ⟨fun _ => holds, fun _ => ⟨_, _, Eventually.of_forall fun _ => rfl⟩⟩

/-- What a run that settles returns is as promised. -/
theorem promised {p : Nat → Prog Op Ans α} {promise : α → σ → Prop} {value : α} {t : σ}
    (first : Serves step fair safe s p promise)
    (returns : ∀ᶠ polls in atTop, run step (p polls) s = (some value, t)) : promise value t := by
  obtain ⟨polls, same⟩ := returns.exists
  have kept := first.keeps polls
  rwa [same] at kept

/-- What holds at the end of every run, returned or not. -/
theorem at_end {p : Nat → Prog Op Ans α} {promise : α → σ → Prop} {P : σ → Prop}
    (serves : Serves step fair safe s p promise) (stopped : ∀ t, safe t → P t)
    (returned : ∀ value t, promise value t → P t) (polls : Nat) : P (run step (p polls) s).2 := by
  have kept := serves.keeps polls
  cases ran : run step (p polls) s with
  | mk result t =>
      rw [ran] at kept
      cases result with
      | none => exact stopped t kept
      | some value => exact returned value t kept

/-- What holds of a run that returned. -/
theorem of_returned {p : Nat → Prog Op Ans α} {promise : α → σ → Prop}
    (serves : Serves step fair safe s p promise) (polls : Nat) (value : α) (t : σ)
    (ran : run step (p polls) s = (some value, t)) : promise value t := by
  have kept := serves.keeps polls
  rwa [ran] at kept

/-- In a fair environment the program returns. -/
theorem returns {p : Nat → Prog Op Ans α} {promise : α → σ → Prop}
    (serves : Serves step fair safe s p promise) (isFair : fair) :
    ∀ᶠ polls in atTop, (run step (p polls) s).1.isSome = true := by
  obtain ⟨value, t, settled⟩ := serves.settles isFair
  exact settled.mono fun polls ran => by rw [ran]; rfl

/-- **The rule for sequences.** -/
theorem bind {p : Nat → Prog Op Ans α} {f : Nat → α → Prog Op Ans β} {between : α → σ → Prop}
    {promise : β → σ → Prop} (first : Serves step fair safe s p between)
    (rest : ∀ value t, between value t →
      Serves step fair safe t (fun polls => f polls value) promise) :
    Serves step fair safe s (fun polls => p polls >>= f polls) promise := by
  refine ⟨fun polls => ?_, fun isFair => ?_⟩
  · have kept := first.keeps polls
    cases ran : run step (p polls) s with
    | mk returned t =>
        rw [ran] at kept
        cases returned with
        | none =>
            show Kept safe promise (run step (p polls >>= f polls) s)
            rw [run_bind_of_none step ran]
            exact kept
        | some value =>
            show Kept safe promise (run step (p polls >>= f polls) s)
            rw [run_bind_of_eq step ran]
            exact (rest value t kept).keeps polls
  · obtain ⟨value, t, returns⟩ := first.settles isFair
    obtain ⟨result, last, ends⟩ := (rest value t (first.promised returns)).settles isFair
    refine ⟨result, last, (returns.and ends).mono fun polls both => ?_⟩
    exact (run_bind_of_eq step both.1).trans both.2

/-- The rule for one operation and the rest. -/
theorem andThen {op : Op} {f : Nat → Ans op → Prog Op Ans β} {promise : β → σ → Prop}
    (rest : Serves step fair safe (step s op).2 (fun polls => f polls (step s op).1) promise) :
    Serves step fair safe s (fun polls => Prog.perform op >>= f polls) promise :=
  ⟨rest.keeps, rest.settles⟩

theorem weaken {p : Nat → Prog Op Ans α} {strong promise : α → σ → Prop}
    (serves : Serves step fair safe s p strong)
    (weaker : ∀ value t, strong value t → promise value t) :
    Serves step fair safe s p promise := by
  refine ⟨fun polls => ?_, serves.settles⟩
  have kept := serves.keeps polls
  cases ran : run step (p polls) s with
  | mk returned t =>
      rw [ran] at kept
      cases returned with
      | none => exact kept
      | some value => exact weaker value t kept

/-- The rule for loops that count. -/
theorem forLoop {body : Nat → Nat → Prog Op Ans Unit} (I : Nat → σ → Prop) {start count : Nat}
    (each : ∀ i < start + count, ∀ s, I i s →
      Serves step fair safe s (fun polls => body polls i) fun _ t => I (i + 1) t)
    (first : I start s) :
    Serves step fair safe s (fun polls => Prog.forLoop (body polls) start count)
      fun _ t => I (start + count) t := by
  induction count generalizing start s with
  | zero => exact .pure first
  | succ count ih =>
      refine (each start (by omega) s first).bind fun _ t after => ?_
      rw [show start + (count + 1) = start + 1 + count by omega] at each ⊢
      exact ih each after

/-- **The rule for loops without a bound**: an invariant that makes the state safe, and a rank that
goes down with every lap. -/
theorem repeatUntil {W : Type} [LT W] [WellFoundedLT W] {body : γ → Prog Op Ans (γ ⊕ α)}
    {promise : α → σ → Prop} (I : γ → σ → Prop) (rank : γ → σ → W)
    (each : ∀ c s, I c s → Serves step fair safe s (fun _ => body c) fun
      | .inl next, t => I next t ∧ (fair → rank next t < rank c s)
      | .inr value, t => promise value t)
    (isSafe : ∀ c s, I c s → safe s) {c : γ} (start : I c s) :
    Serves step fair safe s (fun polls => Prog.repeatUntil body polls c) promise := by
  refine ⟨fun polls => ?_, fun isFair => ?_⟩
  · induction polls generalizing c s with
    | zero => exact isSafe c s start
    | succ polls ih =>
        have kept := (each c s start).keeps 0
        cases ran : run step (body c) s with
        | mk returned t =>
            rw [ran] at kept
            rw [Prog.repeatUntil]
            match returned with
            | none =>
                rw [run_bind_of_none step ran]
                exact kept
            | some (.inl next) =>
                rw [run_bind_of_eq step ran]
                exact ih kept.1
            | some (.inr value) =>
                rw [run_bind_of_eq step ran]
                exact kept
  · obtain ⟨r, atRank⟩ : ∃ r, rank c s = r := ⟨_, rfl⟩
    induction r using WellFoundedLT.induction generalizing c s with
    | ind r ih =>
        obtain ⟨outcome, t, returns⟩ := (each c s start).settles isFair
        have after := (each c s start).promised returns
        obtain ⟨polls, same⟩ := returns.exists
        cases outcome with
        | inl next =>
            obtain ⟨value, last, ends⟩ := ih _ (atRank ▸ after.2 isFair) after.1 rfl
            obtain ⟨enough, ends⟩ := eventually_atTop.mp ends
            refine ⟨value, last, eventually_atTop.mpr ⟨enough + 1, fun polls above => ?_⟩⟩
            obtain ⟨laps, rfl⟩ : ∃ laps, polls = laps + 1 := ⟨polls - 1, by omega⟩
            exact (run_bind_of_eq step same).trans (ends laps (by omega))
        | inr value =>
            refine ⟨value, t, eventually_atTop.mpr ⟨1, fun polls above => ?_⟩⟩
            obtain ⟨laps, rfl⟩ : ∃ laps, polls = laps + 1 := ⟨polls - 1, by omega⟩
            exact run_bind_of_eq step same

end Serves

end Prog

end K210Guard
