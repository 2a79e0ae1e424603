/-
**When a wake-up is lost.**

`go_boot` sends its IPI without knowing where core 1 is. Only a core that already waits in `wfi`
keeps what the IPI does: sent before, it is wiped out by `clint_ipi_clear` or taken by the handler
before the `wfi`, and core 1 waits for another.

* `Unsent`: what holds until the IPI is sent; `Sent`: what holds afterwards when core 1 was waiting.
* `no_lost_wakeUp`: runs that send only to a waiting core never lose the wake-up, and after any
  other send the cores can still run into the lost wake-up.
-/

import Mathlib.Tactic.IntervalCases
import K210Guard.Cores.HandOff

namespace K210Guard

namespace HandOff

open Schedule (follow Along)

/-! ### Until the IPI is sent -/

/-- Where core 1 is on its way to the end of its `wfi`, as long as no IPI has come. -/
inductive Place (s : HandOff) : Prop
  | polling (here : s.core1 = core1Start) (masked : s.mieMsip = false)
  | testing (here : s.core1 = [.testCallback]) (masked : s.mieMsip = false)
  | calling (here : s.core1 = [.callCallback]) (masked : s.mieMsip = false)
  | starting (count : Nat) (few : count ≤ 3) (here : s.core1 = core1Entry.drop count)
      (masked : s.mieMsip = false)
  | clearing (here : s.core1 = .clearMsip :: core1Entry.drop 4) (masked : s.mieMsip = false)
  | enabling (here : s.core1 = core1Entry.drop 4) (masked : s.mieMsip = false)
      (clear : s.msip = false)
  | unmasking (here : s.core1 = core1Entry.drop 5) (masked : s.mieMsip = false)
      (interrupts : s.mstatusMie = true) (clear : s.msip = false)
  | ready (here : s.core1 = .wfi :: afterWfi) (enabled : s.mieMsip = true)
      (interrupts : s.mstatusMie = true) (clear : s.msip = false)
  | waiting (here : s.core1 = .waiting :: afterWfi) (enabled : s.mieMsip = true)
      (interrupts : s.mstatusMie = true) (clear : s.msip = false)

theorem interrupted_of_masked {s : HandOff} (masked : s.mieMsip = false) :
    s.interrupted = false := by
  rw [interrupted, masked, Bool.and_false, Bool.false_and]

theorem interrupted_of_clear {s : HandOff} (clear : s.msip = false) : s.interrupted = false := by
  rw [interrupted, clear, Bool.and_false]

/-- With nothing to take, core 1 makes its next access. -/
theorem step1_of_quiet {s : HandOff} {op : Core1Op} {rest : List Core1Op}
    (here : s.core1 = op :: rest) (quiet : s.interrupted = false) :
    s.step1 = some (s.access rest op) := by
  unfold step1
  rw [here]
  cases op <;> simp only [quiet, Bool.false_eq_true, if_false]

/-- **Until the IPI is sent, core 1 stays on its way.** -/
theorem Place.step {s t : HandOff} (place : s.Place) (stored : s.callback = some core1Entry)
    (moves : s.step1 = some t) : t.Place := by
  have next {op : Core1Op} {rest : List Core1Op} (here : s.core1 = op :: rest)
      (quiet : s.interrupted = false) : s.access rest op = t := by
    rw [step1_of_quiet here quiet] at moves
    exact Option.some.inj moves
  cases place with
  | polling here masked =>
      rw [← next here (interrupted_of_masked masked)]
      show (if s.wakeUp then _ else s : HandOff).Place
      split
      · exact .testing rfl masked
      · exact .polling here masked
  | testing here masked =>
      rw [← next here (interrupted_of_masked masked)]
      exact .calling (by simp [access, stored]) masked
  | calling here masked =>
      rw [← next here (interrupted_of_masked masked)]
      exact .starting 0 (by decide) (by simp [access, stored]) masked
  | starting count few here masked =>
      have quiet := interrupted_of_masked masked
      interval_cases count
      · rw [← next here quiet]
        exact .starting 1 (by decide) rfl rfl
      · rw [← next here quiet]
        exact .starting 2 (by decide) rfl masked
      · rw [← next here quiet]
        exact .starting 3 (by decide) rfl masked
      · rw [← next here quiet]
        cases pending : s.msip with
        | true => exact .clearing (by simp [access, pending]; rfl) masked
        | false => exact .enabling (by simp [access, pending]; rfl) masked pending
  | clearing here masked =>
      rw [← next here (interrupted_of_masked masked)]
      exact .enabling rfl masked rfl
  | enabling here masked clear =>
      rw [← next here (interrupted_of_masked masked)]
      exact .unmasking rfl masked rfl clear
  | unmasking here masked interrupts clear =>
      rw [← next here (interrupted_of_masked masked)]
      exact .ready rfl rfl interrupts clear
  | ready here enabled interrupts clear =>
      rw [← next here (interrupted_of_clear clear)]
      exact .waiting rfl enabled interrupts clear
  | waiting here enabled interrupts clear =>
      have stays : s.access afterWfi .waiting = s := by simp [access, clear]
      rw [← next here (interrupted_of_clear clear), stays]
      exact .waiting here enabled interrupts clear

/-- On its way core 1 does not set the flag. -/
theorem Place.no_jump {s : HandOff} (place : s.Place) {op : Core1Op} {rest : List Core1Op}
    (here : s.core1 = op :: rest) : op ≠ .setJumpFlag := by
  rintro rfl
  cases place with
  | starting count few place =>
      interval_cases count
      all_goals
        rw [place] at here
        cases here
  | _ place =>
      rw [place] at here
      cases here

/-- Core 0 has no part in the way of core 1. -/
theorem Place.move0 {s : HandOff} (place : s.Place) (rest : List Core0Op) :
    Place { s with core0 := rest } := by
  cases place with
  | polling here masked => exact .polling here masked
  | testing here masked => exact .testing here masked
  | calling here masked => exact .calling here masked
  | starting count few here masked => exact .starting count few here masked
  | clearing here masked => exact .clearing here masked
  | enabling here masked clear => exact .enabling here masked clear
  | unmasking here masked interrupts clear => exact .unmasking here masked interrupts clear
  | ready here enabled interrupts clear => exact .ready here enabled interrupts clear
  | waiting here enabled interrupts clear => exact .waiting here enabled interrupts clear

/-! ### What a step can do -/

/-- **What a step of core 1 can do**: its next access, or the trap. -/
theorem step1_cases {s t : HandOff} (moves : s.step1 = some t) :
    ∃ op rest, s.core1 = op :: rest ∧
      (t = s.access rest op ∨ op ≠ .waiting ∧ t = s.trap) := by
  unfold step1 at moves
  split at moves
  · cases moves
  · rename_i rest here
    exact ⟨_, rest, here, Or.inl (Option.some.inj moves).symm⟩
  · rename_i op rest other here
    refine ⟨op, rest, here, ?_⟩
    split at moves
    · exact Or.inr ⟨other, (Option.some.inj moves).symm⟩
    · exact Or.inl (Option.some.inj moves).symm

/-- An access of core 1 leaves the variables of core 0 alone, and no callback appears. -/
theorem access_frame (s : HandOff) (rest : List Core1Op) (op : Core1Op) :
    (s.access rest op).core0 = s.core0 ∧ (s.access rest op).callback = s.callback ∧
      (s.access rest op).wakeUp = s.wakeUp ∧
      (s.ipiCallback = none → (s.access rest op).ipiCallback = none) ∧
      (op ≠ .setJumpFlag → (s.access rest op).jumpFlag = s.jumpFlag) := by
  cases op with
  | pollWakeUp | waiting =>
      unfold access
      dsimp only
      split
      · exact ⟨rfl, rfl, rfl, id, fun _ => rfl⟩
      · exact ⟨rfl, rfl, rfl, id, fun _ => rfl⟩
  | nullIpiCallback => exact ⟨rfl, rfl, rfl, fun _ => rfl, fun _ => rfl⟩
  | setJumpFlag => exact ⟨rfl, rfl, rfl, id, fun other => absurd rfl other⟩
  | _ => exact ⟨rfl, rfl, rfl, id, fun _ => rfl⟩

theorem step1_frame {s t : HandOff} (moves : s.step1 = some t) :
    t.core0 = s.core0 ∧ t.callback = s.callback ∧ t.wakeUp = s.wakeUp ∧
      (s.ipiCallback = none → t.ipiCallback = none) ∧
      (s.core1.head? ≠ some .setJumpFlag → t.jumpFlag = s.jumpFlag) := by
  obtain ⟨op, rest, here, rfl | ⟨_, rfl⟩⟩ := step1_cases moves
  · obtain ⟨core0, callback, wakeUp, ipi, jump⟩ := s.access_frame rest op
    refine ⟨core0, callback, wakeUp, ipi, fun other => jump fun same => other ?_⟩
    rw [here, same]
    rfl
  · exact ⟨rfl, rfl, rfl, id, fun _ => rfl⟩

/-- A step of core 0 that does not send the IPI touches nothing of core 1. -/
theorem step0_frame {s t : HandOff} (moves : s.step0 = some t) (holds : ¬ s.Sends) :
    t.core0 ⊆ s.core0 ∧ t.core1 = s.core1 ∧ t.msip = s.msip ∧ t.ipiCallback = s.ipiCallback := by
  unfold step0 at moves
  split at moves
  case h_1 => cases moves
  case h_6 here => exact absurd (congrArg List.head? here) holds
  case h_7 here =>
    cases moves
    refine ⟨?_, rfl, rfl, rfl⟩
    dsimp only
    split
    · exact here ▸ List.subset_cons_self _ _
    · exact List.Subset.refl _
  all_goals
    rename_i here
    cases moves
    exact ⟨here ▸ List.subset_cons_self _ _, rfl, rfl, rfl⟩

/-- The sending. -/
theorem step0_sends {s t : HandOff} (here : s.core0 = goBoot0) (moves : s.step0 = some t) :
    t = { s with msip := true, core0 := [.spinJumpFlag] } := by
  unfold step0 at moves
  rw [here] at moves
  exact (Option.some.inj moves).symm

/-- It is over then. -/
theorem sent_spinning : Core0Op.sendMsip ∉ [Core0Op.spinJumpFlag] := by decide

/-! ### Until the IPI is sent -/

/-- The IPI has not been sent: core 1 polls until it is woken, then it goes its way. -/
inductive Unsent (s : HandOff) : Prop
  | registering (count : Nat) (few : count ≤ 2) (here : s.core0 = main0.drop count)
      (stored : 0 < count → s.callback = some core1Entry) (quiet : s.wakeUp = false)
      (polling : s.core1 = core1Start) (masked : s.mieMsip = false) (ipi : s.ipiCallback = none)
      (stays : s.jumpFlag = false)
  | woken (here : s.core0 = main0.drop 3 ∨ s.core0 = goBoot0)
      (stored : s.callback = some core1Entry) (woken : s.wakeUp = true) (place : s.Place)
      (ipi : s.ipiCallback = none) (stays : s.jumpFlag = false)

theorem unsent_start (msip mstatusMie mstatusMpie : Bool) :
    (start msip mstatusMie mstatusMpie).Unsent :=
  .registering 0 (by decide) rfl (fun positive => absurd positive (by decide)) rfl rfl rfl rfl rfl

/-- **A step that is not the sending of the IPI** leaves it unsent. -/
theorem Unsent.step {s t : HandOff} (unsent : s.Unsent) {core : Core} (moves : s.step core = some t)
    (holds : core = .core0 → ¬ s.Sends) : t.Unsent := by
  cases unsent with
  | registering count few here stored quiet polling masked ipi stays =>
      cases core with
      | core0 =>
          change s.step0 = some t at moves
          unfold step0 at moves
          interval_cases count
          · rw [here] at moves
            cases moves
            exact .registering 1 (by decide) rfl (fun _ => rfl) quiet polling masked ipi stays
          · rw [here] at moves
            cases moves
            exact .registering 2 (by decide) rfl (fun _ => stored (by decide)) quiet polling masked
              ipi stays
          · rw [here] at moves
            cases moves
            exact .woken (Or.inl rfl) (stored (by decide)) rfl (.polling polling masked) ipi stays
      | core1 =>
          change s.step1 = some t at moves
          rw [step1_of_quiet polling (interrupted_of_masked masked)] at moves
          have same : s.access [.testCallback] .pollWakeUp = s := by simp [access, quiet]
          rw [same] at moves
          cases moves
          exact .registering count few here stored quiet polling masked ipi stays
  | woken here stored woken place ipi stays =>
      cases core with
      | core0 =>
          rcases here with here | here
          · change s.step0 = some t at moves
            unfold step0 at moves
            rw [here] at moves
            cases moves
            exact .woken (Or.inr rfl) stored woken (place.move0 _) ipi stays
          · exact absurd (congrArg List.head? here) (holds rfl)
      | core1 =>
          obtain ⟨core0, callback, wakeUp, none', jump⟩ := step1_frame moves
          obtain ⟨op, rest, head, _⟩ := step1_cases moves
          have unset : s.core1.head? ≠ some .setJumpFlag := by
            rw [head]
            exact fun same => place.no_jump head (Option.some.inj same)
          exact .woken (core0 ▸ here) (callback ▸ stored) (wakeUp ▸ woken)
            (place.step stored moves) (none' ipi) ((jump unset).trans stays)

/-- When it is about to be sent, core 1 is on its way. -/
theorem Unsent.sends {s : HandOff} (unsent : s.Unsent) (sends : s.Sends) :
    s.core0 = goBoot0 ∧ s.callback = some core1Entry ∧ s.wakeUp = true ∧ s.Place ∧
      s.ipiCallback = none ∧ s.jumpFlag = false := by
  cases unsent with
  | registering count few here =>
      interval_cases count
      all_goals
        rw [Sends, here] at sends
        cases sends
  | woken here stored woken place ipi stays =>
      rcases here with here | here
      · rw [Sends, here] at sends
        cases sends
      · exact ⟨here, stored, woken, place, ipi, stays⟩

/-- Nothing is lost as long as core 0 does not spin. -/
theorem Unsent.not_lost {s : HandOff} (unsent : s.Unsent) : ¬ s.Lost := by
  rintro ⟨spins, _⟩
  cases unsent with
  | registering count few here =>
      interval_cases count
      all_goals
        rw [Spins, here] at spins
        cases spins
  | woken here =>
      rcases here with here | here
      all_goals
        rw [Spins, here] at spins
        cases spins

/-! ### After an IPI to a waiting core -/

/-- No wait and nothing that leads to one. -/
def plain : Core1Op → Bool
  | .pollWakeUp | .testCallback | .callCallback | .wfi | .waiting => false
  | _ => true

/-- Core 1 has its wait behind it. -/
def Settled (ops : List Core1Op) : Prop := ∀ op ∈ ops, plain op = true

instance (ops : List Core1Op) : Decidable (Settled ops) :=
  inferInstanceAs (Decidable (∀ op ∈ ops, plain op = true))

theorem settled_cons {op : Core1Op} {rest : List Core1Op} :
    Settled (op :: rest) ↔ plain op = true ∧ Settled rest := List.forall_mem_cons

theorem settled_append {first second : List Core1Op} (settled : Settled first)
    (rest : Settled second) : Settled (first ++ second) := by
  intro op member
  rcases List.mem_append.mp member with member | member
  · exact settled op member
  · exact rest op member

theorem settled_afterWfi : Settled afterWfi := by decide

theorem settled_handler : Settled handleIrqMSoft := by decide

/-- The IPI has been sent to a core that was waiting: it is still pending there, or the wait is
over. -/
structure Sent (s : HandOff) : Prop where
  sent : .sendMsip ∉ s.core0
  ipi : s.ipiCallback = none
  place : s.core1 = .waiting :: afterWfi ∧ s.msip = true ∨ Settled s.core1

/-- Behind its wait, core 1 stays behind it. -/
theorem settled_access {s : HandOff} {op : Core1Op} {rest : List Core1Op}
    (settled : Settled (op :: rest)) (ipi : s.ipiCallback = none) :
    Settled (s.access rest op).core1 := by
  obtain ⟨here, after⟩ := settled_cons.mp settled
  cases op with
  | pollWakeUp | testCallback | callCallback | wfi | waiting => cases here
  | testMsip =>
      show Settled (if s.msip then .clearMsip :: rest else rest)
      split
      · exact settled_cons.mpr ⟨rfl, after⟩
      · exact after
  | callIpiCallback =>
      show Settled (s.ipiCallback.getD [] ++ rest)
      rw [ipi]
      exact after
  | _ => exact after

/-- **After a send to a waiting core**, every step keeps the wake-up. -/
theorem Sent.step {s t : HandOff} (sent : s.Sent) {core : Core} (moves : s.step core = some t) :
    t.Sent := by
  cases core with
  | core0 =>
      have holds : ¬ s.Sends := fun sends => sent.sent (List.mem_of_mem_head? sends)
      obtain ⟨shrinks, core1, msip, ipi⟩ := step0_frame moves holds
      exact ⟨fun member => sent.sent (shrinks member), ipi ▸ sent.ipi,
        by rw [core1, msip]; exact sent.place⟩
  | core1 =>
      obtain ⟨core0, _, _, ipi, _⟩ := step1_frame moves
      refine ⟨core0 ▸ sent.sent, ipi sent.ipi, ?_⟩
      obtain ⟨op, rest, here, rfl | ⟨awake, rfl⟩⟩ := step1_cases moves
      · rcases sent.place with ⟨waits, pending⟩ | settled
        · rw [waits] at here
          cases here
          unfold access
          dsimp only
          split
          · exact Or.inr settled_afterWfi
          · exact Or.inl ⟨waits, pending⟩
        · exact Or.inr (settled_access (here ▸ settled) sent.ipi)
      · rcases sent.place with ⟨waits, _⟩ | settled
        · rw [waits] at here
          cases here
          exact absurd rfl awake
        · exact Or.inr (settled_append settled_handler settled)

theorem Sent.not_lost {s : HandOff} (sent : s.Sent) : ¬ s.Lost := by
  rintro ⟨_, waits, clear⟩
  rcases sent.place with ⟨_, pending⟩ | settled
  · rw [clear] at pending
    cases pending
  · cases settled .waiting (List.mem_of_mem_head? waits)

/-! ### Where the IPI is lost -/

/-- Core 0 sends only while core 1 waits. -/
def SendsToWaiting (core : Core) (s : HandOff) : Prop := core = .core0 → s.Sends → s.Waits

instance (core : Core) (s : HandOff) : Decidable (SendsToWaiting core s) :=
  inferInstanceAs (Decidable (core = .core0 → s.core0.head? = some .sendMsip → s.Waits))

/-- Both cores have moved for the last time. -/
def Halted (s : HandOff) : Prop := s.step .core0 = some s ∧ s.step .core1 = some s

instance (s : HandOff) : Decidable s.Halted := inferInstanceAs (Decidable (_ = _ ∧ _ = _))

/-- After core 0 has moved, core 1 alone brings the cores into the lost wake-up, which no step
leaves. -/
def losesAlone (s : HandOff) : Bool :=
  (follow step (.core0 :: List.replicate 24 .core1) s).any fun t => decide (t.Lost ∧ t.Halted)

/-- **An IPI that comes before the wait is lost.** -/
theorem Place.loses {s : HandOff} (place : s.Place) (early : ¬ s.Waits) (sends : s.core0 = goBoot0)
    (stored : s.callback = some core1Entry) (woken : s.wakeUp = true) (ipi : s.ipiCallback = none)
    (stays : s.jumpFlag = false) : s.losesAlone = true := by
  obtain ⟨callback, wakeUp, jumpFlag, msip, ipiCallback, mieMsip, mstatusMie, mstatusMpie, core0,
    core1⟩ := s
  subst sends stored woken ipi stays
  cases place with
  | polling here masked | testing here masked | calling here masked | clearing here masked =>
      subst here masked
      revert msip mstatusMie mstatusMpie
      decide
  | starting count few here masked =>
      subst here masked
      revert msip mstatusMie mstatusMpie
      interval_cases count
      all_goals decide
  | enabling here masked clear =>
      subst here masked clear
      revert mstatusMie mstatusMpie
      decide
  | unmasking here masked interrupts clear =>
      subst here masked interrupts clear
      revert mstatusMpie
      decide
  | ready here enabled interrupts clear =>
      subst here enabled interrupts clear
      revert mstatusMpie
      decide
  | waiting here => exact absurd (congrArg List.head? here) early

/-! ### Whole runs -/

section Runs

variable {msip mstatusMie mstatusMpie : Bool} {schedule : List Core}

/-- In every run the IPI is unsent until core 0 has moved past its sending. -/
theorem unsent_or_sent {s : HandOff}
    (runs : follow step schedule (start msip mstatusMie mstatusMpie) = some s) :
    s.Unsent ∨ .sendMsip ∉ s.core0 := by
  refine Schedule.follow_invariant (fun s => s.Unsent ∨ .sendMsip ∉ s.core0)
    (fun core before after moves kept => ?_) runs (Or.inl (unsent_start _ _ _))
  rcases kept with unsent | sent
  · by_cases sends : core = .core0 ∧ before.Sends
    · obtain ⟨rfl, sends⟩ := sends
      rw [step0_sends (unsent.sends sends).1 moves]
      exact Or.inr sent_spinning
    · exact Or.inl (unsent.step moves fun core0 now => sends ⟨core0, now⟩)
  · cases core with
    | core0 =>
        have holds : ¬ before.Sends := fun now => sent (List.mem_of_mem_head? now)
        exact Or.inr fun member => sent ((step0_frame moves holds).1 member)
    | core1 => exact Or.inr (by rwa [(step1_frame moves).1])

/-- A run that sends only to a waiting core never loses the wake-up. -/
theorem not_lost_along {t : HandOff}
    (prompt : Along step SendsToWaiting schedule (start msip mstatusMie mstatusMpie))
    (runs : follow step schedule (start msip mstatusMie mstatusMpie) = some t) : ¬ t.Lost := by
  have kept : t.Unsent ∨ t.Sent := by
    refine Schedule.along_invariant (fun s => s.Unsent ∨ s.Sent)
      (fun core before after allowed moves kept => ?_) prompt runs (Or.inl (unsent_start _ _ _))
    rcases kept with unsent | sent
    · by_cases sends : core = .core0 ∧ before.Sends
      · obtain ⟨rfl, sends⟩ := sends
        obtain ⟨here, _, _, place, ipi, _⟩ := unsent.sends sends
        have waits : before.core1 = .waiting :: afterWfi := by
          have head := allowed rfl sends
          cases place with
          | waiting here => exact here
          | starting count few here =>
              interval_cases count
              all_goals
                rw [Waits, here] at head
                cases head
          | _ here =>
              rw [Waits, here] at head
              cases head
        rw [step0_sends here moves]
        exact Or.inr ⟨sent_spinning, ipi, Or.inl ⟨waits, rfl⟩⟩
      · exact Or.inl (unsent.step moves fun core0 now => sends ⟨core0, now⟩)
    · exact Or.inr (sent.step moves)
  rcases kept with unsent | sent
  · exact unsent.not_lost
  · exact sent.not_lost

/-- After any other send the cores can still run into it, and then nothing moves any more. -/
theorem lost_after_early {s : HandOff}
    (runs : follow step schedule (start msip mstatusMie mstatusMpie) = some s) (sends : s.Sends)
    (early : ¬ s.Waits) :
    ∃ more t, follow step (.core0 :: more) s = some t ∧ t.Lost ∧ t.Halted := by
  rcases unsent_or_sent runs with unsent | sent
  · obtain ⟨here, stored, woken, place, ipi, stays⟩ := unsent.sends sends
    have loses := place.loses early here stored woken ipi stays
    obtain ⟨t, reached, lost⟩ := (Option.any_eq_true _ _).mp loses
    exact ⟨_, t, reached, of_decide_eq_true lost⟩
  · exact absurd (List.mem_of_mem_head? sends) sent

end Runs

/-- **When no wake-up is lost**: in every run that sends the IPI only while core 1 waits in `wfi`. A
run that sends it at any other moment can be continued to the lost wake-up, for good. -/
theorem no_lost_wakeUp (msip mstatusMie mstatusMpie : Bool) :
    (∀ schedule t, Along step SendsToWaiting schedule (start msip mstatusMie mstatusMpie) →
        follow step schedule (start msip mstatusMie mstatusMpie) = some t → ¬ t.Lost) ∧
      ∀ schedule s, follow step schedule (start msip mstatusMie mstatusMpie) = some s →
        s.Sends → ¬ s.Waits →
        ∃ more t, follow step (.core0 :: more) s = some t ∧ t.Lost ∧ t.Halted :=
  ⟨fun _ _ prompt runs => not_lost_along prompt runs,
    fun _ _ runs sends early => lost_after_early runs sends early⟩

/-- Core 1 comes to its `wfi` before core 0 sends the IPI. -/
def promptRun : List Core :=
  List.replicate 4 .core0 ++ List.replicate 10 .core1 ++ [.core0] ++ List.replicate 16 .core1 ++
    [.core0]

/-- Sent while core 1 waits, the IPI lets both cores through. -/
theorem no_lost_wakeUp_prompt :
    Along step SendsToWaiting promptRun (start false false false) ∧
      ∃ t, follow step promptRun (start false false false) = some t ∧
        t.core0.isEmpty = true ∧ t.core1.isEmpty = true ∧ ¬ t.Lost := by
  have prompt : Along step SendsToWaiting promptRun (start false false false) := by decide
  have through : ((follow step promptRun (start false false false)).any fun t =>
      t.core0.isEmpty && t.core1.isEmpty) = true := by decide
  obtain ⟨t, reached, ended⟩ := (Option.any_eq_true _ _).mp through
  obtain ⟨first, second⟩ := Bool.and_eq_true_iff.mp ended
  exact ⟨prompt, t, reached, first, second,
    (no_lost_wakeUp false false false).1 promptRun t prompt reached⟩

/-- Core 0 goes ahead and sends the IPI before core 1 has looked at its wake-up. -/
theorem wakeUp_lost : ∃ schedule t,
    follow step schedule (start false false false) = some t ∧ t.Lost ∧ t.Halted := by
  refine ⟨List.replicate 5 .core0 ++ List.replicate 12 .core1, ?_⟩
  have lost : ((follow step (List.replicate 5 .core0 ++ List.replicate 12 .core1)
      (start false false false)).any fun t => decide (t.Lost ∧ t.Halted)) = true := by decide
  obtain ⟨t, reached, lost⟩ := (Option.any_eq_true _ _).mp lost
  exact ⟨t, reached, of_decide_eq_true lost⟩

end HandOff

end K210Guard
