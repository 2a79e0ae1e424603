/-
**Interleavings.**

Some processes share one state. Each is a step function: what the process does in a state, or `none`
when it has come to its end. A schedule is a list of processes; `follow` lets them move in its
order, so the schedules are the interleavings.

* `follow_invariant`: what every step preserves, every interleaving preserves.
* `Along`: every step of an interleaving is taken in a state that allows it; `along_invariant` is
  the rule for these.
-/

import Mathlib.Data.List.Basic

namespace K210Guard

namespace Schedule

variable {Proc σ : Type} (step : Proc → σ → Option σ)

/-- The state after the processes of a schedule have moved one after the other; `none` when one of
them could not. -/
def follow : List Proc → σ → Option σ
  | [], s => some s
  | p :: rest, s => (step p s).bind (follow rest)

theorem follow_cons {p : Proc} {rest : List Proc} {s t : σ} (moves : step p s = some t) :
    follow step (p :: rest) s = follow step rest t := by
  rw [follow, moves]
  rfl

/-- The first step of an interleaving that goes through. -/
theorem follow_cons_inv {p : Proc} {rest : List Proc} {s t : σ}
    (runs : follow step (p :: rest) s = some t) :
    ∃ next, step p s = some next ∧ follow step rest next = some t :=
  Option.bind_eq_some_iff.mp runs

/-- One more step at the end of an interleaving. -/
theorem follow_concat {p : Proc} {schedule : List Proc} {s t u : σ}
    (runs : follow step schedule s = some t) (moves : step p t = some u) :
    follow step (schedule ++ [p]) s = some u := by
  induction schedule generalizing s with
  | nil =>
      cases runs
      exact follow_cons step moves
  | cons first rest ih =>
      obtain ⟨next, moved, runs⟩ := follow_cons_inv step runs
      rw [List.cons_append, follow_cons step moved]
      exact ih runs

/-- Every step of the interleaving is taken in a state that allows it. -/
def Along (allowed : Proc → σ → Prop) : List Proc → σ → Prop
  | [], _ => True
  | p :: rest, s => allowed p s ∧ ∀ t, step p s = some t → Along allowed rest t

/-- A schedule can be tried. -/
instance Along.decide {allowed : Proc → σ → Prop} [∀ p s, Decidable (allowed p s)] :
    (schedule : List Proc) → (s : σ) → Decidable (Along step allowed schedule s)
  | [], _ => isTrue trivial
  | p :: rest, s =>
      have _rest : Decidable (∀ t, step p s = some t → Along step allowed rest t) :=
        match _moves : step p s with
        | none => isTrue nofun
        | some t =>
            have : Decidable (Along step allowed rest t) := Along.decide rest t
            decidable_of_iff (Along step allowed rest t)
              ⟨fun along _ same => Option.some.inj same ▸ along, fun all => all t rfl⟩
      inferInstanceAs (Decidable (_ ∧ _))

variable {step}

/-- **What every allowed step preserves**, an interleaving of allowed steps preserves. -/
theorem along_invariant {allowed : Proc → σ → Prop} (I : σ → Prop)
    (each : ∀ p s t, allowed p s → step p s = some t → I s → I t) {schedule : List Proc} {s t : σ}
    (along : Along step allowed schedule s) (runs : follow step schedule s = some t)
    (start : I s) : I t := by
  induction schedule generalizing s with
  | nil =>
      cases runs
      exact start
  | cons p rest ih =>
      obtain ⟨next, moves, runs⟩ := follow_cons_inv step runs
      exact ih (along.2 next moves) runs (each p s next along.1 moves start)

theorem along_of_forall {allowed : Proc → σ → Prop} (all : ∀ p s, allowed p s)
    (schedule : List Proc) (s : σ) : Along step allowed schedule s := by
  induction schedule generalizing s with
  | nil => exact trivial
  | cons p rest ih => exact ⟨all p s, fun t _ => ih t⟩

/-- **What every step preserves**, every interleaving preserves. -/
theorem follow_invariant (I : σ → Prop) (each : ∀ p s t, step p s = some t → I s → I t)
    {schedule : List Proc} {s t : σ} (runs : follow step schedule s = some t) (start : I s) :
    I t :=
  along_invariant I (fun p s t _ => each p s t)
    (along_of_forall (fun _ _ => trivial) schedule s) runs start

end Schedule

end K210Guard
