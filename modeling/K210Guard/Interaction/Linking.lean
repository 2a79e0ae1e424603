/-
**What a program leaves alone.**

* `Keeps` — a run leaves a view of the state as it was, also when it never returns.
* `Keeps.bind`, `Keeps.of_issues` — the rules for sequences and for programs that ask operations of
  one kind only.
* `Keeps.interpret` — the rule for linking: where the calls of a program are carried out by other
  programs, it is enough that those keep the view that are called.
-/

import K210Guard.Interaction.Prog

namespace K210Guard

namespace Prog

variable {Op Op' : Type} {Ans : Op → Type} {Ans' : Op' → Type} {α β γ σ : Type}

theorem Issues.mono {G H : Op → Prop} {p : Prog Op Ans α} (weaker : ∀ op, G op → H op)
    (issues : Issues G p) : Issues H p := by
  induction issues with
  | pure value => exact .pure value
  | ask op next allowed _ ih => exact .ask op next (weaker op allowed) ih
  | spin => exact .spin

/-- A run leaves a view of the state alone. -/
def Keeps (step : σ → (op : Op) → Ans op × σ) (view : σ → γ) (p : Prog Op Ans α) : Prop :=
  ∀ s, view (run step p s).2 = view s

namespace Keeps

variable {step : σ → (op : Op) → Ans op × σ} {view : σ → γ}

theorem pure (value : α) : Keeps step view (.pure value : Prog Op Ans α) := fun _ => rfl

theorem spin : Keeps step view (.spin : Prog Op Ans α) := fun _ => rfl

theorem of_issues {G : Op → Prop} (each : ∀ s op, G op → view (step s op).2 = view s)
    {p : Prog Op Ans α} (issues : Issues G p) : Keeps step view p := issues.frame each

/-- The second part may count on what the first one leaves behind. -/
theorem bind_of {p : Prog Op Ans α} {f : α → Prog Op Ans β} (first : Keeps step view p)
    (rest : ∀ s value t, run step p s = (some value, t) → view (run step (f value) t).2 = view t) :
    Keeps step view (p >>= f) := by
  intro s
  have before := first s
  cases ran : run step p s with
  | mk returned t =>
      rw [ran] at before
      cases returned with
      | none => rwa [run_bind_of_none step ran]
      | some value =>
          rw [run_bind_of_eq step ran, rest s value t ran]
          exact before

/-- **The rule for sequences.** -/
theorem bind {p : Prog Op Ans α} {f : α → Prog Op Ans β} (first : Keeps step view p)
    (rest : ∀ value, Keeps step view (f value)) : Keeps step view (p >>= f) :=
  first.bind_of fun _ value t _ => rest value t

/-- **The rule for linking.** -/
theorem interpret {step : σ → (op : Op') → Ans' op × σ} {G : Op → Prop}
    {serve : (op : Op) → Prog Op' Ans' (Ans op)}
    (each : ∀ op, G op → Keeps step view (serve op)) {p : Prog Op Ans α} (issues : Issues G p) :
    Keeps step view (p.interpret serve) := by
  induction issues with
  | pure value => exact pure value
  | ask op next allowed _ ih => exact (each op allowed).bind ih
  | spin => exact spin

end Keeps

end Prog

end K210Guard
