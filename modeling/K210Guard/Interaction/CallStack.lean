/-
**A stack of interrupted computations.**

A frame on top of the stack runs on some registers `R` and will give them back to what it
interrupted in a way that is fixed when it is pushed: its level `L`. `At frame regs level` says that
the frame, running on `regs`, is on its way back to `level`; `Resumes level regs` says which
registers the interrupted computation goes on with. A stack is `Stacked` when every frame on it is
on such a way, down to a bottom part of the stack that is reached with registers in `P`.

* `Stacked.top`, `Stacked.pop`, `Stacked.regs`: what a step of the top frame, its return and a
  change of the registers keep.
* `Stacked.interrupt`: the rule for a new frame.
* `Stacked.returned`: once the frames above the bottom part are gone, the registers are in `P`.
-/

import Mathlib.Data.List.Basic

namespace K210Guard

variable {F R L : Type} (At : F → R → L → Prop) (Resumes : L → R → Prop)

/-- Every frame above `bottom` is on its way back to a level, and below it the stack is such on all
registers that resume this level. -/
inductive Stacked (bottom : List F) (P : R → Prop) : R → List F → Prop
  | bottom {r : R} : P r → Stacked bottom P r bottom
  | frame {r : R} {f : F} {rest : List F} (l : L) :
      At f r l → (∀ r', Resumes l r' → Stacked bottom P r' rest) → Stacked bottom P r (f :: rest)

namespace Stacked

variable {At : F → R → L → Prop} {Resumes : L → R → Prop} {bottom rest : List F} {P : R → Prop}
variable {f g : F} {r r' : R}

/-- The top frame and the rest of a stack that is above its bottom. -/
theorem above (stacked : Stacked At Resumes bottom P r (f :: rest))
    (higher : bottom.length < (f :: rest).length) :
    ∃ l, At f r l ∧ ∀ r', Resumes l r' → Stacked At Resumes bottom P r' rest := by
  cases stacked with
  | bottom _ => exact absurd higher (Nat.lt_irrefl _)
  | frame l at_ below => exact ⟨l, at_, below⟩

/-- A step of the top frame. -/
theorem top (stacked : Stacked At Resumes bottom P r (f :: rest))
    (higher : bottom.length < (f :: rest).length) (step : ∀ l, At f r l → At g r' l) :
    Stacked At Resumes bottom P r' (g :: rest) := by
  obtain ⟨l, at_, below⟩ := stacked.above higher
  exact .frame l (step l at_) below

/-- The top frame returns. -/
theorem pop (stacked : Stacked At Resumes bottom P r (f :: rest))
    (higher : bottom.length < (f :: rest).length) (back : ∀ l, At f r l → Resumes l r') :
    Stacked At Resumes bottom P r' rest := by
  obtain ⟨l, at_, below⟩ := stacked.above higher
  exact below r' (back l at_)

/-- The registers change in a way that the top frame does not notice. -/
theorem regs {frames : List F} (stacked : Stacked At Resumes bottom P r frames)
    (base : bottom.length < frames.length ∨ (P r → P r'))
    (same : ∀ f ∈ frames.head?, ∀ l, At f r l → At f r' l) :
    Stacked At Resumes bottom P r' frames := by
  cases stacked with
  | bottom p => exact .bottom (base.resolve_left (Nat.lt_irrefl _) p)
  | frame l at_ below => exact .frame l (same _ rfl l at_) below

/-- A new frame: what it interrupts does not notice which of the registers it is resumed with. -/
theorem interrupt {frames : List F} {l : L} (stacked : Stacked At Resumes bottom P r frames)
    (base : ∀ r', Resumes l r' → bottom.length < frames.length ∨ (P r → P r'))
    (same : ∀ r', Resumes l r' → ∀ f ∈ frames.head?, ∀ m, At f r m → At f r' m)
    (enter : At g r' l) :
    Stacked At Resumes bottom P r' (g :: frames) :=
  .frame l enter fun r'' resumes => stacked.regs (base r'' resumes) (same r'' resumes)

/-- A stack of this kind has its bottom part at its end. -/
theorem suffix {frames : List F} (resumable : ∀ l, ∃ r', Resumes l r')
    (stacked : Stacked At Resumes bottom P r frames) : bottom <:+ frames := by
  induction stacked with
  | bottom _ => exact List.suffix_rfl
  | frame l _ _ ih =>
      obtain ⟨r', resumes⟩ := resumable l
      exact (ih r' resumes).trans (List.suffix_cons _ _)

/-- When all frames above the bottom have returned, its registers are back. -/
theorem returned {frames : List F} (resumable : ∀ l, ∃ r', Resumes l r')
    (stacked : Stacked At Resumes bottom P r frames) (back : frames.length ≤ bottom.length) :
    frames = bottom ∧ P r := by
  cases stacked with
  | bottom p => exact ⟨rfl, p⟩
  | frame l _ below =>
      obtain ⟨r', resumes⟩ := resumable l
      exact absurd ((below r' resumes).suffix resumable).length_le (Nat.not_le.mpr back)

end Stacked

end K210Guard
