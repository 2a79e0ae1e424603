/-
**Programs that talk to a device.**

A program is a tree: it returns a value, asks the device one operation and continues with the
answer, or never returns. What an operation does is not part of the program: the device is a step
function on a state type, chosen when the program is run.

* `Prog.run` runs a program to its end; a program that never returns still has a last state.
* `Prog.cut` stops it after a given number of operations (a power failure).
* `Prog.Meets` is a triple over a view of the state: the program returns and keeps a promise.
* `Prog.Issues` says that a program asks operations of one kind only, on every path.
-/

import Mathlib.Data.List.Basic

namespace K210Guard

/-- A program over operations `Op`, each with its own type of answers. -/
inductive Prog (Op : Type) (Ans : Op → Type) (α : Type) : Type
  | pure (value : α)
  | ask (op : Op) (next : Ans op → Prog Op Ans α)
  | spin

namespace Prog

variable {Op : Type} {Ans : Op → Type} {α β : Type}

/-- Sequencing. -/
def bind : Prog Op Ans α → (α → Prog Op Ans β) → Prog Op Ans β
  | .pure value, f => f value
  | .ask op next, f => .ask op fun answer => bind (next answer) f
  | .spin, _ => .spin

instance : Monad (Prog Op Ans) where
  pure := .pure
  bind := bind

/-- Asking one operation and returning its answer. -/
def perform (op : Op) : Prog Op Ans (Ans op) := .ask op .pure

/-- Carries out each operation of a program by a program over other operations. -/
def interpret {Op' : Type} {Ans' : Op' → Type} (serve : (op : Op) → Prog Op' Ans' (Ans op)) :
    Prog Op Ans α → Prog Op' Ans' α
  | .pure value => .pure value
  | .ask op next => serve op >>= fun answer => interpret serve (next answer)
  | .spin => .spin

/-- Sequencing is associative. -/
theorem bind_assoc {γ : Type} (p : Prog Op Ans α) (f : α → Prog Op Ans β)
    (g : β → Prog Op Ans γ) : p >>= f >>= g = p >>= fun value => f value >>= g := by
  show bind (bind p f) g = bind p fun value => bind (f value) g
  induction p with
  | pure value => rfl
  | ask op next ih => exact congrArg (Prog.ask op) (funext ih)
  | spin => rfl

/-- An interpreted sequence is the sequence of the interpreted parts. -/
theorem interpret_bind {Op' : Type} {Ans' : Op' → Type}
    (serve : (op : Op) → Prog Op' Ans' (Ans op)) (p : Prog Op Ans α) (f : α → Prog Op Ans β) :
    interpret serve (p >>= f) = interpret serve p >>= fun value => interpret serve (f value) := by
  show interpret serve (bind p f) = _
  induction p with
  | pure value => rfl
  | ask op next ih =>
      show serve op >>= (fun answer => interpret serve (bind (next answer) f)) =
        (serve op >>= fun answer => interpret serve (next answer)) >>= _
      rw [bind_assoc]
      exact congrArg (serve op >>= ·) (funext ih)
  | spin => rfl

section Run

variable {σ : Type} (step : σ → (op : Op) → Ans op × σ)

/-- Runs a program: the value it returns, if it returns, and the state it leaves. -/
def run : Prog Op Ans α → σ → Option α × σ
  | .pure value, s => (some value, s)
  | .ask op next, s => run (next (step s op).1) (step s op).2
  | .spin, s => (none, s)

/-- The state after the first `count` operations of a program. -/
def cut : Nat → Prog Op Ans α → σ → σ
  | count + 1, .ask op next, s => cut count (next (step s op).1) (step s op).2
  | _, _, s => s

/-- **A sequence runs its parts one after the other.** -/
theorem run_bind (p : Prog Op Ans α) (f : α → Prog Op Ans β) (s : σ) :
    run step (p >>= f) s =
      match (run step p s).1 with
      | some value => run step (f value) (run step p s).2
      | none => (none, (run step p s).2) := by
  show run step (bind p f) s = _
  induction p generalizing s with
  | pure value => rfl
  | ask op next ih => exact ih (step s op).1 (step s op).2
  | spin => rfl

/-- The rule of use: a first part with a known result. -/
theorem run_bind_of_eq {p : Prog Op Ans α} {f : α → Prog Op Ans β} {s t : σ} {value : α}
    (first : run step p s = (some value, t)) : run step (p >>= f) s = run step (f value) t := by
  rw [run_bind, first]

/-- The rule of use for one operation and the rest. -/
theorem run_perform_bind {op : Op} {f : Ans op → Prog Op Ans β} {s t : σ} {answer : Ans op}
    (first : step s op = (answer, t)) :
    run step (perform op >>= f) s = run step (f answer) t := by
  show run step (f (step s op).1) (step s op).2 = _
  rw [first]

/-- A first part that never returns. -/
theorem run_bind_of_none {p : Prog Op Ans α} {f : α → Prog Op Ans β} {s t : σ}
    (first : run step p s = (none, t)) : run step (p >>= f) s = (none, t) := by
  rw [run_bind, first]

/-- A sequence that returned went through the result of its first part. -/
theorem run_bind_inv {p : Prog Op Ans α} {f : α → Prog Op Ans β} {s t : σ} {result : β}
    (whole : run step (p >>= f) s = (some result, t)) :
    ∃ value middle, run step p s = (some value, middle) ∧
      run step (f value) middle = (some result, t) := by
  rw [run_bind] at whole
  cases first : run step p s with
  | mk returned middle =>
      rw [first] at whole
      cases returned with
      | some value => exact ⟨value, middle, rfl, whole⟩
      | none => cases whole

/-! ### Invariants of a device -/

/-- What every operation preserves, every run preserves. -/
theorem run_invariant (I : σ → Prop) (each : ∀ s op, I s → I (step s op).2)
    (p : Prog Op Ans α) (s : σ) (start : I s) : I (run step p s).2 := by
  induction p generalizing s with
  | pure value => exact start
  | ask op next ih => exact ih _ _ (each s op start)
  | spin => exact start

/-- What every operation preserves still holds when the program is cut. -/
theorem cut_invariant (I : σ → Prop) (each : ∀ s op, I s → I (step s op).2)
    (count : Nat) (p : Prog Op Ans α) (s : σ) (start : I s) : I (cut step count p s) := by
  induction count generalizing p s with
  | zero => exact start
  | succ count ih =>
      cases p with
      | pure value => exact start
      | ask op next => exact ih _ _ (each s op start)
      | spin => exact start

/-- **A cut run is below the whole run** in every preorder each operation goes up in. -/
theorem cut_below_run (R : σ → σ → Prop) (refl : ∀ s, R s s)
    (trans : ∀ {s t u}, R s t → R t u → R s u) (each : ∀ s op, R s (step s op).2)
    (count : Nat) (p : Prog Op Ans α) (s : σ) : R (cut step count p s) (run step p s).2 := by
  induction count generalizing p s with
  | zero =>
      exact run_invariant step (R s) (fun t op below => trans below (each t op)) p s (refl s)
  | succ count ih =>
      cases p with
      | pure value => exact refl s
      | ask op next => exact ih _ _
      | spin => exact refl s

end Run

/-! ### Triples over a view of the state -/

section Meets

variable {σ γ : Type} {step : σ → (op : Op) → Ans op × σ} {view : σ → γ}

/-- From every state with this view the program returns, with a result and a view as promised. -/
def Meets (step : σ → (op : Op) → Ans op × σ) (view : σ → γ) (before : γ) (p : Prog Op Ans α)
    (promise : α → γ → Prop) : Prop :=
  ∀ s, view s = before → ∃ value t, run step p s = (some value, t) ∧ promise value (view t)

theorem Meets.pure {before : γ} {promise : α → γ → Prop} {value : α}
    (holds : promise value before) : Meets step view before (Prog.pure value) promise := by
  rintro s rfl
  exact ⟨value, s, rfl, holds⟩

/-- **The rule for sequences.** -/
theorem Meets.bind {before : γ} {p : Prog Op Ans α} {f : α → Prog Op Ans β}
    {between : α → γ → Prop} {promise : β → γ → Prop} (first : Meets step view before p between)
    (rest : ∀ value middle, between value middle → Meets step view middle (f value) promise) :
    Meets step view before (p >>= f) promise := by
  intro s same
  obtain ⟨value, t, runs, halfway⟩ := first s same
  obtain ⟨result, last, ends, holds⟩ := rest value _ halfway t rfl
  exact ⟨result, last, (run_bind_of_eq step runs).trans ends, holds⟩

/-- The rule for a first part whose result is not used. -/
theorem Meets.andThen {before middle : γ} {p : Prog Op Ans α} {f : α → Prog Op Ans β}
    {promise : β → γ → Prop} (first : Meets step view before p fun _ after => after = middle)
    (rest : ∀ value, Meets step view middle (f value) promise) :
    Meets step view before (p >>= f) promise :=
  first.bind fun value _ same => same ▸ rest value

/-- A run that returned kept the promise. -/
theorem Meets.of_run {p : Prog Op Ans α} {promise : α → γ → Prop} {s t : σ} {value : α}
    (meets : Meets step view (view s) p promise) (runs : run step p s = (some value, t)) :
    promise value (view t) := by
  obtain ⟨result, last, other, holds⟩ := meets s rfl
  rw [runs] at other
  obtain ⟨same, rfl⟩ := Prod.mk.inj other
  rw [Option.some.inj same]
  exact holds

theorem Meets.weaken {before : γ} {p : Prog Op Ans α} {strong promise : α → γ → Prop}
    (meets : Meets step view before p strong)
    (weaker : ∀ value after, strong value after → promise value after) :
    Meets step view before p promise := by
  intro s same
  obtain ⟨value, t, runs, holds⟩ := meets s same
  exact ⟨value, t, runs, weaker value _ holds⟩

end Meets

/-! ### Programs that ask operations of one kind -/

/-- On every path, every operation asked satisfies `G`. -/
inductive Issues (G : Op → Prop) : Prog Op Ans α → Prop
  | pure (value : α) : Issues G (.pure value)
  | ask (op : Op) (next : Ans op → Prog Op Ans α) (allowed : G op)
      (rest : ∀ answer, Issues G (next answer)) : Issues G (.ask op next)
  | spin : Issues G .spin

theorem Issues.perform {G : Op → Prop} {op : Op} (allowed : G op) :
    Issues G (perform op : Prog Op Ans (Ans op)) :=
  .ask op _ allowed fun answer => .pure answer

theorem Issues.bind {G : Op → Prop} {p : Prog Op Ans α} {f : α → Prog Op Ans β}
    (first : Issues G p) (rest : ∀ value, Issues G (f value)) : Issues G (p >>= f) := by
  induction first with
  | pure value => exact rest value
  | ask op next allowed _ ih => exact .ask op _ allowed ih
  | spin => exact .spin

/-- An interpreted program asks what the programs that serve its operations ask. -/
theorem Issues.interpret {Op' : Type} {Ans' : Op' → Type} {G : Op' → Prop}
    {serve : (op : Op) → Prog Op' Ans' (Ans op)} (each : ∀ op, Issues G (serve op))
    (p : Prog Op Ans α) : Issues G (p.interpret serve) := by
  induction p with
  | pure value => exact .pure value
  | ask op next ih => exact (each op).bind ih
  | spin => exact .spin

/-- **The frame rule**: what the operations of one kind leave alone, a program that asks only
these leaves alone, also when it never returns. -/
theorem Issues.frame {G : Op → Prop} {σ γ : Type} {step : σ → (op : Op) → Ans op × σ}
    {view : σ → γ} (each : ∀ s op, G op → view (step s op).2 = view s) {p : Prog Op Ans α}
    (issues : Issues G p) (s : σ) : view (run step p s).2 = view s := by
  induction issues generalizing s with
  | pure value => rfl
  | ask op next allowed _ ih => exact (ih _ _).trans (each s op allowed)
  | spin => rfl

/-! ### What the paths of a program return -/

/-- Some path of the program returns the value. -/
inductive Returns (value : α) : Prog Op Ans α → Prop
  | pure : Returns value (.pure value)
  | ask (op : Op) (next : Ans op → Prog Op Ans α) (answer : Ans op)
      (rest : Returns value (next answer)) : Returns value (.ask op next)

theorem Returns.bind {p : Prog Op Ans α} {f : α → Prog Op Ans β} {value : α} {result : β}
    (first : Returns value p) (rest : Returns result (f value)) : Returns result (p >>= f) := by
  induction first with
  | pure => exact rest
  | ask op next answer _ ih => exact .ask op _ answer ih

/-- What a sequence returns, its second part returns after a value of the first. -/
theorem Returns.of_bind {p : Prog Op Ans α} {f : α → Prog Op Ans β} {result : β}
    (whole : Returns result (p >>= f)) : ∃ value, Returns value p ∧ Returns result (f value) := by
  change Returns result (Prog.bind p f) at whole
  induction p with
  | pure value => exact ⟨value, .pure, whole⟩
  | ask op next ih =>
      cases whole with
      | ask _ _ answer rest =>
          obtain ⟨value, first, last⟩ := ih answer rest
          exact ⟨value, .ask op next answer first, last⟩
  | spin => exact absurd whole nofun

theorem issues_ask_iff {G : Op → Prop} {op : Op} {next : Ans op → Prog Op Ans α} :
    Issues G (.ask op next) ↔ G op ∧ ∀ answer, Issues G (next answer) := by
  constructor
  · rintro ⟨⟩
    constructor <;> assumption
  · rintro ⟨allowed, rest⟩
    exact .ask op next allowed rest

/-- **A sequence asks what its first part asks and what its second part asks** after any value the
first part can return. -/
theorem issues_bind_iff {G : Op → Prop} {p : Prog Op Ans α} {f : α → Prog Op Ans β} :
    Issues G (p >>= f) ↔ Issues G p ∧ ∀ value, Returns value p → Issues G (f value) := by
  show Issues G (bind p f) ↔ _
  induction p with
  | pure value =>
      constructor
      · intro rest
        refine ⟨.pure value, ?_⟩
        rintro _ ⟨⟩
        exact rest
      · rintro ⟨-, rest⟩
        exact rest value .pure
  | ask op next ih =>
      constructor
      · intro whole
        obtain ⟨allowed, rest⟩ := issues_ask_iff.mp whole
        refine ⟨.ask op next allowed fun answer => ((ih answer).mp (rest answer)).1, ?_⟩
        rintro value ⟨⟩
        rename_i answer returns
        exact ((ih answer).mp (rest answer)).2 value returns
      · rintro ⟨first, rest⟩
        obtain ⟨allowed, first⟩ := issues_ask_iff.mp first
        exact .ask op _ allowed fun answer =>
          (ih answer).mpr
            ⟨first answer, fun value returns => rest value (.ask op next answer returns)⟩
  | spin => exact ⟨fun _ => ⟨.spin, nofun⟩, fun _ => .spin⟩

/-- One operation, then the rest. -/
theorem issues_perform_bind_iff {G : Op → Prop} {op : Op} {f : Ans op → Prog Op Ans β} :
    Issues G (perform op >>= f) ↔ G op ∧ ∀ answer, Issues G (f answer) := issues_ask_iff

end Prog

end K210Guard
