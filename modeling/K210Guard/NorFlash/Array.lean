/-
**NOR flash arrays.**

A NOR flash array has two commands: a sector erase sets every cell of one sector to ones, and a
page program ANDs a list of bytes into one page, its address wrapping at the page's end. The
geometry (sector and page size) is a parameter.

`programPage_eq_overlay`: a program that stays inside its page ANDs its bytes over a plain range.
`Command.Within` bounds the cells a command may change, and `replay_outside` is the frame rule.
-/

import Mathlib.Data.List.Infix
import Mathlib.Logic.Function.Basic
import K210Guard.Memory.Range

namespace K210Guard

namespace NorFlash

/-- The cells of a flash array. -/
abbrev Cells := Nat → Byte

/-- An erased cell. -/
def blank : Byte := 0xFF#8

theorem blank_and (value : Byte) : blank &&& value = value := BitVec.allOnes_and

/-- Sector and page sizes; a sector is a whole number of pages. -/
structure Geometry where
  sector : Nat
  page : Nat
  sector_pos : 0 < sector
  page_pos : 0 < page
  page_dvd : page ∣ sector

/-- The two commands that change cells. -/
inductive Command
  | erase (addr : Nat)
  | program (addr : Nat) (data : List Byte)
  deriving DecidableEq

variable (g : Geometry)

/-- The address after `addr` inside its page, wrapping at the page's end. -/
def Geometry.nextInPage (addr : Nat) : Nat := addr / g.page * g.page + (addr + 1) % g.page

/-- Erasing the sector that holds an address. -/
def eraseSector (cells : Cells) (addr : Nat) : Cells := fun x =>
  if x / g.sector = addr / g.sector then blank else cells x

/-- Programming bytes into one page: each is ANDed into its cell. -/
def programPage (cells : Cells) (addr : Nat) : List Byte → Cells
  | [] => cells
  | value :: rest =>
      programPage (Function.update cells addr (cells addr &&& value)) (g.nextInPage addr) rest

/-- A list of bytes ANDed over the cells from one address on. -/
def overlay (cells : Cells) (addr : Nat) (data : List Byte) : Cells := fun x =>
  if addr ≤ x then cells x &&& data.getD (x - addr) blank else cells x

/-- What a command does to the cells. -/
def Command.apply (cells : Cells) : Command → Cells
  | .erase addr => eraseSector g cells addr
  | .program addr data => programPage g cells addr data

/-- What a list of commands does. -/
def replay (commands : List Command) (cells : Cells) : Cells :=
  commands.foldl (Command.apply g) cells

@[simp] theorem replay_nil (cells : Cells) : replay g [] cells = cells := rfl

@[simp] theorem replay_cons (command : Command) (rest : List Command) (cells : Cells) :
    replay g (command :: rest) cells = replay g rest (command.apply g cells) := rfl

theorem replay_append (first second : List Command) (cells : Cells) :
    replay g (first ++ second) cells = replay g second (replay g first cells) :=
  List.foldl_append

/-! ### Where a command writes -/

/-- A command changes no cell outside `[low, high)`. -/
def Command.Within (low high : Nat) : Command → Prop
  | .erase addr => ∀ x, x / g.sector = addr / g.sector → low ≤ x ∧ x < high
  | .program addr data => low ≤ addr ∧ addr + data.length ≤ high ∧
      addr % g.page + data.length ≤ g.page

variable {g}

theorem overlay_outside (cells : Cells) {addr x : Nat} {data : List Byte}
    (outside : x < addr ∨ addr + data.length ≤ x) : overlay cells addr data x = cells x := by
  unfold overlay
  split
  · rw [List.getD_eq_default _ _ (by omega)]
    exact BitVec.and_allOnes
  · rfl

theorem overlay_inside (cells : Cells) {addr x : Nat} {data : List Byte} (low : addr ≤ x)
    (high : x - addr < data.length) :
    overlay cells addr data x = cells x &&& data[x - addr] := by
  rw [overlay, if_pos low, List.getD_eq_getElem _ _ high]

@[simp] theorem overlay_nil (cells : Cells) (addr : Nat) : overlay cells addr [] = cells :=
  funext fun x => overlay_outside cells (by rw [List.length_nil]; omega)

/-- The first byte of an overlay, then the others. -/
theorem overlay_cons (cells : Cells) (addr : Nat) (value : Byte) (rest : List Byte) :
    overlay cells addr (value :: rest) =
      overlay (Function.update cells addr (cells addr &&& value)) (addr + 1) rest := by
  funext x
  unfold overlay
  by_cases here : x = addr
  · subst here
    simp
  · rw [Function.update_of_ne here]
    by_cases low : addr ≤ x
    · have step : x - addr = x - (addr + 1) + 1 := by omega
      rw [if_pos (show addr + 1 ≤ x by omega), if_pos low, step, List.getD_cons_succ]
    · rw [if_neg low, if_neg (by omega)]

/-- **A page program that stays inside its page is a plain overlay.** -/
theorem programPage_eq_overlay {cells : Cells} {addr : Nat} {data : List Byte}
    (fits : addr % g.page + data.length ≤ g.page) :
    programPage g cells addr data = overlay cells addr data := by
  induction data generalizing cells addr with
  | nil => simp [programPage]
  | cons value rest ih =>
      rw [List.length_cons] at fits
      rw [programPage, overlay_cons]
      by_cases last : rest = []
      · subst last
        simp [programPage]
      · have room : 0 < rest.length := List.length_pos_iff.mpr last
        have next : g.nextInPage addr = addr + 1 := by
          have split := Nat.div_add_mod' addr g.page
          unfold Geometry.nextInPage
          rw [Nat.add_mod, Nat.mod_eq_of_lt (show 1 < g.page by omega),
            Nat.mod_eq_of_lt (show addr % g.page + 1 < g.page by omega)]
          omega
        have nextFits : (addr + 1) % g.page + rest.length ≤ g.page := by
          rw [Nat.add_mod, Nat.mod_eq_of_lt (show 1 < g.page by omega),
            Nat.mod_eq_of_lt (show addr % g.page + 1 < g.page by omega)]
          omega
        rw [next, ih nextFits]

/-- **The frame of a command.** -/
theorem Command.apply_outside {command : Command} {low high : Nat}
    (within : command.Within g low high) (cells : Cells) {x : Nat} (outside : x < low ∨ high ≤ x) :
    command.apply g cells x = cells x := by
  cases command with
  | erase addr =>
      refine if_neg fun same => ?_
      have := within x same
      omega
  | program addr data =>
      obtain ⟨low', high', fits⟩ := within
      show programPage g cells addr data x = cells x
      rw [programPage_eq_overlay fits]
      exact overlay_outside cells (by omega)

/-- **The frame of a list of commands.** -/
theorem replay_outside {commands : List Command} {low high : Nat}
    (within : ∀ command ∈ commands, command.Within g low high) (cells : Cells) {x : Nat}
    (outside : x < low ∨ high ≤ x) : replay g commands cells x = cells x := by
  induction commands generalizing cells with
  | nil => rfl
  | cons command rest ih =>
      rw [replay_cons, ih fun other member => within other (List.mem_cons_of_mem _ member)]
      exact Command.apply_outside (within command List.mem_cons_self) cells outside

/-- A sector whose first address is `addr` lies in every range that covers it. -/
theorem Command.erase_within {addr low high : Nat} (aligned : g.sector ∣ addr) (above : low ≤ addr)
    (below : addr + g.sector ≤ high) : (Command.erase addr).Within g low high := by
  intro x same
  obtain ⟨index, rfl⟩ := aligned
  rw [Nat.mul_div_cancel_left _ g.sector_pos] at same
  have start := Nat.div_mul_le_self x g.sector
  have stop := Nat.lt_div_mul_add (a := x) g.sector_pos
  rw [same, Nat.mul_comm] at start stop
  omega

end NorFlash

end K210Guard
