/-
**Ranges of a memory.**

A memory is a function from addresses to cells. `readRange` lists the cells of a range and
`writeRange` stores a list there; the lemmas say what a read sees after a write that covers it,
precedes it or lies elsewhere, and how a range splits in two.
-/

import Mathlib.Algebra.Ring.Int.Defs
import Mathlib.Algebra.Ring.Nat
import Mathlib.Data.List.GetD
import Mathlib.Data.List.OfFn
import Mathlib.Tactic.Common

namespace K210Guard

/-- A byte. -/
abbrev Byte := BitVec 8

variable {β : Type}

/-- The `count` cells from address `start`. -/
def readRange (memory : Nat → β) (start count : Nat) : List β :=
  List.ofFn fun index : Fin count => memory (start + index)

/-- The memory with `cells` stored from address `start`. -/
def writeRange (memory : Nat → β) (start : Nat) (cells : List β) : Nat → β := fun x =>
  if start ≤ x then cells.getD (x - start) (memory x) else memory x

/-! ### Reading -/

@[simp] theorem readRange_length (memory : Nat → β) (start count : Nat) :
    (readRange memory start count).length = count := by
  simp [readRange]

@[simp] theorem readRange_zero (memory : Nat → β) (start : Nat) :
    readRange memory start 0 = [] := rfl

theorem readRange_ne_nil (memory : Nat → β) (start : Nat) {count : Nat} (positive : count ≠ 0) :
    readRange memory start count ≠ [] := by
  rw [← List.length_pos_iff, readRange_length]
  exact Nat.pos_of_ne_zero positive

theorem readRange_succ (memory : Nat → β) (start count : Nat) :
    readRange memory start (count + 1) = memory start :: readRange memory (start + 1) count := by
  unfold readRange
  rw [List.ofFn_succ]
  simp only [Fin.val_zero, Nat.add_zero, Fin.val_succ]
  refine congrArg _ (congrArg List.ofFn (funext fun index => ?_))
  rw [Nat.add_assoc, Nat.add_comm 1]

@[simp] theorem getElem_readRange (memory : Nat → β) (start count index : Nat)
    (bound : index < (readRange memory start count).length) :
    (readRange memory start count)[index] = memory (start + index) := by
  simp [readRange]

/-- A range splits. -/
theorem readRange_add (memory : Nat → β) (start first second : Nat) :
    readRange memory start (first + second) =
      readRange memory start first ++ readRange memory (start + first) second := by
  induction first generalizing start with
  | zero => simp
  | succ first ih =>
      rw [Nat.add_right_comm, readRange_succ, readRange_succ, ih, List.cons_append,
        Nat.add_assoc start 1, Nat.add_comm 1]

/-- Two memories read the same where they agree, and only there. -/
theorem readRange_eq_iff {memory other : Nat → β} {start from' count : Nat} :
    readRange memory start count = readRange other from' count ↔
      ∀ index < count, memory (start + index) = other (from' + index) := by
  constructor
  · intro same index bound
    have bound' : index < (readRange memory start count).length := by simpa using bound
    have cells := List.getElem_of_eq same bound'
    simpa using cells
  · intro agree
    refine List.ext_getElem (by simp) fun index left _ => ?_
    rw [getElem_readRange, getElem_readRange]
    exact agree index (by simpa using left)

theorem readRange_congr {memory other : Nat → β} {start count : Nat}
    (agree : ∀ x, start ≤ x → x < start + count → memory x = other x) :
    readRange memory start count = readRange other start count :=
  readRange_eq_iff.mpr fun index bound => agree _ (by omega) (by omega)

/-! ### Writing -/

@[simp] theorem writeRange_nil (memory : Nat → β) (start : Nat) :
    writeRange memory start [] = memory := by
  funext x
  simp [writeRange]

theorem writeRange_inside (memory : Nat → β) {start x : Nat} {cells : List β}
    (low : start ≤ x) (high : x - start < cells.length) :
    writeRange memory start cells x = cells[x - start] := by
  rw [writeRange, if_pos low, List.getD_eq_getElem _ _ high]

theorem writeRange_outside (memory : Nat → β) {start x : Nat} {cells : List β}
    (outside : x < start ∨ start + cells.length ≤ x) :
    writeRange memory start cells x = memory x := by
  unfold writeRange
  split
  · exact List.getD_eq_default _ _ (by omega)
  · rfl

/-- Two lists stored one after the other are one list stored. -/
theorem writeRange_append (memory : Nat → β) (start : Nat) (first second : List β) :
    writeRange memory start (first ++ second) =
      writeRange (writeRange memory start first) (start + first.length) second := by
  funext x
  by_cases low : x < start + first.length
  · rw [writeRange_outside (writeRange memory start first) (Or.inl low)]
    by_cases below : x < start
    · rw [writeRange_outside _ (Or.inl below), writeRange_outside _ (Or.inl below)]
    · have inFirst : x - start < first.length := by omega
      have inBoth : x - start < (first ++ second).length := by rw [List.length_append]; omega
      rw [writeRange_inside _ (by omega) inFirst, writeRange_inside _ (by omega) inBoth,
        List.getElem_append_left inFirst]
  · by_cases high : x < start + first.length + second.length
    · have inSecond : x - (start + first.length) < second.length := by omega
      have inBoth : x - start < (first ++ second).length := by rw [List.length_append]; omega
      rw [writeRange_inside _ (by omega) inSecond, writeRange_inside _ (by omega) inBoth,
        List.getElem_append_right (by omega)]
      congr 1
      omega
    · rw [writeRange_outside (writeRange memory start first) (Or.inr (by omega)),
        writeRange_outside _ (Or.inr (by rw [List.length_append]; omega)),
        writeRange_outside _ (Or.inr (by omega))]

/-- **What was stored is read back**, and a shorter read sees its beginning. -/
theorem readRange_writeRange_take (memory : Nat → β) (start count : Nat) (cells : List β)
    (bound : count ≤ cells.length) :
    readRange (writeRange memory start cells) start count = cells.take count := by
  refine List.ext_getElem (by simp [bound]) fun index left _ => ?_
  rw [readRange_length] at left
  rw [getElem_readRange, List.getElem_take, writeRange_inside _ (by omega) (by omega)]
  congr 1
  omega

@[simp] theorem readRange_writeRange_self (memory : Nat → β) (start : Nat) (cells : List β) :
    readRange (writeRange memory start cells) start cells.length = cells := by
  rw [readRange_writeRange_take _ _ _ _ le_rfl, List.take_length]

/-- A write that covers an earlier one hides it. -/
theorem writeRange_covered (memory : Nat → β) (start : Nat) {first second : List β}
    (covers : first.length ≤ second.length) :
    writeRange (writeRange memory start first) start second = writeRange memory start second := by
  funext x
  by_cases inside : start ≤ x ∧ x < start + second.length
  · rw [writeRange_inside _ inside.1 (by omega), writeRange_inside _ inside.1 (by omega)]
  · rw [writeRange_outside _ (by omega), writeRange_outside _ (by omega),
      writeRange_outside _ (by omega)]

/-- A read elsewhere does not see the write. -/
theorem readRange_writeRange_disjoint (memory : Nat → β) {start count at' : Nat} {cells : List β}
    (disjoint : start + count ≤ at' ∨ at' + cells.length ≤ start) :
    readRange (writeRange memory at' cells) start count = readRange memory start count :=
  readRange_congr fun x low high => writeRange_outside memory (by omega)

/-- A read from where a write starts: what was stored, then what was there. -/
theorem readRange_writeRange (memory : Nat → β) (start count : Nat) (cells : List β) :
    readRange (writeRange memory start cells) start count =
      cells.take count ++ (readRange memory start count).drop cells.length := by
  rcases le_total count cells.length with short | long
  · rw [readRange_writeRange_take _ _ _ _ short,
      List.drop_of_length_le (by rwa [readRange_length]), List.append_nil]
  · obtain ⟨rest, rfl⟩ := Nat.exists_eq_add_of_le long
    have beyond : readRange (writeRange memory start cells) (start + cells.length) rest =
        readRange memory (start + cells.length) rest :=
      readRange_writeRange_disjoint memory (Or.inr le_rfl)
    rw [readRange_add, readRange_writeRange_self, beyond, readRange_add memory,
      List.take_of_length_le long, List.drop_left' (readRange_length _ _ _)]

end K210Guard
