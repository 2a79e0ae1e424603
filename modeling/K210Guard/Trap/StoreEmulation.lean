/-
**Misaligned stores, emulated.**

A trap on a misaligned store should leave the hart as the instruction would have: the low bytes of
`rs2` at `rs1` plus the sign-extended immediate, every register as it was, and the next instruction.
What keeps `handle_misaligned_store` from that:

* a negative immediate is taken as by the handler of loads;
* slot 0 of the frame, read for `x0`, holds what was on the stack, as a base and as the data;
* slot 2, read for `x2`, holds the stack pointer of the trap, as a base and as the data;
* a store into the frame changes the registers that are loaded back from it.

`emulates_store_iff` says exactly when none of them matters.
-/

import K210Guard.Trap.MisalignedStore

namespace K210Guard

open Rv64 (Word Mem Store StoreKind Hart XRegs dword slotAddr byteStores storeBytes)

/-! ### The property and the condition -/

/-- **The trap has the effect of the store**: the bytes stored are those the instruction stores, at
its addresses; the resumed hart has the registers and the program counter the instruction leaves;
and outside the trap frame, and wherever the instruction stores, so is the memory. -/
def EmulatesStore (word : BitVec 32) (store : Store) (hart : Hart) : Prop :=
  ∃ resumed, trapEntry (handleMisalignedStore word) hart =
      some (resumed, hart.storeWrites store) ∧
    resumed.x = (hart.store store).x ∧ resumed.f = (hart.store store).f ∧
    resumed.pc = (hart.store store).pc ∧
    ∀ x, 512 ≤ (x - frameBase hart).toNat ∨ (x - hart.storeAddr store).toNat < store.kind.width →
      resumed.mem x = (hart.store store).mem x

/-- The handler finds the bytes to store: those of `x0` when the stale doubleword in its slot is
zero there, those of `x2` when only one byte is asked for, which 512 does not change. -/
def Sourced (hart : Hart) (store : Store) : Prop :=
  store.kind.float = false →
    (store.rs2 = 0 → (staleSlot hart).setWidth (8 * store.kind.width) = 0) ∧
      (store.rs2 = Rv64.sp → store.kind = .sb)

/-- The bytes that go into a slot of the frame from which a register is loaded back are the saved
ones. -/
def FrameKept (hart : Hart) (store : Store) : Prop :=
  ∀ i < store.kind.width, 8 ≤ ((hart.storeAddr store).up i - frameBase hart).toNat →
    ((hart.storeAddr store).up i - frameBase hart).toNat < 512 →
    framedMem hart ((hart.storeAddr store).up i) = (hart.storeData store).extractLsb' (8 * i) 8

/-- When a misaligned store is emulated. -/
structure StoreEmulable (hart : Hart) (store : Store) : Prop where
  reaches : Reaches hart store.rs1 store.imm
  sourced : Sourced hart store
  frameKept : FrameKept hart store

/-! ### Address and data -/

/-- **When the handler computes the instruction's address.** -/
theorem handlerStoreAddr_eq_iff (hart : Hart) (store : Store) :
    handlerStoreAddr (framedMem hart) (frameBase hart) store = hart.storeAddr store ↔
      Reaches hart store.rs1 store.imm := reaches_iff hart store.rs1 store.imm

theorem store_width_bounds (kind : StoreKind) : 0 < kind.width ∧ kind.width ≤ 8 := by
  cases kind <;> decide

/-- The stack pointer of the trap has the same low byte, and no more. -/
theorem lowered_sp_iff {kind : StoreKind} (integer : kind.float = false) (value : Word) :
    (value - 512).setWidth (8 * kind.width) = value.setWidth (8 * kind.width) ↔ kind = .sb := by
  cases kind with
  | fsw | fsd => exact absurd integer (by decide)
  | sb =>
      refine iff_of_true ?_ rfl
      show (value - 512).setWidth 8 = value.setWidth 8
      bv_omega
  | sh =>
      refine iff_of_false ?_ (by decide)
      show ¬(value - 512).setWidth 16 = value.setWidth 16
      bv_omega
  | sw =>
      refine iff_of_false ?_ (by decide)
      show ¬(value - 512).setWidth 32 = value.setWidth 32
      bv_omega
  | sd =>
      refine iff_of_false ?_ (by decide)
      show ¬(value - 512).setWidth 64 = value.setWidth 64
      bv_omega

/-- **When the handler takes the right bytes from the frame.** -/
theorem handlerData_eq_iff (hart : Hart) (store : Store) :
    (handlerData (framedMem hart) (frameBase hart) (frameBase hart + 256) store).setWidth
          (8 * store.kind.width) =
        (hart.storeData store).setWidth (8 * store.kind.width) ↔ Sourced hart store := by
  unfold handlerData Hart.storeData Sourced
  cases float : store.kind.float with
  | true =>
      rw [if_pos rfl, if_pos rfl, floatSlot_addr, dword_floatSlot]
      exact iff_of_true rfl fun integer => absurd integer (by decide)
  | false =>
      rw [if_neg Bool.false_ne_true, if_neg Bool.false_ne_true, dword_integerSlot]
      by_cases zero : store.rs2 = 0
      · have blank : (0 : Word).setWidth (8 * store.kind.width) = 0 := BitVec.setWidth_zero ..
        rw [if_pos zero, zero, hart.x.zero, blank]
        exact ⟨fun same _ => ⟨fun _ => same, fun isSp => absurd isSp (by decide)⟩,
          fun stale => (stale rfl).1 rfl⟩
      rw [if_neg zero]
      by_cases isSp : store.rs2 = Rv64.sp
      · rw [isSp, framed_sp, frameBase, lowered_sp_iff float]
        exact ⟨fun byte _ => ⟨fun isZero => absurd isZero (by decide), fun _ => byte⟩,
          fun sp => (sp rfl).2 rfl⟩
      · rw [framed_other hart isSp]
        exact iff_of_true rfl fun _ => ⟨fun isZero => absurd isZero zero,
          fun isSp' => absurd isSp' isSp⟩

/-! ### The whole trap -/

/-- The byte stores of the handler. -/
def handlerWrites (hart : Hart) (store : Store) : List (Word × Byte) :=
  byteStores (handlerStoreAddr (framedMem hart) (frameBase hart) store)
    (handlerData (framedMem hart) (frameBase hart) (frameBase hart + 256) store) store.kind.width

/-- The hart after the trap. -/
def resumedStore (hart : Hart) (writes : List (Word × Byte)) : Hart :=
  restoreFrame (framed hart)
    { epc := hart.pc + 4
      mem := storeBytes (framedMem hart) writes
      accesses := writes }

/-- The trap on the word of a store. -/
theorem trapEntry_store {word : BitVec 32} {store : Store}
    (encoded : Store.decode word = some store) (hart : Hart) :
    trapEntry (handleMisalignedStore word) hart =
      some (resumedStore hart (handlerWrites hart store), handlerWrites hart store) := by
  rw [trapEntry_eq, handleMisalignedStore_eq encoded]
  rfl

/-- **When the bytes stored are those of the instruction.** -/
theorem writes_eq_iff (hart : Hart) (store : Store) :
    handlerWrites hart store = hart.storeWrites store ↔
      Reaches hart store.rs1 store.imm ∧ Sourced hart store := by
  rw [handlerWrites, Hart.storeWrites, Rv64.byteStores_eq_iff (store_width_bounds store.kind).1,
    handlerStoreAddr_eq_iff, handlerData_eq_iff]

/-- **When the store leaves the saved registers alone.** -/
theorem intact_iff (hart : Hart) (store : Store) :
    Intact hart (storeBytes (framedMem hart) (hart.storeWrites store)) ↔ FrameKept hart store := by
  have fits := (store_width_bounds store.kind).2
  refine (Rv64.slots_eq_iff (frameBase hart) 1 (by decide)).trans ?_
  unfold FrameKept
  simp only [Hart.storeWrites, Rv64.storeBytes_byteStores _ _ _ fits]
  constructor
  · intro kept i below after before
    have here := kept _ after before
    rw [Rv64.up_sub_self _ (by omega), if_pos below] at here
    exact here.symm
  · intro kept x after before
    split
    · rename_i inside
      have there : (hart.storeAddr store).up (x - hart.storeAddr store).toNat = x := by
        bv_omega
      have here := kept _ inside
      rw [there] at here
      exact (here after before).symm
    · rfl

/-- Outside the frame, and wherever it stores, the store leaves the instruction's memory. -/
theorem resumedStore_mem (hart : Hart) (store : Store) {x : Word}
    (outside : 512 ≤ (x - frameBase hart).toNat ∨
      (x - hart.storeAddr store).toNat < store.kind.width) :
    (resumedStore hart (hart.storeWrites store)).mem x = (hart.store store).mem x := by
  have fits := (store_width_bounds store.kind).2
  show storeBytes (framedMem hart) (hart.storeWrites store) x =
    storeBytes hart.mem (hart.storeWrites store) x
  rw [Hart.storeWrites, Rv64.storeBytes_byteStores _ _ _ fits,
    Rv64.storeBytes_byteStores _ _ _ fits]
  rcases outside with outside | inside
  · rw [framedMem_outside hart outside]
  · rw [if_pos inside, if_pos inside]

/-- **A misaligned store is emulated exactly when** its address is computed rightly, its bytes are
found in the frame, and it does not change the registers saved there. -/
theorem emulates_store_iff {word : BitVec 32} {store : Store}
    (encoded : Store.decode word = some store) (hart : Hart) :
    EmulatesStore word store hart ↔ StoreEmulable hart store := by
  unfold EmulatesStore
  rw [trapEntry_store encoded]
  constructor
  · rintro ⟨after, entered, sameX, sameF, -, -⟩
    obtain ⟨rfl, writes⟩ := Prod.mk.inj (Option.some.inj entered)
    obtain ⟨reaches, sourced⟩ := (writes_eq_iff hart store).mp writes
    refine ⟨reaches, sourced, (intact_iff hart store).mp ?_⟩
    rw [writes] at sameX sameF
    exact (restored_iff hart _ _ _).mp ⟨sameX, sameF⟩
  · rintro ⟨reaches, sourced, frameKept⟩
    have writes := (writes_eq_iff hart store).mpr ⟨reaches, sourced⟩
    obtain ⟨sameX, sameF⟩ := (restored_iff hart _ (hart.pc + 4) (hart.storeWrites store)).mpr
      ((intact_iff hart store).mpr frameKept)
    rw [writes]
    exact ⟨_, rfl, sameX, sameF, rfl, fun x => resumedStore_mem hart store⟩

/-! ### Two stores -/

/-- `sw a0, 1(s0)` is emulated. -/
theorem emulates_store_iff_sw : EmulatesStore 0x00A420A3 ⟨.sw, 8, 10, 1⟩ sampleHart := by
  refine (emulates_store_iff (by decide) sampleHart).mpr ⟨?_, ?_, ?_⟩
  · exact Or.inl ⟨by decide, by decide, by decide⟩
  · exact fun _ => ⟨fun isZero => absurd isZero (by decide), fun isSp => absurd isSp (by decide)⟩
  · have apart : ∀ i < 4, 512 ≤ ((sampleHart.storeAddr ⟨.sw, 8, 10, 1⟩).up i -
        frameBase sampleHart).toNat := by decide
    exact fun i below _ inside => absurd (apart i below) (Nat.not_le.mpr inside)

/-- `sw a0, -3(s0)` is not: the handler stores at `s0 - 1022`. -/
theorem negative_sw_misplaced :
    Store.decode 0xFEA42EA3 = some ⟨.sw, 8, 10, 0xFFD⟩ ∧
      ¬EmulatesStore 0xFEA42EA3 ⟨.sw, 8, 10, 0xFFD⟩ sampleHart := by
  have encoded : Store.decode 0xFEA42EA3 = some ⟨.sw, 8, 10, 0xFFD⟩ := by decide
  refine ⟨encoded, ?_⟩
  rintro ⟨after, entered, -⟩
  rw [trapEntry_store encoded] at entered
  obtain ⟨-, writes⟩ := Prod.mk.inj (Option.some.inj entered)
  rcases ((writes_eq_iff sampleHart _).mp writes).1 with ⟨-, -, positive⟩ | ⟨isZero, -⟩
  · exact absurd positive (by decide)
  · exact absurd isZero (by decide)

end K210Guard
