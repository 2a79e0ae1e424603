/-
**The trap frame** (`trap_entry` of `crt.S`).

On a trap the registers go to a frame of 64 doublewords below the stack pointer: `x1` to `x31` into
the slots of their numbers, with `x2` already moved down, `f0` to `f31` into the slots above; slot 0
keeps what the stack held. The handler gets pointers to the two halves. Afterwards each register is
loaded back, relative to the stack pointer just loaded.

* `dword_framedMem` — what each slot holds for the handler.
* `restored_iff` — the resumed code finds its registers when the frame is intact, and only then.
* `resume_integer`, `resume_float`, `resume_sp` — what it finds after the handler has stored into
  one slot.
-/

import K210Guard.Rv64.Hart

namespace K210Guard

open Rv64 (Word Mem Reg XRegs Hart dword storeDword slotAddr storeSlots)

/-! ### The code -/

/-- What a trap handler leaves: the value it returns, the memory, and the bytes it loaded or stored
for the interrupted instruction. -/
structure Handled where
  epc : Word
  mem : Mem
  accesses : List (Word × Byte)

/-- A trap handler of `handle_syscall`'s table, with its arguments `epc`, `regs` and `fregs`; it
need not return. -/
abbrev TrapHandler := (epc regs fregs : Word) → Mem → Option Handled

/-- The integer register a slot belongs to. -/
abbrev reg (slot : Nat) : Reg := BitVec.ofNat 5 slot

/-- `SREG x1` to `SREG x31`, then `SFREG f0` to `SFREG f31`. -/
def saveFrame (x : XRegs) (f : Reg → Word) (mem : Mem) : Mem :=
  storeSlots (x.val Rv64.sp) (fun slot => f (reg (slot - 32))) (List.range' 32 32)
    (storeSlots (x.val Rv64.sp) (fun slot => x.val (reg slot)) (List.range' 1 31) mem)

/-- `LREG`s of some registers, relative to the stack pointer each finds. -/
def loadRegs (mem : Mem) (slots : List Nat) (x : XRegs) : XRegs :=
  slots.foldl (fun x slot => x.set (reg slot) (dword mem (slotAddr (x.val Rv64.sp) slot))) x

/-- `LREG x1` to `LREG x31`, `LFREG f0` to `LFREG f31`, `addi sp, sp, 64*REGBYTES`, `mret`. -/
def restoreFrame (x : XRegs) (handled : Handled) : Hart :=
  let loaded := loadRegs handled.mem (List.range' 1 31) x
  { x := loaded.set Rv64.sp (loaded.val Rv64.sp + 512)
    f := fun r => dword handled.mem (slotAddr (loaded.val Rv64.sp) (r.toNat + 32))
    mem := handled.mem
    pc := handled.epc }

/-- A trap taken at `pc`: the resumed hart and the accesses made for the instruction. All registers
but the stack pointer are loaded back, so what the handler left in them does not matter. The frames
of the C functions below `sp - 512` are the compiler's and left out, and so is a stack pointer that
is not aligned. -/
def trapEntry (handler : TrapHandler) (hart : Hart) : Option (Hart × List (Word × Byte)) :=
  let x := hart.x.set Rv64.sp (hart.x.val Rv64.sp - 512)
  let base := x.val Rv64.sp
  (handler hart.pc base (base + 256) (saveFrame x hart.f hart.mem)).map fun handled =>
    (restoreFrame x handled, handled.accesses)

/-! ### What the handler finds -/

/-- The base of the frame. -/
def frameBase (hart : Hart) : Word := hart.x.val Rv64.sp - 512

/-- The registers while the frame is in use. -/
def framed (hart : Hart) : XRegs := hart.x.set Rv64.sp (frameBase hart)

/-- The memory the handler finds. -/
def framedMem (hart : Hart) : Mem := saveFrame (framed hart) hart.f hart.mem

theorem framed_sp (hart : Hart) : (framed hart).val Rv64.sp = frameBase hart :=
  XRegs.set_self _ (by decide) _

theorem framed_other {r : Reg} (hart : Hart) (differ : r ≠ Rv64.sp) :
    (framed hart).val r = hart.x.val r := XRegs.set_other _ differ _

/-- The trap by the frame. -/
theorem trapEntry_eq (handler : TrapHandler) (hart : Hart) :
    trapEntry handler hart =
      (handler hart.pc (frameBase hart) (frameBase hart + 256) (framedMem hart)).map fun handled =>
        (restoreFrame (framed hart) handled, handled.accesses) := by
  rw [← framed_sp]
  rfl

/-- The slots of the floating-point registers are counted from the upper half of the frame. -/
theorem floatSlot_addr (base : Word) (r : Reg) :
    slotAddr (base + 256) r.toNat = slotAddr base (r.toNat + 32) := by
  have below : r.toNat < 32 := r.isLt
  show base + 256#64 + _ = _
  bv_omega

/-- The doubleword of a slot before the trap. -/
def staleSlot (hart : Hart) : Word := dword hart.mem (slotAddr (frameBase hart) 0)

theorem integer_slots : ∀ slot ∈ List.range' 1 31, slot < 64 := by
  intro slot member
  rw [List.mem_range'_1] at member
  omega

theorem float_slots : ∀ slot ∈ List.range' 32 32, slot < 64 := by
  intro slot member
  rw [List.mem_range'_1] at member
  omega

/-- **What each slot of the frame holds.** -/
theorem dword_framedMem (hart : Hart) {slot : Nat} (bound : slot < 64) :
    dword (framedMem hart) (slotAddr (frameBase hart) slot) =
      if slot = 0 then staleSlot hart
      else if slot < 32 then (framed hart).val (reg slot)
      else hart.f (reg (slot - 32)) := by
  rw [framedMem, saveFrame, framed_sp, Rv64.dword_storeSlots _ _ _ float_slots _ bound,
    Rv64.dword_storeSlots _ _ _ integer_slots _ bound]
  simp only [List.mem_range'_1]
  by_cases zero : slot = 0
  · rw [if_neg (by omega), if_neg (by omega), if_pos zero, zero]
    rfl
  rw [if_neg zero]
  by_cases integer : slot < 32
  · rw [if_neg (by omega), if_pos (by omega), if_pos integer]
  · rw [if_pos (by omega), if_neg integer]

/-- The slot of an integer register; that of `x0` holds what was on the stack. -/
theorem dword_integerSlot (hart : Hart) (r : Reg) :
    dword (framedMem hart) (slotAddr (frameBase hart) r.toNat) =
      if r = 0 then staleSlot hart else (framed hart).val r := by
  have below : r.toNat < 32 := r.isLt
  have self : reg r.toNat = r := BitVec.eq_of_toNat_eq (by simp)
  have zero : r.toNat = 0 ↔ r = 0 := BitVec.toNat_inj (y := 0)
  rw [dword_framedMem hart (by omega), if_pos below, self]
  simp only [zero]

/-- The slot of a floating-point register. -/
theorem dword_floatSlot (hart : Hart) (r : Reg) :
    dword (framedMem hart) (slotAddr (frameBase hart) (r.toNat + 32)) = hart.f r := by
  have below : r.toNat < 32 := r.isLt
  have self : reg (r.toNat + 32 - 32) = r := BitVec.eq_of_toNat_eq (by simp)
  rw [dword_framedMem hart (by omega), if_neg (Nat.succ_ne_zero _),
    if_neg (show ¬r.toNat + 32 < 32 by omega), self]

/-- Saving the frame changes no byte outside it. -/
theorem framedMem_outside (hart : Hart) {x : Word} (outside : 512 ≤ (x - frameBase hart).toNat) :
    framedMem hart x = hart.mem x := by
  rw [framedMem, saveFrame, framed_sp, Rv64.storeSlots_outside _ _ _ float_slots _ outside,
    Rv64.storeSlots_outside _ _ _ integer_slots _ outside]

/-! ### What the resumed code finds -/

/-- Loads that do not reach the stack pointer leave it alone. -/
theorem loadRegs_sp {mem : Mem} {slots : List Nat} (others : ∀ slot ∈ slots, reg slot ≠ Rv64.sp)
    (x : XRegs) : (loadRegs mem slots x).val Rv64.sp = x.val Rv64.sp := by
  induction slots generalizing x with
  | nil => rfl
  | cons slot slots ih =>
      obtain ⟨other, others⟩ := List.forall_mem_cons.mp others
      exact (ih others _).trans (XRegs.set_other x (Ne.symm other) _)

/-- Loads from a frame whose slot 2 holds its own address. -/
theorem loadRegs_val {mem : Mem} {base : Word} (own : dword mem (slotAddr base 2) = base)
    {slots : List Nat} (bounds : ∀ slot ∈ slots, slot < 32) {x : XRegs}
    (based : x.val Rv64.sp = base) (r : Reg) :
    (loadRegs mem slots x).val r =
      if r.toNat ∈ slots ∧ r ≠ 0 then dword mem (slotAddr base r.toNat) else x.val r := by
  induction slots generalizing x with
  | nil => rfl
  | cons slot slots ih =>
      obtain ⟨bound, bounds⟩ := List.forall_mem_cons.mp bounds
      have number : (reg slot).toNat = slot := by
        rw [BitVec.toNat_ofNat, Nat.mod_eq_of_lt (by omega)]
      have stays : (x.set (reg slot) (dword mem (slotAddr base slot))).val Rv64.sp = base := by
        by_cases isSp : reg slot = Rv64.sp
        · have two : slot = 2 := by
            rw [← number, isSp]
            rfl
          rw [isSp, XRegs.set_self _ (by decide), two, own]
        · rw [XRegs.set_other _ (Ne.symm isSp), based]
      show (loadRegs mem slots
        (x.set (reg slot) (dword mem (slotAddr (x.val Rv64.sp) slot)))).val r = _
      rw [based, ih bounds stays]
      by_cases zero : r = 0
      · rw [if_neg (by simp [zero]), if_neg (by simp [zero]), zero, XRegs.zero, XRegs.zero]
      by_cases later : r.toNat ∈ slots
      · rw [if_pos ⟨later, zero⟩, if_pos ⟨List.mem_cons_of_mem _ later, zero⟩]
      rw [if_neg (by simp [later])]
      by_cases same : r = reg slot
      · rw [same] at zero ⊢
        rw [XRegs.set_self _ zero, number, if_pos ⟨List.mem_cons_self, zero⟩]
      · rw [XRegs.set_other _ same, if_neg]
        rintro ⟨member, -⟩
        rcases List.mem_cons.mp member with here | there
        · exact same (BitVec.eq_of_toNat_eq (here.trans number.symm))
        · exact later there

/-- The stack pointer loaded back is what its slot holds: only slot 1 is loaded before it. -/
theorem loadRegs_all_sp (hart : Hart) (mem : Mem) :
    (loadRegs mem (List.range' 1 31) (framed hart)).val Rv64.sp =
      dword mem (slotAddr (frameBase hart) 2) := by
  have later : ∀ slot ∈ List.range' 3 29, reg slot ≠ Rv64.sp := by
    decide
  have one : Rv64.sp ≠ reg 1 := by decide
  have order : loadRegs mem (List.range' 1 31) (framed hart) =
      loadRegs mem (List.range' 3 29) (loadRegs mem [1, 2] (framed hart)) := by
    rw [loadRegs, loadRegs, loadRegs, ← List.foldl_append]
    rfl
  rw [order, loadRegs_sp later]
  show (((framed hart).set (reg 1) _).set (reg 2) (dword mem (slotAddr
    (((framed hart).set (reg 1) _).val Rv64.sp) 2))).val Rv64.sp = _
  rw [show reg 2 = Rv64.sp from rfl, XRegs.set_self _ (by decide), XRegs.set_other _ one, framed_sp]

/-- The stack pointer after the return. -/
theorem restoreFrame_sp (hart : Hart) (mem : Mem) (epc : Word) (accesses : List (Word × Byte)) :
    (restoreFrame (framed hart) ⟨epc, mem, accesses⟩).x.val Rv64.sp =
      dword mem (slotAddr (frameBase hart) 2) + 512 := by
  show ((loadRegs mem (List.range' 1 31) (framed hart)).set Rv64.sp
    ((loadRegs mem (List.range' 1 31) (framed hart)).val Rv64.sp + 512)).val Rv64.sp = _
  rw [XRegs.set_self _ (by decide), loadRegs_all_sp]

section Resume

variable (hart : Hart) {mem : Mem}
  (own : dword mem (slotAddr (frameBase hart) 2) = frameBase hart)
include own

/-- The floating-point registers after the return: those in the slots. -/
theorem restoreFrame_f (epc : Word) (accesses : List (Word × Byte)) (r : Reg) :
    (restoreFrame (framed hart) ⟨epc, mem, accesses⟩).f r =
      dword mem (slotAddr (frameBase hart) (r.toNat + 32)) := by
  show dword mem (slotAddr _ (r.toNat + 32)) = _
  rw [loadRegs_all_sp, own]

/-- The integer registers after the return: those in the slots, and the stack pointer is back. -/
theorem restoreFrame_x (epc : Word) (accesses : List (Word × Byte)) {r : Reg} (nonzero : r ≠ 0) :
    (restoreFrame (framed hart) ⟨epc, mem, accesses⟩).x.val r =
      if r = Rv64.sp then hart.x.val Rv64.sp
      else dword mem (slotAddr (frameBase hart) r.toNat) := by
  by_cases isSp : r = Rv64.sp
  · rw [if_pos isSp, isSp, restoreFrame_sp, own, frameBase]
    exact BitVec.sub_add_cancel _ _
  have positive : r.toNat ≠ 0 := fun zero => nonzero (BitVec.eq_of_toNat_eq zero)
  have below : r.toNat < 32 := r.isLt
  have bounds : ∀ slot ∈ List.range' 1 31, slot < 32 := by
    intro slot member
    rw [List.mem_range'_1] at member
    omega
  show ((loadRegs mem (List.range' 1 31) (framed hart)).set Rv64.sp _).val r = _
  rw [if_neg isSp, XRegs.set_other _ isSp, loadRegs_val own bounds (framed_sp hart),
    if_pos ⟨by rw [List.mem_range'_1]; omega, nonzero⟩]

end Resume

/-- The slots that are loaded back hold what the trap has saved. -/
def Intact (hart : Hart) (mem : Mem) : Prop :=
  ∀ slot, 0 < slot → slot < 64 →
    dword mem (slotAddr (frameBase hart) slot) =
      dword (framedMem hart) (slotAddr (frameBase hart) slot)

/-- The stack pointer's slot holds the address of the frame. -/
theorem dword_spSlot (hart : Hart) :
    dword (framedMem hart) (slotAddr (frameBase hart) 2) = frameBase hart := by
  rw [dword_framedMem hart (by decide), if_neg (by decide), if_pos (by decide)]
  exact framed_sp hart

/-- **The registers come back if and only if the frame is intact.** -/
theorem restored_iff (hart : Hart) (mem : Mem) (epc : Word) (accesses : List (Word × Byte)) :
    (restoreFrame (framed hart) ⟨epc, mem, accesses⟩).x = hart.x ∧
        (restoreFrame (framed hart) ⟨epc, mem, accesses⟩).f = hart.f ↔ Intact hart mem := by
  constructor
  · rintro ⟨sameX, sameF⟩
    have own : dword mem (slotAddr (frameBase hart) 2) = frameBase hart := by
      have back := congrArg (XRegs.val · Rv64.sp) sameX
      rw [restoreFrame_sp] at back
      exact BitVec.eq_sub_iff_add_eq.mpr back
    intro slot positive below
    rcases Nat.lt_or_ge slot 32 with integer | float
    · have number : (reg slot).toNat = slot := by
        rw [BitVec.toNat_ofNat, Nat.mod_eq_of_lt integer]
      have nonzero : reg slot ≠ 0 := by
        intro zero
        rw [zero] at number
        exact positive.ne number
      by_cases isSp : reg slot = Rv64.sp
      · rw [← number, isSp]
        exact own.trans (dword_spSlot hart).symm
      · have back := congrArg (XRegs.val · (reg slot)) sameX
        rw [restoreFrame_x hart own epc accesses nonzero, if_neg isSp, number] at back
        rw [back, ← number, dword_integerSlot, number, if_neg nonzero, framed_other hart isSp]
    · have number : (reg (slot - 32)).toNat + 32 = slot := by
        rw [BitVec.toNat_ofNat, Nat.mod_eq_of_lt (by omega), Nat.sub_add_cancel float]
      have back := congrFun sameF (reg (slot - 32))
      rw [restoreFrame_f hart own] at back
      rw [← number, back, dword_floatSlot]
  · intro intact
    have own := (intact 2 (by decide) (by decide)).trans (dword_spSlot hart)
    refine ⟨XRegs.ext (funext fun r => ?_), funext fun r => ?_⟩
    · by_cases zero : r = 0
      · rw [zero, XRegs.zero, XRegs.zero]
      rw [restoreFrame_x hart own epc accesses zero]
      by_cases isSp : r = Rv64.sp
      · rw [if_pos isSp, isSp]
      · have positive : r.toNat ≠ 0 := fun isZero => zero (BitVec.eq_of_toNat_eq isZero)
        have below : r.toNat < 32 := r.isLt
        rw [if_neg isSp, intact _ (by omega) (by omega), dword_integerSlot, if_neg zero,
          framed_other hart isSp]
    · have below : r.toNat < 32 := r.isLt
      rw [restoreFrame_f hart own, intact _ (by omega) (by omega), dword_floatSlot]

/-! ### One answered slot -/

/-- The frame memory after the handler has stored a value into one slot. -/
def answered (hart : Hart) (slot : Nat) (value : Word) : Mem :=
  storeDword (framedMem hart) (slotAddr (frameBase hart) slot) value

theorem dword_answered (hart : Hart) {slot other : Nat} (value : Word) (bound : slot < 64)
    (boundOther : other < 64) :
    dword (answered hart slot value) (slotAddr (frameBase hart) other) =
      if other = slot then value
      else dword (framedMem hart) (slotAddr (frameBase hart) other) := by
  by_cases same : other = slot
  · rw [if_pos same, same, answered, Rv64.dword_storeDword_self]
  · rw [if_neg same, answered,
      Rv64.dword_storeDword_apart (Rv64.slots_apart _ (Ne.symm same) bound boundOther)]

/-- The answer changes no byte outside the frame. -/
theorem answered_outside (hart : Hart) {slot : Nat} (value : Word) (bound : slot < 64) {x : Word}
    (outside : 512 ≤ (x - frameBase hart).toNat) : answered hart slot value x = hart.mem x := by
  rw [answered, Rv64.storeDword_outside, framedMem_outside hart outside]
  bv_omega

/-- The stack pointer's slot still holds the address of the frame. -/
theorem answered_sp (hart : Hart) {slot : Nat} (value : Word) (bound : slot < 64)
    (notSp : slot ≠ 2) :
    dword (answered hart slot value) (slotAddr (frameBase hart) 2) = frameBase hart := by
  rw [dword_answered hart value bound (by decide), if_neg (Ne.symm notSp), dword_spSlot]

/-- **An answer in the slot of a floating-point register.** -/
theorem resume_float (hart : Hart) (rd : Reg) (value epc : Word) (accesses : List (Word × Byte)) :
    restoreFrame (framed hart) ⟨epc, answered hart (rd.toNat + 32) value, accesses⟩ =
      ⟨hart.x, Function.update hart.f rd value, answered hart (rd.toNat + 32) value, epc⟩ := by
  have below : rd.toNat < 32 := rd.isLt
  have own := answered_sp hart value (show rd.toNat + 32 < 64 by omega) (by omega)
  refine Hart.ext ?_ ?_ rfl rfl
  · refine XRegs.ext (funext fun r => ?_)
    by_cases zero : r = 0
    · rw [zero, XRegs.zero, XRegs.zero]
    rw [restoreFrame_x hart own epc accesses zero]
    by_cases isSp : r = Rv64.sp
    · rw [if_pos isSp, isSp]
    · have lower : r.toNat < 32 := r.isLt
      rw [if_neg isSp, dword_answered hart value (by omega) (by omega), if_neg (by omega),
        dword_integerSlot, if_neg zero, framed_other hart isSp]
  · funext r
    have lower : r.toNat < 32 := r.isLt
    have same : r.toNat + 32 = rd.toNat + 32 ↔ r = rd := by
      rw [Nat.add_right_cancel_iff, BitVec.toNat_inj]
    rw [restoreFrame_f hart own, dword_answered hart value (by omega) (by omega), dword_floatSlot]
    simp only [same, Function.update_apply]

/-- **An answer in the slot of an integer register** other than the stack pointer. -/
theorem resume_integer (hart : Hart) {rd : Reg} (notSp : rd ≠ Rv64.sp) (value epc : Word)
    (accesses : List (Word × Byte)) :
    restoreFrame (framed hart) ⟨epc, answered hart rd.toNat value, accesses⟩ =
      ⟨hart.x.set rd value, hart.f, answered hart rd.toNat value, epc⟩ := by
  have below : rd.toNat < 32 := rd.isLt
  have otherSlot : rd.toNat ≠ 2 := fun two => notSp (BitVec.eq_of_toNat_eq two)
  have own := answered_sp hart value (show rd.toNat < 64 by omega) otherSlot
  refine Hart.ext ?_ ?_ rfl rfl
  · refine XRegs.ext (funext fun r => ?_)
    by_cases zero : r = 0
    · rw [zero, XRegs.zero, XRegs.zero]
    rw [restoreFrame_x hart own epc accesses zero]
    by_cases isSp : r = Rv64.sp
    · rw [if_pos isSp, isSp, XRegs.set_other _ (Ne.symm notSp)]
    have lower : r.toNat < 32 := r.isLt
    rw [if_neg isSp, dword_answered hart value (by omega) (by omega), dword_integerSlot,
      if_neg zero, framed_other hart isSp]
    by_cases same : r = rd
    · rw [← same, if_pos rfl, XRegs.set_self _ zero]
    · rw [if_neg (mt BitVec.eq_of_toNat_eq same), XRegs.set_other _ same]
  · funext r
    have lower : r.toNat < 32 := r.isLt
    rw [restoreFrame_f hart own, dword_answered hart value (by omega) (by omega),
      if_neg (by omega), dword_floatSlot]

/-- **An answer in the slot of the stack pointer** comes back 512 too high. -/
theorem resume_sp (hart : Hart) (value epc : Word) (accesses : List (Word × Byte)) :
    (restoreFrame (framed hart) ⟨epc, answered hart 2 value, accesses⟩).x.val Rv64.sp =
      value + 512 := by
  rw [restoreFrame_sp, dword_answered hart value (by decide) (by decide), if_pos rfl]

end K210Guard
