/-
**Misaligned loads, emulated.**

A trap on a misaligned load should leave the hart as the instruction would have: the bytes at `rs1`
plus the sign-extended immediate, the destination with the extended value, everything else as it
was, and the next instruction. Four slips keep `handle_misaligned_load` from that:

* a negative immediate is taken modulo 1024 instead of 2048, and its sign is put on wrongly;
* slot 0 of the frame, read for `x0` as a base, holds what was on the stack;
* slot 2, read for `x2` as a base, holds the stack pointer of the trap; written for `x2` as the
  destination, it moves the frame under the loads that follow;
* a single-precision value is not boxed.

`emulates_load_iff` says exactly when none of them matters.
-/

import K210Guard.Trap.MisalignedLoad

namespace K210Guard

open Rv64 (Word Mem Load LoadKind Hart XRegs dword storeDword slotAddr bytesAt byteLoads)

/-! ### The property and the condition -/

/-- **The trap has the effect of the load**: the bytes loaded are those the instruction loads, from
its addresses; the resumed hart has the registers and the program counter the instruction leaves;
and outside the trap frame the memory is as before. -/
def EmulatesLoad (word : BitVec 32) (load : Load) (hart : Hart) : Prop :=
  ∃ resumed, trapEntry (handleMisalignedLoad word) hart =
      some (resumed, byteLoads hart.mem (hart.loadAddr load) load.kind.width) ∧
    resumed.x = (hart.load load).x ∧ resumed.f = (hart.load load).f ∧
    resumed.pc = (hart.load load).pc ∧
    ∀ x, 512 ≤ (x - frameBase hart).toNat → resumed.mem x = hart.mem x

/-- Saving the frame does not change the bytes to load. -/
def Undisturbed (hart : Hart) (load : Load) : Prop :=
  ∀ i < load.kind.width,
    framedMem hart ((hart.loadAddr load).up i) = hart.mem ((hart.loadAddr load).up i)

/-- When a misaligned load is emulated. -/
structure Emulable (hart : Hart) (load : Load) : Prop where
  notSingle : load.kind ≠ .flw
  notSp : load.kind.float = false → load.rd ≠ Rv64.sp
  reaches : Reaches hart load.rs1 load.imm
  undisturbed : Undisturbed hart load

/-! ### The address -/

/-- **When the handler computes the instruction's address.** -/
theorem handlerAddr_eq_iff (hart : Hart) (load : Load) :
    handlerAddr (framedMem hart) (frameBase hart) load = hart.loadAddr load ↔
      Reaches hart load.rs1 load.imm := reaches_iff hart load.rs1 load.imm

/-! ### The whole trap -/

/-- The slot a load's answer goes to. -/
def answerSlot (load : Load) : Nat :=
  if load.kind.float then load.rd.toNat + 32 else load.rd.toNat

/-- What the handler stores there. -/
def answer (hart : Hart) (load : Load) : Word :=
  storedValue load.kind (leNat (bytesAt (framedMem hart)
    (handlerAddr (framedMem hart) (frameBase hart) load) load.kind.width))

/-- The hart after the trap. -/
def resumed (hart : Hart) (load : Load) : Hart :=
  restoreFrame (framed hart)
    { epc := hart.pc + 4
      mem := answered hart (answerSlot load) (answer hart load)
      accesses := byteLoads (framedMem hart) (handlerAddr (framedMem hart) (frameBase hart) load)
        load.kind.width }

/-- The trap on the word of a load. -/
theorem trapEntry_load {word : BitVec 32} {load : Load} (encoded : Load.decode word = some load)
    (hart : Hart) :
    trapEntry (handleMisalignedLoad word) hart = some
      (resumed hart load, byteLoads (framedMem hart)
        (handlerAddr (framedMem hart) (frameBase hart) load) load.kind.width) := by
  have slot : slotAddr (if load.kind.float then frameBase hart + 256 else frameBase hart)
      load.rd.toNat = slotAddr (frameBase hart) (answerSlot load) := by
    unfold answerSlot
    split
    · exact floatSlot_addr _ _
    · rfl
  rw [trapEntry_eq, handleMisalignedLoad_eq encoded, slot]
  rfl

/-- **When the bytes loaded are those of the instruction.** -/
theorem loads_eq_iff (hart : Hart) (load : Load) :
    byteLoads (framedMem hart) (handlerAddr (framedMem hart) (frameBase hart) load)
        load.kind.width =
      byteLoads hart.mem (hart.loadAddr load) load.kind.width ↔
      Reaches hart load.rs1 load.imm ∧ Undisturbed hart load := by
  rw [Rv64.byteLoads_eq_iff (width_bounds load.kind).1, handlerAddr_eq_iff]
  rfl

/-- With these bytes, the answer is the value of the load, unless it is single-precision. -/
theorem answer_eq {hart : Hart} {load : Load} (reaches : Reaches hart load.rs1 load.imm)
    (undisturbed : Undisturbed hart load) :
    answer hart load =
      if load.kind = .flw then
        BitVec.ofNat 64 (leNat (bytesAt hart.mem (hart.loadAddr load) load.kind.width))
      else hart.loadValue load := by
  rw [answer, (handlerAddr_eq_iff hart load).mpr reaches, Rv64.bytesAt_congr undisturbed]
  rfl

/-- The hart after a load into a floating-point register. -/
theorem resumed_float (hart : Hart) {load : Load} (float : load.kind.float = true) :
    resumed hart load =
      { x := hart.x
        f := Function.update hart.f load.rd (answer hart load)
        mem := answered hart (load.rd.toNat + 32) (answer hart load)
        pc := hart.pc + 4 } := by
  rw [resumed, answerSlot, if_pos float]
  exact resume_float hart load.rd _ _ _

/-- The hart after a load into an integer register other than the stack pointer. -/
theorem resumed_integer (hart : Hart) {load : Load} (integer : load.kind.float = false)
    (notSp : load.rd ≠ Rv64.sp) :
    resumed hart load =
      { x := hart.x.set load.rd (answer hart load)
        f := hart.f
        mem := answered hart load.rd.toNat (answer hart load)
        pc := hart.pc + 4 } := by
  rw [resumed, answerSlot, if_neg (by rw [integer]; exact Bool.false_ne_true)]
  exact resume_integer hart notSp _ _ _

/-- The stack pointer after a load into it. -/
theorem resumed_sp (hart : Hart) {load : Load} (integer : load.kind.float = false)
    (isSp : load.rd = Rv64.sp) : (resumed hart load).x.val Rv64.sp = answer hart load + 512 := by
  rw [resumed, answerSlot, if_neg (by rw [integer]; exact Bool.false_ne_true), isSp]
  exact resume_sp hart _ _ _

/-- A number of 32 bits is not boxed. -/
theorem unboxed {number : Nat} (small : number < 2 ^ 32) :
    BitVec.ofNat 64 number ≠ 0xFFFFFFFF#32 ++ BitVec.ofNat 32 number := by
  intro same
  have values := congrArg BitVec.toNat same
  rw [BitVec.toNat_append, BitVec.toNat_ofNat, BitVec.toNat_ofNat, BitVec.toNat_ofNat,
    Nat.mod_eq_of_lt small, ← Nat.shiftLeft_add_eq_or_of_lt small, Nat.shiftLeft_eq] at values
  omega

/-- The effect of a load on the registers, by the file of its destination. -/
theorem load_float (hart : Hart) {load : Load} (float : load.kind.float = true) :
    hart.load load = { hart with
      f := Function.update hart.f load.rd (hart.loadValue load), pc := hart.pc + 4 } := if_pos float

theorem load_integer (hart : Hart) {load : Load} (integer : load.kind.float = false) :
    hart.load load = { hart with
      x := hart.x.set load.rd (hart.loadValue load), pc := hart.pc + 4 } :=
  if_neg (by rw [integer]; exact Bool.false_ne_true)

/-- The answer stays inside the frame. -/
theorem resumed_mem (hart : Hart) (load : Load) {x : Word}
    (outside : 512 ≤ (x - frameBase hart).toNat) : (resumed hart load).mem x = hart.mem x := by
  have below : load.rd.toNat < 32 := load.rd.isLt
  refine answered_outside hart _ ?_ outside
  unfold answerSlot
  split <;> omega

/-- **A misaligned load is emulated exactly when** it is not single-precision, does not go to the
stack pointer, has its address computed rightly and reads no byte that the frame has overwritten. -/
theorem emulates_load_iff {word : BitVec 32} {load : Load} (encoded : Load.decode word = some load)
    (hart : Hart) : EmulatesLoad word load hart ↔ Emulable hart load := by
  unfold EmulatesLoad
  rw [trapEntry_load encoded]
  constructor
  · rintro ⟨after, entered, sameX, sameF, -, -⟩
    obtain ⟨rfl, loads⟩ := Prod.mk.inj (Option.some.inj entered)
    obtain ⟨reaches, undisturbed⟩ := (loads_eq_iff hart load).mp loads
    have value := answer_eq reaches undisturbed
    refine ⟨?_, ?_, reaches, undisturbed⟩
    · intro single
      have float : load.kind.float = true := by rw [single]; rfl
      rw [resumed_float hart float, load_float hart float, value, if_pos single] at sameF
      have atRd := (Function.update_self load.rd _ hart.f).symm.trans
        ((congrFun sameF load.rd).trans (Function.update_self load.rd _ hart.f))
      rw [Hart.loadValue, single] at atRd
      refine unboxed ?_ atRd
      refine Nat.lt_of_lt_of_eq (leNat_lt _) ?_
      rw [Rv64.bytesAt_length]
      rfl
    · intro integer isSp
      have double : load.kind ≠ .flw := by
        intro single
        rw [single] at integer
        exact absurd integer (by decide)
      rw [if_neg double] at value
      have atSp := congrArg (fun x => XRegs.val x Rv64.sp) sameX
      rw [load_integer hart integer, isSp] at atSp
      have moved := (resumed_sp hart integer isSp).symm.trans
        (atSp.trans (XRegs.set_self _ (by decide) _))
      rw [value] at moved
      bv_omega
  · rintro ⟨notSingle, notSp, reaches, undisturbed⟩
    have value := answer_eq reaches undisturbed
    rw [if_neg notSingle] at value
    refine ⟨resumed hart load, ?_, ?_⟩
    · rw [(loads_eq_iff hart load).mpr ⟨reaches, undisturbed⟩]
    cases float : load.kind.float with
    | true =>
        refine ⟨?_, ?_, ?_, fun x outside => resumed_mem hart load outside⟩
        · rw [resumed_float hart float, load_float hart float]
        · rw [resumed_float hart float, load_float hart float, value]
        · rw [resumed_float hart float, load_float hart float]
    | false =>
        have other := notSp float
        refine ⟨?_, ?_, ?_, fun x outside => resumed_mem hart load outside⟩
        · rw [resumed_integer hart float other, load_integer hart float, value]
        · rw [resumed_integer hart float other, load_integer hart float]
        · rw [resumed_integer hart float other, load_integer hart float]

/-! ### Two loads -/

/-- `lw a0, 1(s0)` is emulated. -/
theorem emulates_load_iff_lw : EmulatesLoad 0x00142503 ⟨.lw, 10, 8, 1⟩ sampleHart := by
  refine (emulates_load_iff (by decide) sampleHart).mpr ⟨by decide, by decide, ?_, ?_⟩
  · exact Or.inl ⟨by decide, by decide, by decide⟩
  · have apart : ∀ i < 4, 512 ≤ ((sampleHart.loadAddr ⟨.lw, 10, 8, 1⟩).up i -
        frameBase sampleHart).toNat := by decide
    exact fun i below => framedMem_outside sampleHart (apart i below)

/-- `lw a0, -3(s0)` is not: the handler loads from `s0 - 1022`. -/
theorem negative_lw_misread :
    Load.decode 0xFFD42503 = some ⟨.lw, 10, 8, 0xFFD⟩ ∧
      ¬EmulatesLoad 0xFFD42503 ⟨.lw, 10, 8, 0xFFD⟩ sampleHart := by
  have encoded : Load.decode 0xFFD42503 = some ⟨.lw, 10, 8, 0xFFD⟩ := by decide
  refine ⟨encoded, ?_⟩
  rintro ⟨after, entered, -⟩
  rw [trapEntry_load encoded] at entered
  obtain ⟨-, loads⟩ := Prod.mk.inj (Option.some.inj entered)
  rcases ((loads_eq_iff sampleHart _).mp loads).1 with ⟨-, -, positive⟩ | ⟨isZero, -⟩
  · exact absurd positive (by decide)
  · exact absurd isZero (by decide)

end K210Guard
