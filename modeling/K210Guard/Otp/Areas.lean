/-
**The areas of the array** (`drivers/otp.c`).

The data, the protection of the data blocks, the switches of the functions and the key share one
array of cells. A call of `otp_write_data`, `otp_key_write`, `otp_data_block_protect_set` or
`otp_func_reg_disable_set` asks for some cells to be set, and which ones depends on its arguments
and on its buffer alone. The other two functions that write, `otp_soft_write` in bypass mode and
`otp_wrtest` in its test mode, are not calls here.

* `calls_refine`: behind any sequence of these calls the array lies between the array before and
  the one in which all the bits that were asked for are or-ed in, and is the latter when the
  controller takes every bit.
* `calls_confined`: a cell changes only through a call to whose area it belongs, and a block is
  protected exactly by a call for that block.
-/

import K210Guard.Otp.WriteData

namespace K210Guard

open Prog (run run_bind_of_eq run_perform_bind)

namespace Otp

variable {α β : Type} {c : Controller}

/-! ### Programs that set some cells only -/

/-- From every machine with this memory the program returns, leaves the memory alone and sets
allowed cells only. -/
def Sets (c : Controller) (ram : Nat → Byte) (allowed : Nat → Prop) (p : Program α) : Prop :=
  ∀ m : Machine, m.ram = ram → ∃ value t, run (Machine.step c) p m = (some value, t) ∧
    t.ram = ram ∧ ∀ a, t.cells a = true → m.cells a = true ∨ allowed a

section Rules

variable {ram : Nat → Byte} {allowed : Nat → Prop}

theorem Sets.pure (value : α) : Sets c ram allowed (Prog.pure value) :=
  fun m same => ⟨value, m, rfl, same, fun _ set => .inl set⟩

/-- **The rule for sequences.** -/
theorem Sets.bind {p : Program α} {f : α → Program β} (first : Sets c ram allowed p)
    (rest : ∀ value, Sets c ram allowed (f value)) : Sets c ram allowed (p >>= f) := by
  intro m same
  obtain ⟨value, middle, runs, kept, early⟩ := first m same
  obtain ⟨result, t, ends, still, late⟩ := rest value middle kept
  refine ⟨result, t, (run_bind_of_eq _ runs).trans ends, still, fun a set => ?_⟩
  exact (late a set).elim (early a) .inr

theorem Sets.readRegister (register : Register) : Sets c ram allowed (readRegister register) := by
  intro m same
  have cells := Machine.read_cells (c := c) { m with clock := m.clock + 1 } register
  refine ⟨_, _, rfl, ?_, fun a set => .inl ((congrFun cells a).symm.trans set)⟩
  refine Eq.trans ?_ same
  cases register with
  | otpAdrInFlag =>
      show (Machine.read c _ .otpAdrInFlag).2.ram = m.ram
      rw [Machine.read]
      split <;> rfl
  | dataAcpFlag | otpDataRdy =>
      show (Machine.readAnswer c _ _).2.ram = m.ram
      rw [Machine.readAnswer]
      split <;> rfl
  | _ => rfl

/-- Every register but the one that hands a bit over. -/
theorem Sets.writeRegister {register : Register} (value : Word)
    (plain : register ≠ .datInFinish) : Sets c ram allowed (writeRegister register value) := by
  intro m same
  refine ⟨(), _, rfl, Eq.trans ?_ same, fun a set => .inl ?_⟩
  · cases register with
    | datInFinish => exact absurd rfl plain
    | _ => rfl
  · cases register with
    | datInFinish => exact absurd rfl plain
    | _ => exact set

theorem Sets.waitFlag (flag : Register) (polls : Nat) :
    Sets c ram allowed (waitFlag flag polls) := by
  induction polls with
  | zero => exact .pure false
  | succ polls ih =>
      refine (Sets.readRegister flag).bind fun value => ?_
      by_cases low : value = 0
      · rw [if_pos low]
        exact ih
      · rw [if_neg low]
        exact .pure true

end Rules

/-! ### One bit, and a buffer of bits -/

/-- The bits of a buffer that are set, from a bit address on. -/
def Asked (ram : Nat → Byte) (dataBuf : Nat) (addr : Word) (count a : Nat) : Prop :=
  ∃ i < count, bufferBit ram dataBuf i = true ∧ a = (addr + BitVec.ofNat 32 i).toNat

section Writing

variable {ram : Nat → Byte} {allowed : Nat → Prop}

/-- A bit is handed over at its own address, with its own value. -/
theorem giveBit_sets {last : Bool} {addr : Word} {data : Byte}
    (worth : last = true ∨ data.getLsbD 0 = true)
    (inside : data.getLsbD 0 = true → allowed addr.toNat) :
    Sets c ram allowed (giveBit last addr data) := by
  intro m same
  have unset : ((data &&& 0x01).setWidth 32 : Word).getLsbD 0 = data.getLsbD 0 := by
    simp
  have new (a : Nat) (set : (m.cells.program addr.toNat (data.getLsbD 0)) a = true) :
      m.cells a = true ∨ allowed a := by
    rw [Cells.program_apply, Bool.or_eq_true, Bool.and_eq_true, decide_eq_true_iff] at set
    refine set.imp_right fun here => ?_
    rw [here.1]
    exact inside here.2
  cases last with
  | true =>
      refine ⟨(), _, rfl, same, fun a set => ?_⟩
      change (if c.Accepts _ then m.cells.program _ (BitVec.getLsbD _ 0) else m.cells) a = true
        at set
      split at set
      · refine new a ?_
        simpa [Machine.step, Machine.access, Machine.write, Machine.put, unset] using set
      · exact .inl set
  | false =>
      have one := worth.resolve_left (by decide)
      refine ⟨(), _, rfl, same, fun a set => ?_⟩
      change (if c.Accepts _ then m.cells.program _ (BitVec.getLsbD _ 0) else m.cells) a = true
        at set
      split at set
      · refine new a ?_
        rw [one]
        simpa [Machine.step, Machine.access, Machine.write, Machine.put] using set
      · exact .inl set

theorem awaitAnswer_sets : Sets c ram allowed awaitAnswer := by
  refine (Sets.waitFlag .dataAcpFlag delayTimeout).bind fun answered => ?_
  cases answered with
  | false => exact .pure _
  | true =>
      refine (Sets.readRegister .otpWrgAdrFlag).bind fun wrgAdr => ?_
      split
      · exact .pure _
      · refine (Sets.readRegister .dataAcpFlag).bind fun dataAcp => ?_
        split
        · exact .pure _
        · exact (Sets.writeRegister 0 (by decide)).bind fun _ => .pure _

theorem offerIfWorth_sets {last : Bool} {addr : Word} {data : Byte}
    (inside : data.getLsbD 0 = true → allowed addr.toNat) :
    Sets c ram allowed (offerIfWorth last addr data) := by
  rw [offerIfWorth]
  split
  · rename_i worth
    replace worth := worth.imp_right (and_one_ne_zero data).mp
    refine (Sets.waitFlag .otpAdrInFlag delayTimeout).bind fun takesAddress => ?_
    cases takesAddress with
    | false => exact .pure _
    | true => exact (giveBit_sets worth inside).bind fun _ => awaitAnswer_sets
  · exact .pure _

/-- **The loop of `otp_write_byte`** asks for the bits of the buffer that are set, whether it comes
to its end or not. -/
theorem writeBits_sets (ram : Nat → Byte) (addr : Word) (dataBuf : Nat) {count j length : Nat}
    (left : j + length = count) :
    Sets c ram (Asked ram dataBuf addr count) (writeBits length (addr + BitVec.ofNat 32 j)
      (dataAt ram dataBuf j) (j % 8) (dataBuf + j / 8 + 1)) := by
  induction length generalizing j with
  | zero => exact .pure none
  | succ length ih =>
      have inside : (dataAt ram dataBuf j).getLsbD 0 = true →
          Asked ram dataBuf addr count (addr + BitVec.ofNat 32 j).toNat := by
        rw [dataAt_getLsbD]
        exact fun set => ⟨j, by omega, set, rfl⟩
      refine (offerIfWorth_sets inside).bind fun refused => ?_
      cases refused with
      | some status => exact .pure _
      | none =>
          intro m same
          obtain ⟨clock, next⟩ := fetchBit_run (c := c) dataBuf j m same
          obtain ⟨value, t, runs, kept, only⟩ := ih (j := j + 1) (by omega)
            { m with clock := clock, loads := m.loads ++ fetched dataBuf j 1 } same
          refine ⟨value, t, (run_bind_of_eq _ next).trans ?_, kept, only⟩
          rw [bitAddress_succ]
          exact runs

/-- **`otp_write_byte`**, for every controller. -/
theorem otpWriteByte_sets (addr : Word) (dataBuf : Nat) (length : Word) :
    Sets c ram (Asked ram dataBuf (addr * 8) (length * 8).toNat)
      (otpWriteByte addr dataBuf length) := by
  intro m same
  obtain ⟨ready, prelude, -, cells, kept, -, -, -⟩ :=
    writePrelude_run (c := c) addr dataBuf length m
  have loop := writeBits_sets (c := c) ram (addr * 8) dataBuf (j := 0)
    (Nat.zero_add (length * 8).toNat)
  have start : addr * 8 + BitVec.ofNat 32 0 = addr * 8 := BitVec.add_zero _
  rw [start, dataAt_zero, ← same] at loop
  obtain ⟨result, middle, runs, still, only⟩ := loop ready kept
  have looped := prelude.trans (run_bind_of_eq _ runs)
  rw [cells, same] at only
  cases result with
  | some status => exact ⟨status, middle, looped, still.trans same, only⟩
  | none =>
      obtain ⟨status, t, repairs, after⟩ := repair_run (c := c) middle
      refine ⟨status, t, looped.trans repairs, after.ram.trans (still.trans same), ?_⟩
      rw [after.cells]
      exact only

end Writing

/-! ### The calls of the driver -/

/-- `OTP_AES_KEY_ADDR` -/
def otpAesKeyAddr : Word := 0x00003FF0

def otpKeyWrite (dataBuf : Nat) : Program OtpStatus := do
  let status ← otpWriteByte otpAesKeyAddr dataBuf 16
  pure (if status = .errorAddress then .wiredRegSet else status)

/-- Calls of the four functions, with their arguments; `value` is where the local variable of the
function is. -/
inductive Call
  | writeData (addr : Word) (dataBuf : Nat) (length : Word)
  | keyWrite (dataBuf : Nat)
  | protectSet (block value : Nat)
  | disableSet (func value : Nat)

def Call.program : Call → Program OtpStatus
  | .writeData addr dataBuf length => otpWriteData addr dataBuf length
  | .keyWrite dataBuf => otpKeyWrite dataBuf
  | .protectSet block value => otpDataBlockProtectSet block value
  | .disableSet func value => otpFuncRegDisableSet func value

/-- Some calls, one after the other. -/
def serve : List Call → Program (List OtpStatus)
  | [] => pure []
  | call :: calls => do
      let status ← call.program
      let statuses ← serve calls
      pure (status :: statuses)

/-! ### What the calls are for -/

/-- The cells from the byte address `first` on that belong to `bytes` bytes. -/
def Within (first bytes a : Nat) : Prop := 8 * first ≤ a ∧ a < 8 * (first + bytes)

/-- The cells of the `number`-th pair of an area. -/
def Pair (area : Word) (number a : Nat) : Prop := number < 64 ∧ a / 2 = 4 * area.toNat + number

/-- The cells a call asks for, by the memory it starts with. -/
def Call.Asks (ram : Nat → Byte) : Call → Nat → Prop
  | .writeData addr dataBuf length, a =>
      addr < otpBisrDataAddr ∧ Within addr.toNat (dataBytes addr length) a ∧
        bufferBit ram dataBuf (a - 8 * addr.toNat) = true
  | .keyWrite dataBuf, a =>
      Within otpAesKeyAddr.toNat 16 a ∧ bufferBit ram dataBuf (a - 8 * otpAesKeyAddr.toNat) = true
  | .protectSet block _, a => Pair otpBlockCtlAddr block a
  | .disableSet func _, a => Pair otpWiredRegAddr func a

/-- The memory a call leaves: the two functions for a pair put its byte into their variable. -/
def Call.memory (ram : Nat → Byte) : Call → Nat → Byte
  | .writeData _ _ _ | .keyWrite _ => ram
  | .protectSet number value | .disableSet number value =>
      if number < 64 then Function.update ram value (0x03#8 <<< (number % 4 * 2)) else ram

/-- The cells that some calls ask for. -/
def Asks : List Call → (Nat → Byte) → Nat → Prop
  | [], _, _ => False
  | call :: calls, ram, a => call.Asks ram a ∨ Asks calls (call.memory ram) a

/-! ### One call -/

/-- Nothing is cleared, only cells that were asked for are set, and all of these when the controller
takes every bit. -/
structure Grown (c : Controller) (asked : Nat → Prop) (before after : Cells) : Prop where
  kept : ∀ a, before a = true → after a = true
  only : ∀ a, after a = true → before a = true ∨ asked a
  all : (∀ n, c.Takes n) → ∀ a, asked a → after a = true

theorem Grown.none {asked : Nat → Prop} {cells : Cells} (nothing : ∀ a, ¬ asked a) :
    Grown c asked cells cells :=
  ⟨fun _ set => set, fun _ set => .inl set, fun _ a asks => absurd asks (nothing a)⟩

theorem Grown.trans {first second : Nat → Prop} {before middle after : Cells}
    (one : Grown c first before middle) (two : Grown c second middle after) :
    Grown c (fun a => first a ∨ second a) before after where
  kept a set := two.kept a (one.kept a set)
  only a set := by
    obtain old | asks := two.only a set
    · exact (one.only a old).imp_right .inl
    · exact .inr (.inr asks)
  all takes a asks := by
    obtain asks | asks := asks
    · exact two.kept a (one.all takes a asks)
    · exact two.all takes a asks

theorem Grown.congr {asked same : Nat → Prop} {before after : Cells}
    (grown : Grown c asked before after) (iff : ∀ a, asked a ↔ same a) :
    Grown c same before after :=
  (funext fun a => propext (iff a) : asked = same) ▸ grown

/-- The bits of whole bytes that do not wrap. -/
theorem asked_iff {ram : Nat → Byte} {dataBuf bytes a : Nat} {addr : Word}
    (fits : 8 * (addr.toNat + bytes) ≤ 2 ^ 32) :
    Asked ram dataBuf (addr * 8) (8 * bytes) a ↔
      Within addr.toNat bytes a ∧ bufferBit ram dataBuf (a - 8 * addr.toNat) = true := by
  constructor
  · rintro ⟨i, below, set, rfl⟩
    rw [toNat_bitAddress (by omega), Nat.add_sub_cancel_left]
    exact ⟨⟨Nat.le_add_right _ _, by omega⟩, set⟩
  · rintro ⟨⟨from', below⟩, set⟩
    refine ⟨a - 8 * addr.toNat, by omega, set, ?_⟩
    rw [toNat_bitAddress (by omega), Nat.add_sub_cancel' from']

/-- **`otp_write_byte` asks for the bits of its buffer that are set.** -/
theorem otpWriteByte_grown (addr length : Word) (dataBuf bytes : Nat) (m : Machine)
    (bits : (length * 8).toNat = 8 * bytes) (fits : 8 * (addr.toNat + bytes) ≤ 2 ^ 32) :
    ∃ status t, run (Machine.step c) (otpWriteByte addr dataBuf length) m = (some status, t) ∧
      t.ram = m.ram ∧
      Grown c (fun a => Within addr.toNat bytes a ∧
        bufferBit m.ram dataBuf (a - 8 * addr.toNat) = true) m.cells t.cells := by
  obtain ⟨status, t, runs, kept, only⟩ :=
    otpWriteByte_sets (c := c) addr dataBuf length m rfl
  obtain ⟨_, _, again, -, taken, -⟩ := otpWriteByte_run (c := c) addr dataBuf length m
  rw [runs] at again
  cases again
  rw [bits] at only taken
  have keeps (a : Nat) (set : m.cells a = true) : t.cells a = true := by
    have stays := run_keeps (c := c) (otpWriteByte addr dataBuf length) m set
    rwa [runs] at stays
  refine ⟨status, t, runs, kept, .congr ⟨keeps, only, fun takes a asks => ?_⟩
    fun a => asked_iff fits⟩
  obtain ⟨i, below, set, rfl⟩ := asks
  rw [(taken fun n _ => takes _).2.1, programAll_iff]
  exact .inr ⟨_, List.mem_map_of_mem (mem_offered.mpr ⟨below, .inr set⟩), rfl, set⟩

/-- The byte of a pair has the bits of the pair. -/
theorem pairByte_getLsbD : ∀ pair < 4, ∀ i < 8,
    (0x03#8 <<< (pair * 2)).getLsbD i = decide (i / 2 = pair) := by decide

/-- The bits of a pair, in its byte of the area. -/
theorem pair_iff {area : Word} {number value a : Nat} {ram : Nat → Byte} (small : number < 64)
    (holds : ram value = 0x03#8 <<< (number % 4 * 2)) :
    Within (area.toNat + number / 4) 1 a ∧
        bufferBit ram value (a - 8 * (area.toNat + number / 4)) = true ↔
      Pair area number a := by
  rw [Pair, and_iff_right small]
  constructor
  · rintro ⟨⟨from', below⟩, set⟩
    rw [bufferBit, Nat.div_eq_of_lt (by omega), Nat.add_zero, holds,
      pairByte_getLsbD _ (Nat.mod_lt _ (by decide)) _ (Nat.mod_lt _ (by decide)),
      decide_eq_true_iff] at set
    omega
  · intro here
    refine ⟨⟨by omega, by omega⟩, ?_⟩
    rw [bufferBit, Nat.div_eq_of_lt (by omega), Nat.add_zero, holds,
      pairByte_getLsbD _ (Nat.mod_lt _ (by decide)) _ (Nat.mod_lt _ (by decide)),
      decide_eq_true_iff]
    omega

/-- Both functions for a pair. -/
theorem setControlBits_grown {area : Word} (inside : area.toNat < 2 ^ 16) (number value : Nat)
    (m : Machine) :
    ∃ status t, run (Machine.step c) (setControlBits area number value) m = (some status, t) ∧
      t.ram = (if number < 64 then
        Function.update m.ram value (0x03#8 <<< (number % 4 * 2)) else m.ram) ∧
      Grown c (Pair area number) m.cells t.cells := by
  by_cases small : number < 64
  · rw [setControlBits, if_neg (Nat.not_le.mpr small), if_pos small]
    have place : (area + BitVec.ofNat 32 (number / 4)).toNat = area.toNat + number / 4 := by
      rw [BitVec.toNat_add, BitVec.toNat_ofNat]
      omega
    obtain ⟨status, t, runs, kept, grown⟩ := otpWriteByte_grown (c := c)
      (area + BitVec.ofNat 32 (number / 4)) 1 value 1
      (run (Machine.step c) (do
        writeRegister .dataBlkCtrl 0x01
        store value (0x03#8 <<< (number % 4 * 2))) m).2 rfl (by omega)
    rw [place] at grown
    refine ⟨status, _, (run_bind_of_eq _ runs).trans rfl, kept, ?_⟩
    exact grown.congr fun a => pair_iff small (Function.update_self value _ m.ram)
  · rw [setControlBits, if_pos (Nat.not_lt.mp small), if_neg small]
    exact ⟨_, m, rfl, rfl, .none fun a asks => small asks.1⟩

/-- **One call**: it returns, and sets what it asks for. -/
theorem Call.run_grown (call : Call) (m : Machine) :
    ∃ status t, run (Machine.step c) call.program m = (some status, t) ∧
      t.ram = call.memory m.ram ∧ Grown c (call.Asks m.ram) m.cells t.cells := by
  cases call with
  | writeData addr dataBuf length =>
      by_cases inside : addr < otpBisrDataAddr
      · have bound : otpBisrDataAddr.toNat = 0x3DD0 := rfl
        have room := dataBytes_inside length inside
        obtain ⟨status, t, runs, kept, grown⟩ := otpWriteByte_grown (c := c) addr
          (clampLength addr length) dataBuf _ m (clampLength_bits inside) (by omega)
        refine ⟨if status = .errorAddress then .blockProtected else status, t, ?_, kept,
          grown.congr fun a => (and_iff_right inside).symm⟩
        rw [program, otpWriteData, if_neg (BitVec.not_le.mpr inside)]
        exact run_bind_of_eq _ runs
      · refine ⟨.errorAddress, m, ?_, rfl, .none fun a asks => inside asks.1⟩
        rw [program, otpWriteData, if_pos (BitVec.not_lt.mp inside)]
        rfl
  | keyWrite dataBuf =>
      obtain ⟨status, t, runs, kept, grown⟩ := otpWriteByte_grown (c := c) otpAesKeyAddr 16
        dataBuf 16 m rfl (by decide)
      exact ⟨_, t, run_bind_of_eq _ runs, kept, grown⟩
  | protectSet block value => exact setControlBits_grown (by decide) block value m
  | disableSet func value => exact setControlBits_grown (by decide) func value m

/-! ### Sequences of calls -/

/-- Some calls: they return, and set what they ask for. -/
theorem serve_grown (calls : List Call) (m : Machine) :
    ∃ statuses t, run (Machine.step c) (serve calls) m = (some statuses, t) ∧
      Grown c (Asks calls m.ram) m.cells t.cells := by
  induction calls generalizing m with
  | nil => exact ⟨[], m, rfl, .none fun _ asks => asks⟩
  | cons call calls ih =>
      obtain ⟨status, middle, runs, memory, first⟩ := call.run_grown (c := c) m
      obtain ⟨statuses, t, ends, rest⟩ := ih middle
      refine ⟨status :: statuses, t, (run_bind_of_eq _ runs).trans (run_bind_of_eq _ ends), ?_⟩
      rw [memory] at rest
      exact first.trans rest

/-- **The bit-serial driver or bits into the array**: behind any sequence of calls the array lies
between what it was and what was asked for, and is the latter when every bit is taken. -/
theorem calls_refine (c : Controller) (calls : List Call) (m : Machine) :
    ∃ statuses t, run (Machine.step c) (serve calls) m = (some statuses, t) ∧
      (∀ a, m.cells a = true → t.cells a = true) ∧
      (∀ a, t.cells a = true → m.cells a = true ∨ Asks calls m.ram a) ∧
      ((∀ n, c.Takes n) → ∀ a, t.cells a = true ↔ m.cells a = true ∨ Asks calls m.ram a) := by
  obtain ⟨statuses, t, runs, grown⟩ := serve_grown (c := c) calls m
  refine ⟨statuses, t, runs, grown.kept, grown.only, fun takes a => ⟨grown.only a, ?_⟩⟩
  rintro (old | asks)
  · exact grown.kept a old
  · exact grown.all takes a asks

/-! ### Whose cell it is -/

/-- The cells a call may set, by its arguments alone. -/
def Call.Area : Call → Nat → Prop
  | .writeData addr _ length, a =>
      addr.toNat ≤ a / 8 ∧ a / 8 < addr.toNat + length.toNat ∧ a / 8 < otpBisrDataAddr.toNat
  | .keyWrite _, a => otpAesKeyAddr.toNat ≤ a / 8 ∧ a / 8 < otpAesKeyAddr.toNat + 16
  | .protectSet block _, a => Pair otpBlockCtlAddr block a
  | .disableSet func _, a => Pair otpWiredRegAddr func a

theorem Call.Asks.area {call : Call} {ram : Nat → Byte} {a : Nat} (asks : call.Asks ram a) :
    call.Area a := by
  cases call with
  | writeData addr dataBuf length =>
      obtain ⟨inside, ⟨from', below⟩, -⟩ := asks
      have room := dataBytes_inside length inside
      have fewer : dataBytes addr length ≤ length.toNat := min_le_left _ _
      exact ⟨by omega, by omega, by omega⟩
  | keyWrite dataBuf =>
      obtain ⟨⟨from', below⟩, -⟩ := asks
      exact ⟨by omega, by omega⟩
  | protectSet block value => exact asks
  | disableSet func value => exact asks

theorem Asks.area {calls : List Call} {ram : Nat → Byte} {a : Nat} (asks : Asks calls ram a) :
    ∃ call ∈ calls, call.Area a := by
  induction calls generalizing ram with
  | nil => exact asks.elim
  | cons call calls ih =>
      obtain first | later := asks
      · exact ⟨call, List.mem_cons_self, first.area⟩
      · obtain ⟨other, among, area⟩ := ih later
        exact ⟨other, List.mem_cons_of_mem _ among, area⟩

/-- A pair that some call sets is asked for, whatever the memory. -/
theorem Asks.of_protectSet {calls : List Call} {block value a : Nat} (ram : Nat → Byte)
    (among : Call.protectSet block value ∈ calls) (pair : Pair otpBlockCtlAddr block a) :
    Asks calls ram a := by
  induction calls generalizing ram with
  | nil => cases among
  | cons call calls ih =>
      obtain rfl | later := List.mem_cons.mp among
      · exact .inl pair
      · exact .inr (ih _ later)

/-- Only a call for a block has the cells of the block in its area. -/
theorem Call.Area.block {call : Call} {block a : Nat} (area : call.Area a)
    (pair : Pair otpBlockCtlAddr block a) : ∃ value, call = .protectSet block value := by
  have start : otpBlockCtlAddr.toNat = 0x3FD0 := rfl
  obtain ⟨small, here⟩ := pair
  cases call with
  | writeData addr dataBuf length =>
      have bound : otpBisrDataAddr.toNat = 0x3DD0 := rfl
      exact absurd area.2.2 (by omega)
  | keyWrite dataBuf =>
      have key : otpAesKeyAddr.toNat = 0x3FF0 := rfl
      exact absurd area.1 (by omega)
  | protectSet other value =>
      obtain ⟨-, there⟩ := area
      have same : other = block := by omega
      exact ⟨value, by rw [same]⟩
  | disableSet func value =>
      obtain ⟨less, there⟩ := area
      have wired : otpWiredRegAddr.toNat = 0x3FE0 := rfl
      omega

/-- Both bits of the block are set. -/
def Protected (cells : Cells) (block : Nat) : Prop :=
  ∀ a, Pair otpBlockCtlAddr block a → cells a = true

/-- **Whatever the controller does, a cell changes only through a call to whose area it belongs**;
and of the four functions only `otp_data_block_protect_set` protects a block, the one it is called
for, and does so if every bit is taken. -/
theorem calls_confined (c : Controller) (calls : List Call) (m : Machine) :
    let t := (run (Machine.step c) (serve calls) m).2
    (∀ a, t.cells a ≠ m.cells a → m.cells a = false ∧ ∃ call ∈ calls, call.Area a) ∧
    ∀ block < 64, (Protected t.cells block →
        Protected m.cells block ∨ ∃ value, .protectSet block value ∈ calls) ∧
      ((∀ n, c.Takes n) → (∃ value, .protectSet block value ∈ calls) →
        Protected t.cells block) := by
  intro t
  obtain ⟨statuses, last, runs, grown⟩ := serve_grown (c := c) calls m
  have same : t = last := congrArg Prod.snd runs
  rw [same]
  have changed (a : Nat) (new : last.cells a ≠ m.cells a) :
      m.cells a = false ∧ ∃ call ∈ calls, call.Area a := by
    cases old : m.cells a with
    | true => exact absurd ((grown.kept a old).trans old.symm) new
    | false =>
        have set : last.cells a = true := by
          rw [old] at new
          exact Bool.eq_true_of_not_eq_false new
        obtain before | asks := grown.only a set
        · exact absurd (before.symm.trans old) (by decide)
        · exact ⟨rfl, asks.area⟩
  refine ⟨changed, fun block _ => ⟨fun done => ?_, ?_⟩⟩
  · by_cases already : Protected m.cells block
    · exact .inl already
    · refine .inr ?_
      obtain ⟨a, pair, unset⟩ : ∃ a, Pair otpBlockCtlAddr block a ∧ m.cells a ≠ true := by
        simpa [Protected] using already
      obtain ⟨-, call, among, area⟩ :=
        changed a fun still => unset (still.symm.trans (done a pair))
      obtain ⟨value, rfl⟩ := area.block pair
      exact ⟨value, among⟩
  · rintro takes ⟨value, among⟩ a pair
    exact grown.all takes a (.of_protectSet m.ram among pair)

end Otp

end K210Guard
