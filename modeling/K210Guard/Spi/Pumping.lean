/-
**Pumping the FIFOs** (`drivers/flash.c`).

The level of a FIFO is sampled once and trusted for a burst. That is sound for every schedule: until
the next access of the driver the transmit FIFO only gets emptier and the receive FIFO fuller.

* `Running`: what holds of an enabled controller between two accesses: nothing was refused, no read
  found an empty FIFO, and what was pushed is what is on the wire and what is still queued.
* `pushAll_serves`, `popAll_serves`, `sendBurst_serves`: what a burst does.
* `sendRest_serves`, `waitSent_serves`, `receiveRest_serves`: the loops, with the invariant and the
  rank of each.
-/

import Mathlib.Data.Prod.Lex
import K210Guard.Spi.Controller

namespace K210Guard

open Filter Prog

namespace Spi

/-- Entries leave, frames arrive and the bus gets idle again and again. -/
structure Line.Fair (line : Line) : Prop where
  drains : ∃ᶠ clock in atTop, 0 < line.drains clock
  fills : ∃ᶠ clock in atTop, 0 < line.fills clock
  idle : ∃ᶠ clock in atTop, (line.status clock).getLsbD 0 = false

/-- The first `count` frames that the flash sends. -/
def Line.sends (line : Line) (count : Nat) : List Frame := (List.range count).map line.frames

@[simp] theorem Line.length_sends (line : Line) (count : Nat) :
    (line.sends count).length = count := by
  simp [Line.sends]

/-- More frames. -/
theorem Line.sends_add (line : Line) (count more : Nat) :
    line.sends (count + more) = line.sends count ++ (List.range' count more).map line.frames := by
  have split := @List.range'_append_1 0 count more
  rw [Nat.zero_add] at split
  rw [Line.sends, Line.sends, ← List.map_append, List.range_eq_range', List.range_eq_range', split]

theorem Line.sends_prefix (line : Line) {count total : Nat} (most : count ≤ total) :
    line.sends count <+: line.sends total := by
  obtain ⟨more, rfl⟩ := Nat.exists_eq_add_of_le most
  exact ⟨_, (line.sends_add count more).symm⟩

/-! ### What holds between two accesses -/

/-- A controller that lost nothing. -/
structure Lossless (line : Line) (s : Controller) : Prop where
  room : s.tx.length ≤ fifoDepth
  space : s.rx.length ≤ fifoDepth
  sent : s.wire ++ s.tx = s.pushed
  received : s.popped ++ s.rx = line.sends s.arrived
  accepted : s.refused = 0
  held : s.underruns = 0

/-- The same of a controller that is enabled. -/
structure Running (line : Line) (s : Controller) : Prop extends Lossless line s where
  enabled : s.ssienr = 1

/-- What an access leaves alone while the controller only moves on. -/
structure MovedOn (s t : Controller) : Prop where
  ssienr : t.ssienr = s.ssienr
  ser : t.ser = s.ser
  ctrlr1 : t.ctrlr1 = s.ctrlr1
  pushed : t.pushed = s.pushed
  popped : t.popped = s.popped
  drained : t.tx.length ≤ s.tx.length
  filled : s.rx.length ≤ t.rx.length

variable {line : Line} {s t : Controller}

/-- **Moving on** loses nothing. -/
theorem tick_lossless (lossless : Lossless line s) :
    Lossless line (s.tick line) ∧ MovedOn s (s.tick line) := by
  unfold Controller.tick
  split
  · refine ⟨⟨?_, ?_, ?_, ?_, lossless.accepted, lossless.held⟩, rfl, rfl, rfl, rfl, rfl, ?_, ?_⟩
    · have bound := lossless.room
      show (s.tx.drop _).length ≤ _
      rw [List.length_drop]
      omega
    · have bound := lossless.space
      show (s.rx ++ (List.range' s.arrived (s.arriving line)).map line.frames).length ≤ _
      rw [List.length_append, List.length_map, List.length_range', Controller.arriving]
      omega
    · show s.wire ++ s.tx.take _ ++ s.tx.drop _ = s.pushed
      rw [List.append_assoc, List.take_append_drop, lossless.sent]
    · show s.popped ++ (s.rx ++ _) = line.sends (s.arrived + _)
      rw [← List.append_assoc, lossless.received, line.sends_add]
    · simp
    · simp
  · exact ⟨⟨lossless.room, lossless.space, lossless.sent, lossless.received, lossless.accepted,
      lossless.held⟩, rfl, rfl, rfl, rfl, rfl, le_rfl, le_rfl⟩

/-- Moving on keeps what holds between two accesses. -/
theorem tick_spec (running : Running line s) :
    Running line (s.tick line) ∧ MovedOn s (s.tick line) := by
  obtain ⟨still, moved⟩ := tick_lossless running.toLossless
  exact ⟨⟨still, moved.ssienr.trans running.enabled⟩, moved⟩

theorem tick_clock : (s.tick line).clock = s.clock + 1 := by
  unfold Controller.tick
  split <;> rfl

/-- The entries that are left when the driver looks, while a slave is selected. -/
theorem tick_tx (running : Running line s) (selected : s.ser ≠ 0) :
    (s.tick line).tx = s.tx.drop (line.drains s.clock) := by
  rw [Controller.tick, if_pos ⟨running.enabled, selected⟩]

theorem tick_rx (running : Running line s) (selected : s.ser ≠ 0) :
    (s.tick line).rx.length = s.rx.length + s.arriving line := by
  rw [Controller.tick, if_pos ⟨running.enabled, selected⟩]
  simp

/-- The frames that have arrived are those popped and those held. -/
theorem Lossless.arrived_eq (lossless : Lossless line s) :
    s.arrived = s.popped.length + s.rx.length := by
  have same := congrArg List.length lossless.received
  simpa using same.symm

/-- The frames popped are the first ones that the flash sent. -/
theorem Lossless.popped_eq (lossless : Lossless line s) :
    s.popped = line.sends s.popped.length := by
  have split := lossless.received
  rw [lossless.arrived_eq, line.sends_add] at split
  exact (List.append_inj split (line.length_sends _).symm).1

/-! ### One access -/

/-- **A push into a FIFO with room.** -/
theorem push_spec (running : Running line s) (value : Frame) (room : s.tx.length < fifoDepth) :
    let after := (Controller.step line s (.write .dr value)).2
    Running line after ∧ after.ser = s.ser ∧ after.ctrlr1 = s.ctrlr1 ∧
      after.pushed = s.pushed ++ [value] ∧ after.popped = s.popped ∧
      after.tx.length ≤ s.tx.length + 1 := by
  obtain ⟨still, moved⟩ := tick_spec running
  have fits : (s.tick line).tx.length < fifoDepth := lt_of_le_of_lt moved.drained room
  have accepts : (Controller.step line s (.write .dr value)).2 =
      { s.tick line with
        tx := (s.tick line).tx ++ [value], pushed := (s.tick line).pushed ++ [value] } :=
    if_pos ⟨still.enabled, fits⟩
  intro after
  rw [show after = _ from accepts]
  refine ⟨⟨⟨?_, still.space, ?_, still.received, still.accepted, still.held⟩, still.enabled⟩,
    moved.ser, moved.ctrlr1, ?_, moved.popped, ?_⟩
  · show (_ ++ [value]).length ≤ _
    rw [List.length_append]
    exact fits
  · show _ ++ (_ ++ [value]) = _ ++ [value]
    rw [← List.append_assoc, still.sent]
  · show _ ++ [value] = _
    rw [moved.pushed]
  · simpa using moved.drained

/-- **A pop from a FIFO that holds a frame.** -/
theorem pop_spec (running : Running line s) (holds : 0 < s.rx.length) :
    ∃ frame, (Controller.step line s (.read .dr)).1 = frame ∧
      let after := (Controller.step line s (.read .dr)).2
      Running line after ∧ after.ser = s.ser ∧ after.ctrlr1 = s.ctrlr1 ∧
        after.pushed = s.pushed ∧ after.popped = s.popped ++ [frame] ∧
        s.rx.length ≤ after.rx.length + 1 := by
  obtain ⟨still, moved⟩ := tick_spec running
  obtain ⟨frame, rest, queue⟩ : ∃ frame rest, (s.tick line).rx = frame :: rest :=
    List.exists_cons_of_length_pos (lt_of_lt_of_le holds moved.filled)
  have pops : Controller.step line s (.read .dr) =
      (frame, { s.tick line with rx := rest, popped := (s.tick line).popped ++ [frame] }) := by
    show (s.tick line).readDr = _
    rw [Controller.readDr, queue]
  refine ⟨frame, by rw [pops], ?_⟩
  rw [pops]
  refine ⟨⟨⟨still.room, ?_, still.sent, ?_, still.accepted, still.held⟩, still.enabled⟩,
    moved.ser, moved.ctrlr1, moved.pushed, ?_, ?_⟩
  · have space := still.space
    rw [queue] at space
    exact le_of_lt space
  · show _ ++ [frame] ++ rest = _
    rw [List.append_assoc, List.singleton_append, ← queue, still.received]
  · show _ ++ [frame] = _
    rw [moved.popped]
  · have more := moved.filled
    rw [queue] at more
    exact more

/-! ### Bursts -/

variable {fair : Prop} {safe : Controller → Prop}

/-- **A burst of pushes** that the FIFO has room for. -/
theorem pushAll_serves (entries : List Frame) (running : Running line s)
    (room : s.tx.length + entries.length ≤ fifoDepth) :
    Serves (Controller.step line) fair safe s (fun _ => pushAll entries) fun _ t =>
      Running line t ∧ t.ser = s.ser ∧ t.ctrlr1 = s.ctrlr1 ∧ t.pushed = s.pushed ++ entries ∧
        t.popped = s.popped ∧ t.tx.length ≤ s.tx.length + entries.length ∧
        (entries = [] → t = s) := by
  induction entries generalizing s with
  | nil => exact .pure ⟨running, rfl, rfl, by simp, rfl, le_rfl, fun _ => rfl⟩
  | cons entry rest ih =>
      rw [List.length_cons] at room
      obtain ⟨still, ser, ctrlr1, pushed, popped, level⟩ :=
        push_spec running entry (by omega)
      refine Serves.andThen ((ih still (by omega)).weaken ?_)
      rintro _ t ⟨later, ser', ctrlr1', pushed', popped', level', -⟩
      refine ⟨later, ser'.trans ser, ctrlr1'.trans ctrlr1, ?_, popped'.trans popped, ?_, nofun⟩
      · rw [pushed', pushed, List.append_assoc, List.singleton_append]
      · rw [List.length_cons]
        omega

/-- **A burst of pops** of frames that the FIFO holds. -/
theorem popAll_serves (count : Nat) (running : Running line s) (holds : count ≤ s.rx.length) :
    Serves (Controller.step line) fair safe s (fun _ => popAll count) fun bytes t =>
      ∃ frames : List Frame, Running line t ∧ t.ser = s.ser ∧ t.ctrlr1 = s.ctrlr1 ∧
        t.pushed = s.pushed ∧ t.popped = s.popped ++ frames ∧
        bytes = frames.map (BitVec.setWidth 8) ∧ frames.length = count ∧ (count = 0 → t = s) := by
  induction count generalizing s with
  | zero => exact .pure ⟨[], running, rfl, rfl, rfl, by simp, rfl, rfl, fun _ => rfl⟩
  | succ count ih =>
      obtain ⟨frame, read, still, ser, ctrlr1, pushed, popped, level⟩ :=
        pop_spec running (by omega)
      refine Serves.andThen ((ih still (by omega)).bind ?_)
      rintro bytes t ⟨frames, later, ser', ctrlr1', pushed', popped', rfl, size, -⟩
      refine .pure ⟨frame :: frames, later, ser'.trans ser, ctrlr1'.trans ctrlr1,
        pushed'.trans pushed, ?_, ?_, congrArg (· + 1) size, nofun⟩
      · rw [popped', popped, List.append_assoc, List.singleton_append]
      · rw [read, List.map_cons]

/-- A level that fits the register is read exactly. -/
theorem level_toNat {level : Nat} (bound : level ≤ fifoDepth) :
    (BitVec.ofNat 32 level).toNat = level ∧
      (32#32 - BitVec.ofNat 32 level).toNat = fifoDepth - level := by
  have small : level < 2 ^ 32 := lt_of_le_of_lt bound (by decide)
  have read : (BitVec.ofNat 32 level).toNat = level := by
    rw [BitVec.toNat_ofNat, Nat.mod_eq_of_lt small]
  refine ⟨read, ?_⟩
  rw [BitVec.toNat_sub_of_le (by rw [BitVec.le_def, read]; exact bound), read]
  rfl

/-- The smaller one of two numbers, as the driver computes it. -/
theorem smaller_eq (level rest : Nat) :
    (if level < rest then level else rest) = min level rest := by
  rw [Nat.min_def]
  split <;> split <;> omega

/-- **A burst of `sendBurst`**: it takes at least one byte, unless the FIFO is full or the buffer
empty. -/
theorem sendBurst_serves (txBuff : List Byte) (running : Running line s) :
    Serves (Controller.step line) fair safe s (fun _ => sendBurst txBuff) fun rest t =>
      Running line t ∧ t.ser = s.ser ∧ t.popped = s.popped ∧
        t.pushed ++ rest.map (BitVec.setWidth 32) =
          s.pushed ++ txBuff.map (BitVec.setWidth 32) ∧
        (rest.length < txBuff.length ∨
          rest = txBuff ∧ t = s.tick line ∧ (txBuff = [] ∨ t.tx.length = fifoDepth)) := by
  obtain ⟨still, moved⟩ := tick_spec running
  have level : (32#32 - (Controller.step line s (.read .txflr)).1).toNat =
      fifoDepth - (s.tick line).tx.length := (level_toNat still.room).2
  refine Serves.andThen ?_
  show Serves _ _ _ (s.tick line) (fun _ => pushAll _ >>= _) _
  simp only [level, smaller_eq]
  obtain ⟨count, burst⟩ :
      ∃ count, min (fifoDepth - (s.tick line).tx.length) txBuff.length = count := ⟨_, rfl⟩
  rw [burst]
  have size : ((txBuff.take count).map (BitVec.setWidth 32)).length = count := by
    rw [List.length_map, List.length_take]
    omega
  refine (pushAll_serves _ still (by have := still.room; omega)).bind ?_
  rintro _ t ⟨later, ser, -, pushed, popped, -, unmoved⟩
  refine .pure ⟨later, ser.trans moved.ser, popped.trans moved.popped, ?_, ?_⟩
  · rw [pushed, moved.pushed, List.append_assoc, ← List.map_append, List.take_append_drop]
  · rw [List.length_drop]
    rcases Nat.eq_zero_or_pos count with none | some
    · subst none
      obtain rfl := unmoved (by simp)
      refine Or.inr ⟨rfl, rfl, ?_⟩
      have bound := still.room
      rcases Nat.eq_zero_or_pos txBuff.length with empty | more
      · exact Or.inl (List.length_eq_zero_iff.mp empty)
      · exact Or.inr (by omega)
    · exact Or.inl (by omega)

/-! ### The loops -/

/-- **A lap that pushes nothing is a tick without a drain.** -/
theorem quiet_of_full (running : Running line s) (selected : s.ser ≠ 0)
    (full : (s.tick line).tx.length = fifoDepth) : ¬ 0 < line.drains s.clock := by
  have room := running.room
  rw [tick_tx running selected, List.length_drop] at full
  have depth : 0 < fifoDepth := by decide
  omega

/-- `while (tx_len)` sends the rest of the buffer. -/
theorem sendRest_serves (fairness : fair → line.Fair) {entries : List Frame}
    (isSafe : ∀ t, Running line t → t.pushed <+: entries → safe t) (txBuff : List Byte)
    (running : Running line s) (selected : s.ser ≠ 0)
    (left : s.pushed ++ txBuff.map (BitVec.setWidth 32) = entries) :
    Serves (Controller.step line) fair safe s (fun polls => sendRest polls txBuff) fun _ t =>
      Running line t ∧ t.ser ≠ 0 ∧ t.popped = s.popped ∧ t.pushed = entries := by
  refine Serves.repeatUntil
    (fun rest t => Running line t ∧ t.ser ≠ 0 ∧ t.popped = s.popped ∧
      t.pushed ++ rest.map (BitVec.setWidth 32) = entries)
    (fun rest t => toLex (rest.length, untilNext (0 < line.drains ·) t.clock)) ?_
    (fun rest t invariant => isSafe t invariant.1 ⟨_, invariant.2.2.2⟩)
    ⟨running, selected, rfl, left⟩
  rintro rest t ⟨still, chosen, popped, left⟩
  by_cases empty : rest = []
  · rw [if_pos empty]
    subst empty
    rw [List.map_nil, List.append_nil] at left
    exact .pure ⟨still, chosen, popped, left⟩
  · rw [if_neg empty]
    refine (sendBurst_serves rest still).bind ?_
    rintro less u ⟨later, ser, popped', queued, progress⟩
    refine .pure ⟨⟨later, ser ▸ chosen, popped'.trans popped, queued.trans left⟩, fun isFair => ?_⟩
    rw [Prod.Lex.toLex_lt_toLex]
    rcases progress with shorter | ⟨rfl, rfl, nothing | full⟩
    · exact Or.inl shorter
    · exact absurd nothing empty
    · refine Or.inr ⟨rfl, ?_⟩
      rw [tick_clock]
      exact untilNext_succ_lt (fairness isFair).drains (quiet_of_full still chosen full)

/-- The bits of `sr` that the driver looks at: idle, and nothing left to send. -/
theorem sr_eq_iff (status : Frame) (s : Controller) :
    s.sr status &&& 0x05#32 = 0x04#32 ↔ s.tx = [] ∧ status.getLsbD 0 = false := by
  have low : s.sr status &&& 0x05#32 =
      status &&& 1#32 ||| if s.tx = [] then 0x04#32 else 0 := by
    rw [Controller.sr, BitVec.and_or_distrib_right, BitVec.and_assoc]
    congr 1
    split <;> rfl
  rw [low, BitVec.and_one_eq_setWidth_ofBool_getLsbD]
  by_cases empty : s.tx = [] <;> cases bit : status.getLsbD 0 <;> simp [empty]

/-- A tick that drains nothing leaves the FIFO as it is. -/
theorem tick_tx_same (running : Running line s) (selected : s.ser ≠ 0)
    (undrained : ¬ (s.tick line).tx.length < s.tx.length) : (s.tick line).tx = s.tx := by
  rw [tick_tx running selected, List.length_drop] at undrained
  rw [tick_tx running selected]
  by_cases none : line.drains s.clock = 0
  · rw [none, List.drop_zero]
  · rw [List.length_eq_zero_iff.mp (show s.tx.length = 0 by omega), List.drop_nil]

/-- The rank of the wait: the entries that are left, then the time until the next one leaves or,
with none left, until the bus is idle. -/
noncomputable def sendRank (line : Line) (s : Controller) : Nat ×ₗ Nat :=
  open scoped Classical in
  toLex (s.tx.length,
    if s.tx = [] then untilNext (fun clock => (line.status clock).getLsbD 0 = false) s.clock
    else untilNext (0 < line.drains ·) s.clock)

/-- **A poll that does not end the wait** lowers its rank. -/
theorem sendRank_tick (isFair : line.Fair) (running : Running line s) (selected : s.ser ≠ 0)
    (unsent : ¬ (s.tick line).sr (line.status s.clock) &&& 0x05#32 = 0x04#32) :
    sendRank line (s.tick line) < sendRank line s := by
  rw [sendRank, sendRank, Prod.Lex.toLex_lt_toLex, tick_clock]
  by_cases drained : (s.tick line).tx.length < s.tx.length
  · exact Or.inl drained
  · have same := tick_tx_same running selected drained
    refine Or.inr ⟨congrArg List.length same, ?_⟩
    rw [same]
    by_cases empty : s.tx = []
    · rw [if_pos empty, if_pos empty]
      refine untilNext_succ_lt isFair.idle fun idle => unsent ?_
      exact (sr_eq_iff _ _).mpr ⟨same.trans empty, idle⟩
    · rw [if_neg empty, if_neg empty]
      refine untilNext_succ_lt isFair.drains fun drains => drained ?_
      rw [tick_tx running selected, List.length_drop]
      have some := List.length_pos_iff.mpr empty
      omega

/-- `while ((sr & 0x05) != 0x04)` waits until everything is on the wire. -/
theorem waitSent_serves (fairness : fair → line.Fair) {entries : List Frame}
    (isSafe : ∀ t, Running line t → t.pushed <+: entries → safe t)
    (running : Running line s) (selected : s.ser ≠ 0) (all : s.pushed = entries) :
    Serves (Controller.step line) fair safe s (fun polls => waitSent polls ()) fun _ t =>
      Running line t ∧ t.popped = s.popped ∧ t.pushed = entries ∧ t.tx = [] := by
  refine Serves.repeatUntil
    (fun _ t => Running line t ∧ t.ser ≠ 0 ∧ t.popped = s.popped ∧ t.pushed = entries)
    (fun _ t => sendRank line t) ?_
    (fun _ t invariant => isSafe t invariant.1 (by rw [invariant.2.2.2]))
    ⟨running, selected, rfl, all⟩
  rintro _ t ⟨still, chosen, popped, all⟩
  obtain ⟨later, moved⟩ := tick_spec still
  refine Serves.andThen ?_
  show Serves _ _ _ (t.tick line) _ _
  have answer : (Controller.step line t (.read .sr)).1 =
      (t.tick line).sr (line.status t.clock) := rfl
  rw [answer]
  by_cases sent : (t.tick line).sr (line.status t.clock) &&& 0x05#32 = 0x04#32
  · rw [if_neg (not_not.mpr sent)]
    exact .pure ⟨later, moved.popped.trans popped, moved.pushed.trans all,
      ((sr_eq_iff _ _).mp sent).1⟩
  · rw [if_pos sent]
    exact .pure ⟨⟨later, moved.ser ▸ chosen, moved.popped.trans popped, moved.pushed.trans all⟩,
      fun isFair => sendRank_tick (fairness isFair) still chosen sent⟩

/-- **A lap that pops nothing is a tick without an arrival**, as long as frames are missing. -/
theorem quiet_of_empty (running : Running line s) (selected : s.ser ≠ 0)
    (empty : (s.tick line).rx = []) (missing : s.popped.length < s.ctrlr1.toNat + 1) :
    ¬ 0 < line.fills s.clock := by
  have count := tick_rx running selected
  have arrived := running.arrived_eq
  rw [empty, List.length_nil, Controller.arriving] at count
  have depth : 0 < fifoDepth := by decide
  omega

/-- While frames are missing, fewer have been taken than were asked for. -/
theorem taken_lt {rxLen : BitVec 32} {taken left : Nat} (total : taken + left = rxLen.toNat)
    (missing : left ≠ 0) : taken < (rxLen - 1).toNat + 1 := by
  have positive : 1 ≤ rxLen := by
    rw [BitVec.le_def]
    show 1 ≤ rxLen.toNat
    omega
  rw [BitVec.toNat_sub_of_le positive]
  show taken < rxLen.toNat - 1 + 1
  omega

/-- **A burst of the receiver**: the frames held, if they are asked for. -/
theorem receiveBurst_serves (left : Nat) (running : Running line s) :
    Serves (Controller.step line) fair safe (s.tick line)
      (fun _ => popAll (min (Controller.step line s (.read .rxflr)).1.toNat left)) fun bytes t =>
        ∃ frames : List Frame, Running line t ∧ t.ser = s.ser ∧ t.ctrlr1 = s.ctrlr1 ∧
          t.pushed = s.pushed ∧ t.popped = s.popped ++ frames ∧
          bytes = frames.map (BitVec.setWidth 8) ∧
          frames.length = min (Controller.step line s (.read .rxflr)).1.toNat left ∧
          (frames.length = 0 → left ≠ 0 → t = s.tick line ∧ (s.tick line).rx = []) := by
  obtain ⟨later, moved⟩ := tick_spec running
  have level : (Controller.step line s (.read .rxflr)).1.toNat = (s.tick line).rx.length :=
    (level_toNat later.space).1
  rw [level]
  refine (popAll_serves _ later (min_le_left _ _)).weaken ?_
  rintro bytes t ⟨frames, taken, ser, ctrlr1, pushed, popped, same, size, unmoved⟩
  refine ⟨frames, taken, ser.trans moved.ser, ctrlr1.trans moved.ctrlr1,
    pushed.trans moved.pushed, by rw [popped, moved.popped], same, size, fun nothing missing => ?_⟩
  rw [size] at nothing
  exact ⟨unmoved nothing, List.length_eq_zero_iff.mp (by omega)⟩

/-- `while (rx_len)` takes what is missing of `rx_len` frames. -/
theorem receiveRest_serves (fairness : fair → line.Fair) {rxLen : BitVec 32}
    (isSafe : ∀ t, Running line t → t.pushed = s.pushed → t.popped.length ≤ rxLen.toNat → safe t)
    (running : Running line s) (selected : s.ser ≠ 0) (frames : s.ctrlr1 = rxLen - 1)
    (none : s.popped = []) :
    Serves (Controller.step line) fair safe s
      (fun polls => receiveRest polls (rxLen.toNat, [])) fun bytes t =>
        Running line t ∧ t.pushed = s.pushed ∧ t.popped.length = rxLen.toNat ∧
          bytes = t.popped.map (BitVec.setWidth 8) := by
  refine Serves.repeatUntil
    (fun left t => Running line t ∧ t.ser ≠ 0 ∧ t.ctrlr1 = rxLen - 1 ∧ t.pushed = s.pushed ∧
      t.popped.length + left.1 = rxLen.toNat ∧ left.2 = t.popped.map (BitVec.setWidth 8))
    (fun left t => toLex (left.1, untilNext (0 < line.fills ·) t.clock)) ?_
    (fun left t invariant =>
      isSafe t invariant.1 invariant.2.2.2.1 (invariant.2.2.2.2.1 ▸ Nat.le_add_right _ _))
    ⟨running, selected, frames, rfl, by simp [none], by simp [none]⟩
  rintro ⟨left, rxBuff⟩ t ⟨still, chosen, frames, pushed, missing, rfl⟩
  by_cases done : left = 0
  · simp only [if_pos done]
    exact .pure ⟨still, pushed, by omega, rfl⟩
  · simp only [if_neg done]
    refine Serves.andThen ?_
    show Serves _ _ _ (t.tick line) _ _
    rw [smaller_eq]
    refine (receiveBurst_serves left still).bind ?_
    rintro bytes u ⟨more, last, ser, ctrlr1, pushed', popped, rfl, size, unmoved⟩
    rw [← size]
    have total : u.popped.length = t.popped.length + more.length := by
      rw [popped, List.length_append]
    have enough : more.length ≤ left := size ▸ min_le_right _ _
    refine .pure ⟨⟨last, ser ▸ chosen, ctrlr1.trans frames, pushed'.trans pushed, ?_, ?_⟩,
      fun isFair => ?_⟩
    · show u.popped.length + (left - more.length) = _
      omega
    · show _ ++ _ = _
      rw [popped, List.map_append]
    · rw [Prod.Lex.toLex_lt_toLex]
      rcases Nat.eq_zero_or_pos more.length with nothing | some
      · obtain ⟨rfl, empty⟩ := unmoved nothing done
        refine Or.inr ⟨show left - more.length = left by omega, ?_⟩
        rw [tick_clock]
        refine untilNext_succ_lt (fairness isFair).fills (quiet_of_empty still chosen empty ?_)
        rw [frames]
        exact taken_lt missing done
      · exact Or.inl (show left - more.length < left by omega)

end Spi

end K210Guard
