/-
**Whole transfers** (`drivers/flash.c`).

`fifo_pumping`: with FIFOs that are empty at the start, the sending functions push the command and
the data and the receiving ones the command, in order and never into a full FIFO; the receiving ones
pop the frames they ask for, in order and never from an empty FIFO. That is so on every schedule,
also where a loop never ends; where entries drain and frames arrive again and again, each returns.
-/

import K210Guard.Spi.Pumping

namespace K210Guard

open Filter
open Prog (run Serves Kept)

namespace Spi

/-- **A transfer that pushes these entries**, on every schedule. -/
structure PushesExactly {α : Type} (line : Line) (s : Controller) (transfer : Nat → Program α)
    (entries : List Frame) : Prop where
  never_full : ∀ polls, (run (Controller.step line) (transfer polls) s).2.refused = 0
  in_order : ∀ polls, (run (Controller.step line) (transfer polls) s).2.pushed <+: entries
  all : ∀ polls value t, run (Controller.step line) (transfer polls) s = (some value, t) →
    t.pushed = entries
  returns : line.Fair →
    ∀ᶠ polls in atTop, (run (Controller.step line) (transfer polls) s).1.isSome = true

/-- A transfer that returns when all of them are on the wire. -/
structure SendsExactly {α : Type} (line : Line) (s : Controller) (transfer : Nat → Program α)
    (entries : List Frame) : Prop extends PushesExactly line s transfer entries where
  sent : ∀ polls value t, run (Controller.step line) (transfer polls) s = (some value, t) →
    t.wire = entries

/-- **A transfer that pops `count` frames**, on every schedule. -/
structure PopsExactly (line : Line) (s : Controller)
    (transfer : Nat → Program (FlashStatus × List Byte)) (count : Nat) : Prop where
  never_empty : ∀ polls, (run (Controller.step line) (transfer polls) s).2.underruns = 0
  in_order : ∀ polls,
    (run (Controller.step line) (transfer polls) s).2.popped <+: line.sends count
  all : ∀ polls value t, run (Controller.step line) (transfer polls) s = (some value, t) →
    t.popped = line.sends count ∧ value.2 = (line.sends count).map (BitVec.setWidth 8)
  returns : line.Fair →
    ∀ᶠ polls in atTop, (run (Controller.step line) (transfer polls) s).1.isSome = true

variable {line : Line} {s t : Controller}

/-! ### Before the command and after the data -/

/-- Nothing has gone through yet. -/
structure Untouched (line : Line) (s : Controller) : Prop extends Lossless line s where
  queue : s.tx = []
  pushed : s.pushed = []
  popped : s.popped = []

theorem start_untouched (ctrlr0 ctrlr1 ssienr ser : Frame) (clock : Nat) :
    Untouched line (.start ctrlr0 ctrlr1 ssienr ser clock) :=
  ⟨⟨Nat.zero_le _, Nat.zero_le _, rfl, rfl, rfl, rfl⟩, rfl, rfl, rfl⟩

theorem tick_untouched (untouched : Untouched line s) : Untouched line (s.tick line) := by
  obtain ⟨still, moved⟩ := tick_lossless untouched.toLossless
  refine ⟨still, ?_, moved.pushed.trans untouched.pushed, moved.popped.trans untouched.popped⟩
  have level := moved.drained
  rw [untouched.queue] at level
  exact List.length_eq_zero_iff.mp (Nat.le_zero.mp level)

theorem ctrlr0_untouched (untouched : Untouched line s) (value : Frame) :
    Untouched line (Controller.step line s (.write .ctrlr0 value)).2 := by
  have still := tick_untouched untouched
  exact ⟨⟨still.room, still.space, still.sent, still.received, still.accepted, still.held⟩,
    still.queue, still.pushed, still.popped⟩

theorem ctrlr1_untouched (untouched : Untouched line s) (value : Frame) :
    Untouched line (Controller.step line s (.write .ctrlr1 value)).2 := by
  have still := tick_untouched untouched
  exact ⟨⟨still.room, still.space, still.sent, still.received, still.accepted, still.held⟩,
    still.queue, still.pushed, still.popped⟩

/-- Enabling an untouched controller. -/
theorem enable_untouched (untouched : Untouched line s) :
    let after := (Controller.step line s (.write .ssienr 0x01)).2
    Untouched line after ∧ Running line after ∧ after.ctrlr1 = s.ctrlr1 := by
  have still := tick_untouched untouched
  have lossless : Lossless line (Controller.step line s (.write .ssienr 0x01)).2 :=
    ⟨still.room, still.space, still.sent, still.received, still.accepted, still.held⟩
  exact ⟨⟨lossless, still.queue, still.pushed, still.popped⟩, ⟨lossless, rfl⟩,
    (tick_lossless untouched.toLossless).2.ctrlr1⟩

/-- Selecting the flash, or no slave at all. -/
theorem select_running (running : Running line s) (value : Frame) :
    let after := (Controller.step line s (.write .ser value)).2
    Running line after ∧ (value ≠ 0 → after.ser ≠ 0) ∧ after.ctrlr1 = s.ctrlr1 ∧
      after.pushed = s.pushed ∧ after.popped = s.popped := by
  obtain ⟨still, moved⟩ := tick_spec running
  exact ⟨⟨⟨still.room, still.space, still.sent, still.received, still.accepted, still.held⟩,
    still.enabled⟩, fun chosen => chosen, moved.ctrlr1, moved.pushed, moved.popped⟩

/-- What is left to say after a transfer: nothing was refused and no read found an empty FIFO. -/
structure Done (entries frames : List Frame) (t : Controller) : Prop where
  accepted : t.refused = 0
  held : t.underruns = 0
  pushed : t.pushed = entries
  popped : t.popped = frames

/-- The end of every transfer: no slave is selected and the controller disabled. -/
theorem disable_serves {α : Type} {fair : Prop} {safe : Controller → Prop}
    {promise : α → Controller → Prop} {value : α} (running : Running line s)
    (holds : ∀ t, Done s.pushed s.popped t → (s.tx = [] → t.wire = s.pushed) → promise value t) :
    Serves (Controller.step line) fair safe s
      (fun _ => do writeRegister .ser 0x00; writeRegister .ssienr 0x00; pure value) promise := by
  obtain ⟨still, -, -, pushed, popped⟩ := select_running running 0x00
  obtain ⟨last, moved⟩ := tick_spec still
  refine Serves.andThen (Serves.andThen (.pure (holds _ ?_ fun drained => ?_)))
  · exact ⟨last.accepted, last.held, moved.pushed.trans pushed, moved.popped.trans popped⟩
  · have first := (tick_spec running).2.drained
    have empty := moved.drained.trans first
    rw [drained] at empty
    have sent := last.sent
    rw [List.length_eq_zero_iff.mp (Nat.le_zero.mp empty), List.append_nil] at sent
    exact sent.trans (moved.pushed.trans pushed)

/-! ### Sending -/

/-- What is safe at any time while these entries are sent. -/
structure Sending (entries : List Frame) (t : Controller) : Prop where
  accepted : t.refused = 0
  pushed : t.pushed <+: entries

/-- **`flash_send_data_enhanced`** from an untouched controller. -/
theorem flashSendDataEnhanced_serves (untouched : Untouched line s) {cmd : List Frame}
    (short : cmd.length ≤ fifoDepth) (data : List Byte) :
    Serves (Controller.step line) line.Fair
      (Sending (cmd ++ data.map (BitVec.setWidth 32))) s (Spi.flashSendDataEnhanced cmd data)
      fun _ t => Done (cmd ++ data.map (BitVec.setWidth 32)) [] t ∧
        t.wire = cmd ++ data.map (BitVec.setWidth 32) := by
  obtain ⟨fresh, running, -⟩ := enable_untouched untouched
  have isSafe : ∀ t, Running line t → t.pushed <+: cmd ++ data.map (BitVec.setWidth 32) →
      Sending (cmd ++ data.map (BitVec.setWidth 32)) t :=
    fun t running begun => ⟨running.accepted, begun⟩
  refine Serves.andThen ((pushAll_serves cmd running ?_).bind ?_)
  · rw [fresh.queue]
    simpa using short
  rintro _ t ⟨running, -, -, pushed, popped, -⟩
  rw [fresh.pushed, List.nil_append] at pushed
  rw [fresh.popped] at popped
  refine (sendBurst_serves data running).bind ?_
  rintro rest t' ⟨running, -, popped', queued, -⟩
  obtain ⟨running, selected, -, pushed', popped''⟩ := select_running running spiSlaveSelect
  refine Serves.andThen ?_
  refine (sendRest_serves (fun fair => fair) isSafe rest running (selected (by decide)) ?_).bind ?_
  · rw [pushed', queued, pushed]
  rintro _ u ⟨running, chosen, popped₃, all⟩
  refine (waitSent_serves (fun fair => fair) isSafe running chosen all).bind ?_
  rintro _ v ⟨running, popped₄, all, drained⟩
  refine disable_serves running fun last done sent => ?_
  rw [all, popped₄, popped₃, popped'', popped', popped] at done
  exact And.intro done ((sent drained).trans all)

theorem flashSendData_serves (untouched : Untouched line s) {cmd : List Byte}
    (short : cmd.length ≤ fifoDepth) (data : List Byte) (driver : FlashDriver) :
    Serves (Controller.step line) line.Fair
      (Sending (cmd.map (BitVec.setWidth 32) ++ data.map (BitVec.setWidth 32))) s
      (Spi.flashSendData driver cmd data)
      fun _ t => Done (cmd.map (BitVec.setWidth 32) ++ data.map (BitVec.setWidth 32)) [] t ∧
        t.wire = cmd.map (BitVec.setWidth 32) ++ data.map (BitVec.setWidth 32) :=
  Serves.andThen <| flashSendDataEnhanced_serves (ctrlr0_untouched untouched _)
    ((List.length_map _).trans_le short) data

/-- What is safe while the command is sent and frames come in. -/
structure Receiving (line : Line) (cmd : List Frame) (count : Nat) (t : Controller) : Prop where
  accepted : t.refused = 0
  held : t.underruns = 0
  pushed : t.pushed = cmd
  popped : t.popped <+: line.sends count

/-! ### Receiving -/

/-- **`flash_receive_data_enhanced`** from an untouched controller. -/
theorem flashReceiveDataEnhanced_serves (untouched : Untouched line s) {cmd : List Frame}
    (short : cmd.length ≤ fifoDepth) (rxLen : BitVec 32) :
    Serves (Controller.step line) line.Fair (Receiving line cmd rxLen.toNat) s
      (Spi.flashReceiveDataEnhanced cmd rxLen) fun result t =>
        result = (.ok, (line.sends rxLen.toNat).map (BitVec.setWidth 8)) ∧
          Done cmd (line.sends rxLen.toNat) t := by
  obtain ⟨fresh, running, frames⟩ := enable_untouched (ctrlr1_untouched untouched (rxLen - 1))
  refine Serves.andThen (Serves.andThen ((pushAll_serves cmd running ?_).bind ?_))
  · rw [fresh.queue]
    simpa using short
  rintro _ t ⟨running, -, ctrlr1, pushed, popped, -⟩
  rw [fresh.pushed, List.nil_append] at pushed
  obtain ⟨running, selected, ctrlr1', pushed', popped'⟩ := select_running running spiSlaveSelect
  rw [popped, fresh.popped] at popped'
  refine Serves.andThen ?_
  refine (receiveRest_serves (fun fair => fair) ?_ running (selected (by decide))
    (ctrlr1'.trans (ctrlr1.trans frames)) popped').bind ?_
  · intro u running same most
    refine ⟨running.accepted, running.held, same.trans (pushed'.trans pushed), ?_⟩
    rw [running.popped_eq]
    exact line.sends_prefix most
  rintro bytes u ⟨running, same, size, rfl⟩
  have popped := running.popped_eq
  rw [size] at popped
  refine disable_serves running fun last done _ => And.intro (by rw [popped]) ?_
  rw [same, pushed', pushed, popped] at done
  exact done

theorem flashReceiveData_serves (untouched : Untouched line s) {cmd : List Byte}
    (short : cmd.length ≤ fifoDepth) (rxLen : BitVec 32) (driver : FlashDriver) :
    Serves (Controller.step line) line.Fair
      (Receiving line (cmd.map (BitVec.setWidth 32)) rxLen.toNat) s
      (Spi.flashReceiveData driver cmd rxLen) fun result t =>
        result = (.ok, (line.sends rxLen.toNat).map (BitVec.setWidth 8)) ∧
          Done (cmd.map (BitVec.setWidth 32)) (line.sends rxLen.toNat) t :=
  Serves.andThen <| flashReceiveDataEnhanced_serves (ctrlr0_untouched untouched _)
    ((List.length_map _).trans_le short) rxLen

/-! ### From the promises to the claims about runs -/

theorem sendsExactly_of_serves {entries : List Frame} {transfer : Nat → Program FlashStatus}
    (serves : Serves (Controller.step line) line.Fair (Sending entries) s transfer
      fun _ t => Done entries [] t ∧ t.wire = entries) :
    SendsExactly line s transfer entries where
  never_full := serves.at_end (fun _ safe => safe.accepted) fun _ _ done => done.1.accepted
  in_order := serves.at_end (fun _ safe => safe.pushed)
    fun _ _ done => done.1.pushed ▸ List.prefix_rfl
  all polls value t ran := (serves.of_returned polls value t ran).1.pushed
  sent polls value t ran := (serves.of_returned polls value t ran).2
  returns := serves.returns

theorem exactly_of_serves {cmd : List Frame} {count : Nat}
    {transfer : Nat → Program (FlashStatus × List Byte)}
    (serves : Serves (Controller.step line) line.Fair (Receiving line cmd count) s transfer
      fun result t => result = (.ok, (line.sends count).map (BitVec.setWidth 8)) ∧
        Done cmd (line.sends count) t) :
    PushesExactly line s transfer cmd ∧ PopsExactly line s transfer count := by
  refine ⟨⟨?_, fun polls => ?_, ?_, serves.returns⟩, ?_, ?_, ?_,
    serves.returns⟩
  · exact serves.at_end (fun _ safe => safe.accepted) fun _ _ done => done.2.accepted
  · have pushed : (run (Controller.step line) (transfer polls) s).2.pushed = cmd :=
      serves.at_end (P := fun t => t.pushed = cmd) (fun _ safe => safe.pushed)
        (fun _ _ done => done.2.pushed) polls
    rw [pushed]
  · exact fun polls value t ran => (serves.of_returned polls value t ran).2.pushed
  · exact serves.at_end (fun _ safe => safe.held) fun _ _ done => done.2.held
  · exact serves.at_end (fun _ safe => safe.popped)
      fun _ _ done => done.2.popped ▸ List.prefix_rfl
  · intro polls value t ran
    obtain ⟨rfl, done⟩ := serves.of_returned polls value t ran
    exact ⟨done.popped, rfl⟩

/-- **FIFO pumping**: with FIFOs that are empty at the start, a command of at most five entries,
data of any length and every schedule, each of the four functions pushes its command and its data
in order and never into a full FIFO, and the two that receive pop `rx_len` frames in order and never
from an empty FIFO. -/
theorem fifo_pumping (line : Line) (ctrlr0 ctrlr1 ssienr ser : Frame) (clock : Nat)
    (driver : FlashDriver) (cmd : List Byte) (wide : List Frame) (data : List Byte)
    (rxLen : BitVec 32) (short : cmd.length ≤ 5) (wideShort : wide.length ≤ 5) :
    let s := Controller.start ctrlr0 ctrlr1 ssienr ser clock
    SendsExactly line s (Spi.flashSendData driver cmd data)
        (cmd.map (BitVec.setWidth 32) ++ data.map (BitVec.setWidth 32)) ∧
      SendsExactly line s (Spi.flashSendDataEnhanced wide data)
        (wide ++ data.map (BitVec.setWidth 32)) ∧
      (PushesExactly line s (Spi.flashReceiveData driver cmd rxLen)
          (cmd.map (BitVec.setWidth 32)) ∧
        PopsExactly line s (Spi.flashReceiveData driver cmd rxLen) rxLen.toNat) ∧
      PushesExactly line s (Spi.flashReceiveDataEnhanced wide rxLen) wide ∧
        PopsExactly line s (Spi.flashReceiveDataEnhanced wide rxLen) rxLen.toNat := by
  intro s
  have fresh : Untouched line s := start_untouched ctrlr0 ctrlr1 ssienr ser clock
  have depth : 5 ≤ fifoDepth := by decide
  exact ⟨sendsExactly_of_serves (flashSendData_serves fresh (short.trans depth) data driver),
    sendsExactly_of_serves (flashSendDataEnhanced_serves fresh (wideShort.trans depth) data),
    exactly_of_serves (flashReceiveData_serves fresh (short.trans depth) rxLen driver),
    exactly_of_serves (flashReceiveDataEnhanced_serves fresh (wideShort.trans depth) rxLen)⟩

/-- A line on which one entry leaves and one frame arrives before every access. -/
def steadyLine : Line where
  drains _ := 1
  fills _ := 1
  status _ := 0
  frames n := BitVec.ofNat 32 n

theorem steadyLine_fair : steadyLine.Fair where
  drains := Frequently.of_forall fun _ => Nat.one_pos
  fills := Frequently.of_forall fun _ => Nat.one_pos
  idle := Frequently.of_forall fun _ => BitVec.getLsbD_zero

/-- A page program and a read of 300 bytes on the steady line. -/
theorem fifo_pumping_steady :
    let s := Controller.start 0 0 0 0 7
    let data : List Byte := List.replicate 256 0xA5#8
    steadyLine.Fair ∧
      SendsExactly steadyLine s
        (Spi.flashSendData ⟨16, 8, 21, .standard⟩ [0x02#8, 0#8, 1#8, 0#8] data)
        ([0x02#8, 0#8, 1#8, 0#8].map (BitVec.setWidth 32) ++ data.map (BitVec.setWidth 32)) ∧
      PopsExactly steadyLine s (Spi.flashReceiveDataEnhanced [0xEB#32, 0x100#32] 300#32) 300 := by
  intro s data
  have pumping := fifo_pumping steadyLine 0 0 0 0 7 ⟨16, 8, 21, .standard⟩
    [0x02#8, 0#8, 1#8, 0#8] [0xEB#32, 0x100#32] data 300#32 (by decide) (by decide)
  exact ⟨steadyLine_fair, pumping.1, pumping.2.2.2.2⟩

end Spi

end K210Guard
