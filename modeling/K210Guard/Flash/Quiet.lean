/-
**Operations that change little** (`drivers/flash.c`, `cli/command.c`).

* `Blind` — a view in which quiet operations cannot be seen: a cell of the chip, a byte of the RAM,
  the gate of the keys.
* `flashReadData_quiet` and the like — what reads the chip, or sets it up, is quiet.
* `doFlashWrite_offMemory` — what writes the chip leaves the RAM and the gate alone.
-/

import K210Guard.Flash.Commands
import K210Guard.Interaction.Linking

namespace K210Guard

/-! ### Kinds of operations -/

/-- Operations that leave the cells of the chip, the RAM and the gate of the keys alone. -/
def Bus.Quiet : Bus → Prop
  | .spiSend cmd _ => cmd.head? ≠ some 0x20 ∧ cmd.head? ≠ some 0x02
  | .spiSendEnhanced .. | .store .. | .setOtpKeyOutput _ => False
  | _ => True

/-- Operations that leave the RAM and the gate alone. -/
def Bus.OffMemory : Bus → Prop
  | .store .. | .setOtpKeyOutput _ => False
  | _ => True

theorem Bus.Quiet.offMemory : ∀ op : Bus, op.Quiet → op.OffMemory
  | .spiSend .., _ => trivial
  | .spiReceive .., _ | .spiReceiveEnhanced .., _ | .getDriver, _ | .setDriver _, _ => trivial
  | .uartTstc, _ | .uartGetc, _ | .load .., _ | .getOtpKeyOutput, _ => trivial

/-- Without the opcode of an erase or a program the cells stay. -/
theorem Chip.send_quiet (chip : Chip) (data : List Byte) {cmd : List Byte}
    (notErase : cmd.head? ≠ some 0x20) (notProgram : cmd.head? ≠ some 0x02) :
    (chip.send data cmd).cells = chip.cells := by
  unfold Chip.send
  split
  · split_ifs <;> rfl
  · split_ifs <;> rfl
  · next opcode high middle low =>
      rw [if_neg (fun same => notErase (by rw [same]; rfl)),
        if_neg (fun same => notProgram (by rw [same]; rfl))]
  · rfl

/-- A view that quiet operations cannot be seen in. -/
def Blind {γ : Type} (view : World → γ) : Prop :=
  ∀ (world : World) (op : Bus), op.Quiet → view (world.step op).2 = view world

theorem blind_cell (x : Nat) : Blind fun world => world.chip.cells x := by
  intro world op quiet
  cases op with
  | spiSend cmd data => exact congrFun (world.chip.send_quiet data quiet.1 quiet.2) x
  | spiSendEnhanced => exact quiet.elim
  | _ => rfl

theorem offMemory_step {op : Bus} (off : op.OffMemory) (world : World) :
    (world.step op).2.ram = world.ram ∧
      (world.step op).2.otpKeyOutput = world.otpKeyOutput := by
  cases op with
  | store => exact off.elim
  | setOtpKeyOutput => exact off.elim
  | _ => exact ⟨rfl, rfl⟩

theorem blind_ram (y : Nat) : Blind fun world => world.ram y := fun world op quiet =>
  congrFun (offMemory_step (quiet.offMemory op) world).1 y

theorem blind_gate : Blind World.otpKeyOutput := fun world op quiet =>
  (offMemory_step (quiet.offMemory op) world).2

/-! ### The drivers -/

theorem flashSendData_quiet {cmd data : List Byte} (notErase : cmd.head? ≠ some 0x20)
    (notProgram : cmd.head? ≠ some 0x02) : (flashSendData cmd data).Issues Bus.Quiet :=
  .perform ⟨notErase, notProgram⟩

theorem flashReadStatusReg1_quiet : flashReadStatusReg1.Issues Bus.Quiet :=
  Prog.Issues.bind (.perform trivial) fun _ => .pure _

theorem flashReadStatusReg2_quiet : flashReadStatusReg2.Issues Bus.Quiet :=
  Prog.Issues.bind (.perform trivial) fun _ => .pure _

theorem flashWriteEnable_quiet : flashWriteEnable.Issues Bus.Quiet :=
  Prog.Issues.bind (flashSendData_quiet (by simp) (by simp)) fun _ => .pure _

theorem flashWriteStatusReg_quiet (reg1 reg2 : Byte) :
    (flashWriteStatusReg reg1 reg2).Issues Bus.Quiet :=
  flashWriteEnable_quiet.bind fun _ =>
    Prog.Issues.bind (flashSendData_quiet (by simp) (by simp)) fun _ => .pure _

theorem pollReady_quiet (tries : Nat) : (pollReady tries).Issues Bus.Quiet := by
  induction tries with
  | zero => exact .pure _
  | succ tries ih =>
      refine flashReadStatusReg1_quiet.bind fun status => ?_
      split
      · exact .pure _
      · exact ih

theorem flashCheckStatus_quiet : flashCheckStatus.Issues Bus.Quiet := by
  refine flashReadStatusReg1_quiet.bind fun _ => flashReadStatusReg2_quiet.bind fun _ => ?_
  exact (pollReady_quiet _).bind fun ready => flashReadStatusReg2_quiet.bind fun _ => .pure _

theorem flashInit_quiet : (flashInit 1).Issues Bus.Quiet := by
  refine Prog.Issues.bind (.perform trivial) fun _ => ?_
  exact Prog.Issues.bind (flashSendData_quiet (by simp) (by simp)) fun _ => .pure _

theorem flashEnableQuadMode_quiet : flashEnableQuadMode.Issues Bus.Quiet := by
  have rest : Prog.Issues Bus.Quiet (do
      let driver ← getDriver
      setDriver { driver with pageProgramFun := .quad }
      flashCheckStatus) :=
    Prog.Issues.bind (.perform trivial) fun driver =>
      Prog.Issues.bind (.perform trivial) fun _ => flashCheckStatus_quiet
  refine flashReadStatusReg2_quiet.bind fun reg2 => ?_
  split
  · exact flashReadStatusReg1_quiet.bind fun reg1 =>
      (flashWriteStatusReg_quiet _ _).bind fun _ => rest
  · exact rest

theorem uartCtrlc_quiet : uartCtrlc.Issues Bus.Quiet := by
  refine Prog.Issues.bind (.perform trivial) fun some' => ?_
  split
  · exact Prog.Issues.bind (.perform trivial) fun _ => .pure _
  · exact .pure _

theorem flashRead_quiet (addr length : Nat) (mode : FlashRead) :
    (flashRead addr length mode).Issues Bus.Quiet := by
  cases mode with
  | standard => exact .perform trivial
  | standardFast => exact .perform trivial
  | _ => exact Prog.Issues.bind (.perform trivial) fun _ => .perform trivial

theorem flashReadData_quiet (addr length : Nat) (mode : FlashRead) :
    (flashReadData addr length mode).Issues Bus.Quiet := by
  induction length using Nat.strong_induction_on generalizing addr with
  | _ length ih =>
      rw [flashReadData]
      split
      · next more =>
          refine (flashRead_quiet _ _ _).bind fun head => ?_
          exact (ih _ (by split <;> omega) _).bind fun rest => .pure _
      · exact .pure _

theorem flashPageProgramFun_offMemory (addr : Nat) (data : List Byte) :
    (flashPageProgramFun addr data).Issues Bus.OffMemory := by
  have enable := flashWriteEnable_quiet.mono Bus.Quiet.offMemory
  have check := flashCheckStatus_quiet.mono Bus.Quiet.offMemory
  refine Prog.Issues.bind (.perform trivial) fun driver => ?_
  split
  · exact .spin
  · exact enable.bind fun _ => Prog.Issues.bind (.perform trivial) fun _ => check
  · exact enable.bind fun _ => Prog.Issues.bind (.perform trivial) fun _ =>
      Prog.Issues.bind (.perform trivial) fun _ => check

theorem programPieces_offMemory (addr : Nat) (data : List Byte) :
    (programPieces addr data).Issues Bus.OffMemory := by
  induction size : data.length using Nat.strong_induction_on generalizing addr data with
  | _ length ih =>
      rw [programPieces]
      split
      · next more =>
          have some' := List.length_pos_iff.mpr more
          refine (flashPageProgramFun_offMemory _ _).bind fun _ => ih _ ?_ _ _ rfl
          rw [List.length_drop]
          split <;> omega
      · exact .pure _

theorem writePages_offMemory (addr : Nat) (data : List Byte) :
    (writePages addr data).Issues Bus.OffMemory := by
  induction size : data.length using Nat.strong_induction_on generalizing addr data with
  | _ length ih =>
      rw [writePages]
      split
      · next more =>
          have some' := List.length_pos_iff.mpr more
          have inPage := Nat.and_le_right (n := addr) (m := 255)
          refine (programPieces_offMemory _ _).bind fun _ => ih _ ?_ _ _ rfl
          rw [List.length_drop]
          split <;> omega
      · exact .pure _

theorem writeChunks_offMemory (offset length ramptr : Nat) :
    (writeChunks offset length ramptr).Issues Bus.OffMemory := by
  induction length using Nat.strong_induction_on generalizing offset ramptr with
  | _ length ih =>
      rw [writeChunks]
      split
      · next more =>
          refine Prog.Issues.bind (.perform trivial) fun data => ?_
          refine Prog.Issues.bind ?_ fun _ => ih _ (by split <;> omega) _ _
          exact (writePages_offMemory _ _).bind fun _ =>
            flashCheckStatus_quiet.mono Bus.Quiet.offMemory
      · exact .pure _

theorem doFlashWrite_offMemory (offset length ramptr : Nat) :
    (doFlashWrite offset length ramptr).Issues Bus.OffMemory :=
  (flashInit_quiet.mono Bus.Quiet.offMemory).bind fun _ =>
    (flashEnableQuadMode_quiet.mono Bus.Quiet.offMemory).bind fun _ =>
      (writeChunks_offMemory _ _ _).bind fun _ => .pure _

end K210Guard
