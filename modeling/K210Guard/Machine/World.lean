/-
**The machine under the loader.**

The drivers of the loader talk to the machine through a few operations: SPI transactions with the
flash chip, polls of the UART, loads and stores of RAM, the OTP key gate. `World` is what these
operations act on and `World.step` what they do.

The flash chip is a 16 MiB SPI NOR flash: 24-bit addresses, 4 KiB sector erase, 256-byte page
program that only clears bits and wraps inside its page, each write command guarded by the write
enable latch and carried out before the next transaction. It keeps a log of the erase and program
commands it has carried out.
-/

import K210Guard.Interaction.Prog
import K210Guard.NorFlash.Image

namespace K210Guard

/-! ### The flash chip -/

/-- 4 KiB sectors and 256-byte pages. -/
def chipGeometry : NorFlash.Geometry where
  sector := 4096
  page := 256
  sector_pos := by decide
  page_pos := by decide
  page_dvd := by decide

/-- The bytes of the chip. -/
def chipSize : Nat := 2 ^ 24

structure Chip where
  cells : NorFlash.Cells
  /-- The erase and program commands carried out, oldest first. -/
  log : List NorFlash.Command
  writeEnabled : Bool
  reg1 : Byte
  reg2 : Byte

/-- How a frame is put on the SPI lines: the direction, the data lines, whether the address uses
them too, the number of address bits and of dummy cycles. -/
structure SpiFormat where
  transfer : Nat
  lines : Nat
  addressLines : Nat
  addressBits : Nat
  waitCycles : Nat
  deriving DecidableEq

/-- The format the registers `ctrlr0` and `spi_ctrlr0` of SPI3 ask for. -/
def spiFormat (ctrlr0 spiCtrlr0 : Nat) : SpiFormat where
  transfer := ctrlr0 >>> 10 &&& 3
  lines := ctrlr0 >>> 22 &&& 3
  addressLines := spiCtrlr0 &&& 3
  addressBits := 4 * (spiCtrlr0 >>> 2 &&& 15)
  waitCycles := spiCtrlr0 >>> 11 &&& 31

namespace Chip

/-- Three address bytes, most significant first. -/
def address (high middle low : Byte) : Nat :=
  high.toNat * 65536 + middle.toNat * 256 + low.toNat

/-- A read runs over the chip's end. -/
def read (chip : Chip) (addr length : Nat) : List Byte :=
  readRange (fun x => chip.cells (x % chipSize)) addr length

/-- The first status register: busy bit clear, then the write enable latch. -/
def status1 (chip : Chip) : Byte :=
  (chip.reg1 &&& 0xFC#8) ||| (if chip.writeEnabled then 0x02#8 else 0x00#8)

/-- An erase or program command; without the latch it is ignored. -/
def execute (chip : Chip) (command : NorFlash.Command) : Chip :=
  if chip.writeEnabled then
    { chip with
      cells := command.apply chipGeometry chip.cells
      log := chip.log ++ [command]
      writeEnabled := false }
  else chip

/-- A transaction on one line that sends a command and receives `rxLen` bytes. -/
def receive (chip : Chip) (rxLen : Nat) : List Byte → List Byte
  | [opcode] =>
      if opcode = 0x05#8 then List.replicate rxLen chip.status1
      else if opcode = 0x35#8 then List.replicate rxLen chip.reg2
      else List.replicate rxLen 0xFF#8
  | [opcode, high, middle, low] =>
      if opcode = 0x03#8 then chip.read (address high middle low) rxLen
      else List.replicate rxLen 0xFF#8
  | [opcode, high, middle, low, _] =>
      if opcode = 0x0B#8 then chip.read (address high middle low) rxLen
      else List.replicate rxLen 0xFF#8
  | _ => List.replicate rxLen 0xFF#8

/-- A transaction on one line that sends a command and data. -/
def send (chip : Chip) (data : List Byte) : List Byte → Chip
  | [opcode] =>
      if opcode = 0x06#8 then { chip with writeEnabled := true }
      else if opcode = 0x04#8 then { chip with writeEnabled := false }
      else chip
  | [opcode, value1, value2] =>
      if opcode = 0x01#8 ∧ chip.writeEnabled then
        { chip with reg1 := value1, reg2 := value2, writeEnabled := false }
      else chip
  | [opcode, high, middle, low] =>
      if opcode = 0x20#8 then chip.execute (.erase (address high middle low))
      else if opcode = 0x02#8 then chip.execute (.program (address high middle low) data)
      else chip
  | _ => chip

/-- The formats of the reads on several lines. In an I/O mode the address carries a mode byte. -/
def readFormat (opcode : Nat) : Option SpiFormat :=
  if opcode = 0x3B then some ⟨2, 1, 0, 24, 8⟩
  else if opcode = 0xBB then some ⟨2, 1, 1, 32, 0⟩
  else if opcode = 0x6B then some ⟨2, 2, 0, 24, 8⟩
  else if opcode = 0xEB then some ⟨2, 2, 1, 32, 4⟩
  else none

/-- The address of a frame: the mode byte, if any, is its last byte. -/
def frameAddress (format : SpiFormat) (word : Nat) : Nat :=
  (if format.addressBits = 32 then word / 256 else word) % chipSize

/-- A transaction on several lines that receives. -/
def receiveEnhanced (chip : Chip) (format : SpiFormat) (rxLen : Nat) : List Nat → List Byte
  | [opcode, word] =>
      if readFormat opcode = some format then chip.read (frameAddress format word) rxLen
      else List.replicate rxLen 0xFF#8
  | _ => List.replicate rxLen 0xFF#8

/-- A transaction on several lines that sends. -/
def sendEnhanced (chip : Chip) (format : SpiFormat) (data : List Byte) : List Nat → Chip
  | [opcode, word] =>
      if opcode = 0x32 ∧ format = ⟨1, 2, 0, 24, 0⟩ then
        chip.execute (.program (frameAddress format word) data)
      else chip
  | _ => chip

end Chip

/-! ### The rest of the machine -/

/-- The UART's receiver: what it holds at each poll. -/
structure Uart where
  received : Nat → Option Byte
  polls : Nat

/-- What the receiver holds now. -/
def Uart.holds (uart : Uart) : Option Byte := uart.received uart.polls

/-- The receiver at the next poll. -/
def Uart.next (uart : Uart) : Uart := { uart with polls := uart.polls + 1 }

/-- A test for a character leaves it in the receiver. -/
def Uart.afterTstc (uart : Uart) : Uart := if uart.holds.isSome then uart else uart.next

/-- What the function pointer `flash_page_program_fun` holds. -/
inductive PageProgramFun
  | null
  | standard
  | quad
  deriving DecidableEq

/-- The static variables of the flash driver. -/
structure FlashDriver where
  dfsOffset : Nat
  tmodOffset : Nat
  frfOffset : Nat
  pageProgramFun : PageProgramFun

structure World where
  chip : Chip
  driver : FlashDriver
  ram : Nat → Byte
  uart : Uart
  /-- `otp->gb_otp_en` -/
  otpKeyOutput : Bool

/-- A machine at power-on, with nothing on the UART. -/
def World.powerOn (cells : NorFlash.Cells) : World where
  chip := ⟨cells, [], false, 0, 0⟩
  driver := ⟨0, 0, 0, .null⟩
  ram := fun _ => 0
  uart := ⟨fun _ => none, 0⟩
  otpKeyOutput := false

/-- The operations of the machine. -/
inductive Bus
  | spiReceive (cmd : List Byte) (rxLen : Nat)
  | spiSend (cmd data : List Byte)
  | spiReceiveEnhanced (ctrlr0 spiCtrlr0 : Nat) (cmd : List Nat) (rxLen : Nat)
  | spiSendEnhanced (ctrlr0 spiCtrlr0 : Nat) (cmd : List Nat) (data : List Byte)
  | getDriver
  | setDriver (driver : FlashDriver)
  | uartTstc
  | uartGetc
  | load (addr length : Nat)
  | store (addr : Nat) (bytes : List Byte)
  | getOtpKeyOutput
  | setOtpKeyOutput (enabled : Bool)

/-- What each operation answers. -/
abbrev Bus.Answer : Bus → Type
  | .spiReceive .. | .spiReceiveEnhanced .. | .load .. => List Byte
  | .getDriver => FlashDriver
  | .uartTstc | .getOtpKeyOutput => Bool
  | .uartGetc => Byte
  | _ => Unit

/-- What each operation does. -/
def World.step (world : World) : (op : Bus) → op.Answer × World
  | .spiReceive cmd rxLen => (world.chip.receive rxLen cmd, world)
  | .spiSend cmd data => ((), { world with chip := world.chip.send data cmd })
  | .spiReceiveEnhanced ctrlr0 spiCtrlr0 cmd rxLen =>
      (world.chip.receiveEnhanced (spiFormat ctrlr0 spiCtrlr0) rxLen cmd, world)
  | .spiSendEnhanced ctrlr0 spiCtrlr0 cmd data =>
      ((), { world with chip := world.chip.sendEnhanced (spiFormat ctrlr0 spiCtrlr0) data cmd })
  | .getDriver => (world.driver, world)
  | .setDriver driver => ((), { world with driver := driver })
  | .uartTstc => (world.uart.holds.isSome, { world with uart := world.uart.afterTstc })
  | .uartGetc => (world.uart.holds.getD 0, { world with uart := world.uart.next })
  | .load addr length => (readRange world.ram addr length, world)
  | .store addr bytes => ((), { world with ram := writeRange world.ram addr bytes })
  | .getOtpKeyOutput => (world.otpKeyOutput, world)
  | .setOtpKeyOutput enabled => ((), { world with otpKeyOutput := enabled })

/-- A program of the loader. -/
abbrev Firmware (α : Type) := Prog Bus Bus.Answer α

/-- A program of one operation. -/
abbrev Bus.issue (op : Bus) : Firmware op.Answer := Prog.perform op

/-- Running a program of the loader. -/
abbrev World.run {α : Type} (world : World) (program : Firmware α) : Option α × World :=
  Prog.run World.step program world

@[simp] theorem World.run_pure {α : Type} (world : World) (value : α) :
    world.run (pure value) = (some value, world) := rfl

/-- The rule for a first part that returns. -/
theorem World.run_bind_of_eq {α β : Type} {first : Firmware α} {rest : α → Firmware β}
    {before after : World} {value : α} (runs : before.run first = (some value, after)) :
    before.run (first >>= rest) = after.run (rest value) :=
  Prog.run_bind_of_eq World.step runs

/-- The rule for a first part that never returns. -/
theorem World.run_bind_of_none {α β : Type} {first : Firmware α} {rest : α → Firmware β}
    {before after : World} (runs : before.run first = (none, after)) :
    before.run (first >>= rest) = (none, after) :=
  Prog.run_bind_of_none World.step runs

/-! ### The log is the history of the cells -/

/-- The cells are what the logged commands made of the cells at power-on. -/
def World.Replays (initial : NorFlash.Cells) (world : World) : Prop :=
  world.chip.cells = NorFlash.replay chipGeometry world.chip.log initial

theorem Chip.execute_replays {chip : Chip} {initial : NorFlash.Cells} (command : NorFlash.Command)
    (before : chip.cells = NorFlash.replay chipGeometry chip.log initial) :
    (chip.execute command).cells =
      NorFlash.replay chipGeometry (chip.execute command).log initial := by
  unfold Chip.execute
  split
  · simp only [NorFlash.replay_append, NorFlash.replay_cons, NorFlash.replay_nil, before]
  · exact before

theorem Chip.execute_log (chip : Chip) (command : NorFlash.Command) :
    chip.log <+: (chip.execute command).log := by
  unfold Chip.execute
  split
  · exact List.prefix_append _ _
  · exact List.prefix_rfl

/-- A transaction that sends leaves the array alone or executes one command. -/
theorem Chip.send_cases (chip : Chip) (data cmd : List Byte) :
    ((chip.send data cmd).cells = chip.cells ∧ (chip.send data cmd).log = chip.log) ∨
      ∃ command, chip.send data cmd = chip.execute command := by
  unfold Chip.send
  split
  · split_ifs <;> exact Or.inl ⟨rfl, rfl⟩
  · split_ifs <;> exact Or.inl ⟨rfl, rfl⟩
  · split_ifs
    · exact Or.inr ⟨_, rfl⟩
    · exact Or.inr ⟨_, rfl⟩
    · exact Or.inl ⟨rfl, rfl⟩
  · exact Or.inl ⟨rfl, rfl⟩

theorem Chip.sendEnhanced_cases (chip : Chip) (format : SpiFormat) (data : List Byte)
    (cmd : List Nat) :
    ((chip.sendEnhanced format data cmd).cells = chip.cells ∧
        (chip.sendEnhanced format data cmd).log = chip.log) ∨
      ∃ command, chip.sendEnhanced format data cmd = chip.execute command := by
  unfold Chip.sendEnhanced
  split
  · split_ifs
    · exact Or.inr ⟨_, rfl⟩
    · exact Or.inl ⟨rfl, rfl⟩
  · exact Or.inl ⟨rfl, rfl⟩

/-- **One operation leaves the array alone or has the chip execute one command.** -/
theorem World.step_cases (world : World) (op : Bus) :
    ((world.step op).2.chip.cells = world.chip.cells ∧
        (world.step op).2.chip.log = world.chip.log) ∨
      ∃ command, (world.step op).2.chip = world.chip.execute command := by
  cases op with
  | spiSend cmd data => exact world.chip.send_cases data cmd
  | spiSendEnhanced ctrlr0 spiCtrlr0 cmd data =>
      exact world.chip.sendEnhanced_cases (spiFormat ctrlr0 spiCtrlr0) data cmd
  | _ => exact Or.inl ⟨rfl, rfl⟩

theorem World.step_replays {initial : NorFlash.Cells} (world : World) (op : Bus)
    (before : world.Replays initial) : (world.step op).2.Replays initial := by
  unfold World.Replays
  rcases world.step_cases op with ⟨sameCells, sameLog⟩ | ⟨command, same⟩
  · rw [sameCells, sameLog]
    exact before
  · rw [same]
    exact Chip.execute_replays command before

theorem World.step_log (world : World) (op : Bus) :
    world.chip.log <+: (world.step op).2.chip.log := by
  rcases world.step_cases op with ⟨_, sameLog⟩ | ⟨command, same⟩
  · rw [sameLog]
  · rw [same]
    exact Chip.execute_log _ command

/-- **No program takes anything out of the log.** -/
theorem World.run_log {α : Type} (world : World) (program : Firmware α) :
    world.chip.log <+: (world.run program).2.chip.log :=
  Prog.run_invariant World.step (fun state => world.chip.log <+: state.chip.log)
    (fun state op before => before.trans (state.step_log op)) program world List.prefix_rfl

end K210Guard
