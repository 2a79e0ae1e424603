/-
**The SPI controller under the transfers of the flash driver** (`drivers/flash.c`).

`flash_send_data`, `flash_receive_data` and their enhanced variants, as programs over the registers
of the controller. The controller moves on before every access: while it is enabled and a slave is
selected, some entries leave the transmit FIFO and some frames arrive in the receive FIFO, as many
as the line says for that moment. A FIFO holds 32 entries; disabling the controller empties both.

The wait loops take the number of laps they may make.
-/

import K210Guard.Flash.Driver
import K210Guard.Interaction.Polling

namespace K210Guard

namespace Spi

/-- An entry of a FIFO. -/
abbrev Frame := BitVec 32

/-! ### The controller -/

/-- The registers of `struct spi_t` that the transfers use. -/
inductive Register
  | ctrlr0
  | ctrlr1
  | ssienr
  | ser
  | txflr
  | rxflr
  | sr
  | dr

inductive Op
  | write (register : Register) (value : Frame)
  | read (register : Register)

abbrev Op.Ans : Op → Type
  | .write _ _ => Unit
  | .read _ => Frame

/-- What happens outside: before the `n`-th access up to `drains n` entries leave the transmit FIFO
and up to `fills n` frames arrive, and the status register shows `status n` but for its bit of the
transmit FIFO. `frames` is what the flash sends after a command. -/
structure Line where
  drains : Nat → Nat
  fills : Nat → Nat
  status : Nat → Frame
  frames : Nat → Frame

/-- The controller, and what has gone through it. -/
structure Controller where
  ctrlr0 : Frame
  ctrlr1 : Frame
  ssienr : Frame
  ser : Frame
  /-- the transmit FIFO, oldest entry first -/
  tx : List Frame
  /-- the receive FIFO -/
  rx : List Frame
  /-- the frames that came in since the controller was enabled -/
  arrived : Nat
  clock : Nat
  pushed : List Frame
  /-- the entries that left the transmit FIFO for the flash -/
  wire : List Frame
  popped : List Frame
  /-- writes of `dr` that were lost: the FIFO was full, or the controller disabled -/
  refused : Nat
  /-- reads of `dr` that found the FIFO empty -/
  underruns : Nat

/-- The depth of a FIFO. -/
def fifoDepth : Nat := 32

namespace Controller

/-- Empty FIFOs. -/
def start (ctrlr0 ctrlr1 ssienr ser : Frame) (clock : Nat) : Controller where
  ctrlr0 := ctrlr0
  ctrlr1 := ctrlr1
  ssienr := ssienr
  ser := ser
  tx := []
  rx := []
  arrived := 0
  clock := clock
  pushed := []
  wire := []
  popped := []
  refused := 0
  underruns := 0

/-- The frames that arrive before the next access: no more than there is room for, and no more than
the `ctrlr1 + 1` frames of the transfer. -/
def arriving (line : Line) (s : Controller) : Nat :=
  min (line.fills s.clock) (min (fifoDepth - s.rx.length) (s.ctrlr1.toNat + 1 - s.arrived))

/-- The FIFOs move on. -/
def tick (line : Line) (s : Controller) : Controller :=
  if s.ssienr = 1 ∧ s.ser ≠ 0 then
    { s with
      clock := s.clock + 1
      wire := s.wire ++ s.tx.take (line.drains s.clock)
      tx := s.tx.drop (line.drains s.clock)
      rx := s.rx ++ (List.range' s.arrived (s.arriving line)).map line.frames
      arrived := s.arrived + s.arriving line }
  else { s with clock := s.clock + 1 }

/-- `sr`: bit 2 says that the transmit FIFO is empty. -/
def sr (status : Frame) (s : Controller) : Frame :=
  status &&& ~~~0x04#32 ||| if s.tx = [] then 0x04#32 else 0

def writeDr (value : Frame) (s : Controller) : Controller :=
  if s.ssienr = 1 ∧ s.tx.length < fifoDepth then
    { s with tx := s.tx ++ [value], pushed := s.pushed ++ [value] }
  else { s with refused := s.refused + 1 }

def readDr (s : Controller) : Frame × Controller :=
  match s.rx with
  | [] => (0, { s with underruns := s.underruns + 1 })
  | frame :: rx => (frame, { s with rx := rx, popped := s.popped ++ [frame] })

def writeSsienr (value : Frame) (s : Controller) : Controller :=
  if value = 1 then { s with ssienr := value }
  else { s with ssienr := value, tx := [], rx := [], arrived := 0 }

def access (status : Frame) (s : Controller) : (op : Op) → op.Ans × Controller
  | .write .ctrlr0 value => ((), { s with ctrlr0 := value })
  | .write .ctrlr1 value => ((), { s with ctrlr1 := value })
  | .write .ssienr value => ((), s.writeSsienr value)
  | .write .ser value => ((), { s with ser := value })
  | .write .dr value => ((), s.writeDr value)
  | .write _ _ => ((), s)
  | .read .ctrlr0 => (s.ctrlr0, s)
  | .read .ctrlr1 => (s.ctrlr1, s)
  | .read .ssienr => (s.ssienr, s)
  | .read .ser => (s.ser, s)
  | .read .txflr => (BitVec.ofNat 32 s.tx.length, s)
  | .read .rxflr => (BitVec.ofNat 32 s.rx.length, s)
  | .read .sr => (s.sr status, s)
  | .read .dr => s.readDr

/-- One access of the driver. -/
def step (line : Line) (s : Controller) (op : Op) : op.Ans × Controller :=
  (s.tick line).access (line.status s.clock) op

end Controller

/-! ### The driver -/

abbrev Program := Prog Op Op.Ans

def writeRegister (register : Register) (value : Frame) : Program Unit :=
  Prog.perform (Op.write register value)

def readRegister (register : Register) : Program Frame := Prog.perform (Op.read register)

/-- A loop over `spi_handle->dr[0] = *buff++`. -/
def pushAll : List Frame → Program Unit
  | [] => pure ()
  | entry :: rest => do
      writeRegister .dr entry
      pushAll rest

/-- A loop over `*rx_buff++ = spi_handle->dr[0]`. -/
def popAll : Nat → Program (List Byte)
  | 0 => pure []
  | count + 1 => do
      let frame ← readRegister .dr
      let rest ← popAll count
      pure (frame.setWidth 8 :: rest)

/-- The value of `SPI_SLAVE_SELECT`. -/
def spiSlaveSelect : Frame := 0x01

/-- As many bytes as the FIFO has room for; what is left of the buffer. -/
def sendBurst (txBuff : List Byte) : Program (List Byte) := do
  let txflr ← readRegister .txflr
  let fifoLen := (32#32 - txflr).toNat
  let fifoLen := if fifoLen < txBuff.length then fifoLen else txBuff.length
  pushAll ((txBuff.take fifoLen).map (BitVec.setWidth 32))
  pure (txBuff.drop fifoLen)

/-- `while (tx_len)` -/
def sendRest : (polls : Nat) → List Byte → Program Unit :=
  Prog.repeatUntil fun txBuff =>
    if txBuff = [] then pure (.inr ())
    else do
      let rest ← sendBurst txBuff
      pure (.inl rest)

/-- `while ((spi_handle->sr & 0x05) != 0x04);` -/
def waitSent : (polls : Nat) → Unit → Program Unit :=
  Prog.repeatUntil fun _ => do
    let sr ← readRegister .sr
    pure (if sr &&& 0x05#32 ≠ 0x04#32 then .inl () else .inr ())

def flashSendDataEnhanced (cmdBuff : List Frame) (txBuff : List Byte) (polls : Nat) :
    Program FlashStatus := do
  writeRegister .ssienr 0x01
  pushAll cmdBuff
  let rest ← sendBurst txBuff
  writeRegister .ser spiSlaveSelect
  sendRest polls rest
  waitSent polls ()
  writeRegister .ser 0x00
  writeRegister .ssienr 0x00
  pure .ok

/-- The same with bytes for a command, in the standard frame format. -/
def flashSendData (driver : FlashDriver) (cmdBuff txBuff : List Byte) (polls : Nat) :
    Program FlashStatus := do
  writeRegister .ctrlr0 (0x07 <<< driver.dfsOffset ||| 0x01 <<< driver.tmodOffset)
  flashSendDataEnhanced (cmdBuff.map (BitVec.setWidth 32)) txBuff polls

/-- `while (rx_len)`, with the bytes stored so far. -/
def receiveRest : (polls : Nat) → Nat × List Byte → Program (List Byte) :=
  Prog.repeatUntil fun (rxLen, rxBuff) =>
    if rxLen = 0 then pure (.inr rxBuff)
    else do
      let rxflr ← readRegister .rxflr
      let fifoLen := if rxflr.toNat < rxLen then rxflr.toNat else rxLen
      let bytes ← popAll fifoLen
      pure (.inl (rxLen - fifoLen, rxBuff ++ bytes))

def flashReceiveDataEnhanced (cmdBuff : List Frame) (rxLen : BitVec 32) (polls : Nat) :
    Program (FlashStatus × List Byte) := do
  writeRegister .ctrlr1 (rxLen - 1)
  writeRegister .ssienr 0x01
  pushAll cmdBuff
  writeRegister .ser spiSlaveSelect
  let rxBuff ← receiveRest polls (rxLen.toNat, [])
  writeRegister .ser 0x00
  writeRegister .ssienr 0x00
  pure (.ok, rxBuff)

/-- The same with bytes for a command, in the standard frame format. -/
def flashReceiveData (driver : FlashDriver) (cmdBuff : List Byte) (rxLen : BitVec 32)
    (polls : Nat) : Program (FlashStatus × List Byte) := do
  writeRegister .ctrlr0 (0x07 <<< driver.dfsOffset ||| 0x03 <<< driver.tmodOffset)
  flashReceiveDataEnhanced (cmdBuff.map (BitVec.setWidth 32)) rxLen polls

end Spi

end K210Guard
