/-
**The flash driver** (`drivers/flash.c`).

`flash_receive_data`, `flash_send_data` and their enhanced variants, which move one transaction
through the SPI controller, are operations of the machine; everything above them is a program.
A buffer that a function fills is the list of bytes it returns, and a buffer it reads is a list it
takes; `uint32_t` arithmetic is reduced modulo `2 ^ 32` where it can wrap.
-/

import K210Guard.Machine.World

namespace K210Guard

/-- `enum flash_status_t` -/
inductive FlashStatus
  | ok
  | busy
  deriving DecidableEq

/-- `enum flash_read_t` -/
inductive FlashRead
  | standard
  | standardFast
  | dual
  | dualSingle
  | quad
  | quadSingle
  deriving DecidableEq

/-- Arithmetic of `uint32_t`. -/
abbrev u32 (value : Nat) : Nat := value % 2 ^ 32

/-- The cast to `uint8_t`. -/
abbrev u8 (value : Nat) : Byte := BitVec.ofNat 8 value

/-- The cast to `int`. -/
def int32 (value : Nat) : Int := (BitVec.ofNat 32 value).toInt

def flashReceiveData (cmd : List Byte) (rxLen : Nat) : Firmware (List Byte) :=
  Bus.issue (.spiReceive cmd rxLen)

def flashSendData (cmd data : List Byte) : Firmware Unit :=
  Bus.issue (.spiSend cmd data)

def flashReceiveDataEnhanced (ctrlr0 spiCtrlr0 : Nat) (cmd : List Nat) (rxLen : Nat) :
    Firmware (List Byte) :=
  Bus.issue (.spiReceiveEnhanced ctrlr0 spiCtrlr0 cmd rxLen)

def flashSendDataEnhanced (ctrlr0 spiCtrlr0 : Nat) (cmd : List Nat) (data : List Byte) :
    Firmware Unit :=
  Bus.issue (.spiSendEnhanced ctrlr0 spiCtrlr0 cmd data)

def getDriver : Firmware FlashDriver := Bus.issue .getDriver

def setDriver (driver : FlashDriver) : Firmware Unit := Bus.issue (.setDriver driver)

/-! ### Status -/

/-- Index 0 is SPI0, everything else SPI3. -/
def flashInit (index : Nat) : Firmware FlashStatus := do
  if index = 0 then
    setDriver ⟨16, 8, 21, .standard⟩
  else
    setDriver ⟨0, 10, 22, .standard⟩
  flashSendData [0xFF#8, 0xFF#8] []
  pure .ok

def flashWriteEnable : Firmware FlashStatus := do
  flashSendData [0x06#8] []
  pure .ok

def flashWriteStatusReg (reg1 reg2 : Byte) : Firmware FlashStatus := do
  let _ ← flashWriteEnable
  flashSendData [0x01#8, reg1, reg2] []
  pure .ok

def flashReadStatusReg1 : Firmware Byte := do
  let data ← flashReceiveData [0x05#8] 1
  pure (data.headD 0)

def flashReadStatusReg2 : Firmware Byte := do
  let data ← flashReceiveData [0x35#8] 1
  pure (data.headD 0)

/-- The polling loop of `flash_check_status`; false when the tries run out. -/
def pollReady : Nat → Firmware Bool
  | 0 => pure false
  | tries + 1 => do
      let status ← flashReadStatusReg1
      if status &&& 0x01#8 = 0 then pure true else pollReady tries

def flashCheckStatus : Firmware FlashStatus := do
  let _ ← flashReadStatusReg1
  let _ ← flashReadStatusReg2
  let ready ← pollReady 0xFFFFFF
  let _ ← flashReadStatusReg2
  pure (if ready then .ok else .busy)

def flashDisableProtect : Firmware FlashStatus := do
  let _ ← flashReadStatusReg1
  let reg2 ← flashReadStatusReg2
  let _ ← flashWriteStatusReg 0x00#8 (reg2 &&& 0x03#8)
  let _ ← flashReadStatusReg1
  let _ ← flashReadStatusReg2
  flashCheckStatus

def flashEnableQuadMode : Firmware FlashStatus := do
  let reg2 ← flashReadStatusReg2
  if reg2 &&& 0x02#8 = 0 then
    let reg1 ← flashReadStatusReg1
    let _ ← flashWriteStatusReg reg1 (reg2 ||| 0x02#8)
  let driver ← getDriver
  setDriver { driver with pageProgramFun := .quad }
  flashCheckStatus

/-! ### Erasing and programming -/

/-- The three address bytes of a command. -/
def addressBytes (addr : Nat) : List Byte := [u8 (addr >>> 16), u8 (addr >>> 8), u8 addr]

def flashSectorErase (addr : Nat) : Firmware FlashStatus := do
  let _ ← flashWriteEnable
  flashSendData (0x20#8 :: addressBytes addr) []
  flashCheckStatus

def flashPageProgram (addr : Nat) (data : List Byte) : Firmware FlashStatus := do
  let _ ← flashWriteEnable
  flashSendData (0x02#8 :: addressBytes addr) data
  flashCheckStatus

def flashQuadPageProgram (addr : Nat) (data : List Byte) : Firmware FlashStatus := do
  let _ ← flashWriteEnable
  let driver ← getDriver
  flashSendDataEnhanced
    (0x01 <<< driver.tmodOffset ||| 0x07 <<< driver.dfsOffset ||| 0x02 <<< driver.frfOffset)
    (0x06 <<< 2 ||| 0x02 <<< 8) [0x32, addr] data
  flashCheckStatus

/-- A call through `flash_page_program_fun`. -/
def flashPageProgramFun (addr : Nat) (data : List Byte) : Firmware FlashStatus := do
  match (← getDriver).pageProgramFun with
  | .null => .spin
  | .standard => flashPageProgram addr data
  | .quad => flashQuadPageProgram addr data

/-- The inner loop of `flash_write_data`: programs of at most 32 bytes. -/
def programPieces (addr : Nat) (data : List Byte) : Firmware Unit := do
  if _more : data ≠ [] then
    let len := if data.length > 32 then 32 else data.length
    let _ ← flashPageProgramFun addr (data.take len)
    programPieces (u32 (addr + len)) (data.drop len)
termination_by data.length
decreasing_by
  have := List.length_pos_iff.mpr _more
  rw [List.length_drop]
  split <;> omega

/-- The outer loop of `flash_write_data`: one page at a time. -/
def writePages (addr : Nat) (data : List Byte) : Firmware Unit := do
  if _more : data ≠ [] then
    let pageRemain := 256 - (addr &&& 255)
    let writeLen := if data.length < pageRemain then data.length else pageRemain
    programPieces addr (data.take writeLen)
    writePages (u32 (addr + writeLen)) (data.drop writeLen)
termination_by data.length
decreasing_by
  have := List.length_pos_iff.mpr _more
  have := Nat.and_le_right (n := addr) (m := 255)
  rw [List.length_drop]
  split <;> omega

def flashWriteData (addr : Nat) (data : List Byte) : Firmware FlashStatus := do
  writePages addr data
  flashCheckStatus

/-! ### Reading -/

def flashRead (addr length : Nat) (mode : FlashRead) : Firmware (List Byte) :=
  match mode with
  | .standard => flashReceiveData (0x03#8 :: addressBytes addr) length
  | .standardFast => flashReceiveData (0x0B#8 :: addressBytes addr ++ [0xFF#8]) length
  | .dual => do
      let driver ← getDriver
      flashReceiveDataEnhanced
        (0x02 <<< driver.tmodOffset ||| 0x07 <<< driver.dfsOffset ||| 0x01 <<< driver.frfOffset)
        (0x06 <<< 2 ||| 0x02 <<< 8 ||| 0x08 <<< 11) [0x3B, addr] length
  | .dualSingle => do
      let driver ← getDriver
      flashReceiveDataEnhanced
        (0x02 <<< driver.tmodOffset ||| 0x07 <<< driver.dfsOffset ||| 0x01 <<< driver.frfOffset)
        (0x08 <<< 2 ||| 0x02 <<< 8 ||| 0x01) [0xBB, u32 (addr <<< 8)] length
  | .quad => do
      let driver ← getDriver
      flashReceiveDataEnhanced
        (0x02 <<< driver.tmodOffset ||| 0x07 <<< driver.dfsOffset ||| 0x02 <<< driver.frfOffset)
        (0x06 <<< 2 ||| 0x02 <<< 8 ||| 0x08 <<< 11) [0x6B, addr] length
  | .quadSingle => do
      let driver ← getDriver
      flashReceiveDataEnhanced
        (0x02 <<< driver.tmodOffset ||| 0x07 <<< driver.dfsOffset ||| 0x02 <<< driver.frfOffset)
        (0x08 <<< 2 ||| 0x02 <<< 8 ||| 0x04 <<< 11 ||| 0x01) [0xEB, u32 (addr <<< 8)] length

/-- Reads of at most 32 bytes, one after the other. -/
def flashReadData (addr length : Nat) (mode : FlashRead) : Firmware (List Byte) := do
  if _more : length ≠ 0 then
    let readLen := if length > 32 then 32 else length
    let head ← flashRead addr readLen mode
    let rest ← flashReadData (u32 (addr + readLen)) (length - readLen) mode
    pure (head ++ rest)
  else
    pure []
termination_by length
decreasing_by split <;> omega

end K210Guard
