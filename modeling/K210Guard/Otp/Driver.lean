/-
**The OTP driver** (`drivers/otp.c`): writing and reading through the controller.

The driver gives the controller one address after the other. For each it waits until the controller
takes an address in, and after it until the controller answers; what the controller does with the
`n`-th address is a parameter. A bit that is handed over is programmed if the controller accepts it.
Both the loads of the caller's buffer and the bits handed over are recorded.
-/

import K210Guard.Otp.Cells

namespace K210Guard

namespace Otp

abbrev Word := BitVec 32

/-- `enum otp_status_t` -/
inductive OtpStatus
  | ok
  | errorTimeout
  | errorAddress
  | errorWrite
  | errorBlank
  | errorBisr
  | errorTestdec
  | errorWrtest
  | errorKeycomp
  | errorParam
  | errorNull
  | blockNormal
  | blockProtected
  | wiredRegUnset
  | wiredRegSet
  | flagSet
  | flagUnset
  deriving DecidableEq

/-! ### The controller -/

/-- The registers of `struct otp_t` that these functions use. -/
inductive Register
  | otpCeb
  | otpTestMode
  | otpMode
  | datInFinish
  | testStep
  | otpLastDat
  | otpData
  | otpInDat
  | otpApbAdr
  | dataAcpFlag
  | otpAdrInFlag
  | bisrFinish
  | otpCle
  | dataBlkCtrl
  | otpWrgAdrFlag
  | proWrong
  | otpDataRdy
  deriving DecidableEq

inductive Op
  | write (register : Register) (value : Word)
  | read (register : Register)
  | load (address : Nat)
  | store (address : Nat) (value : Byte)

abbrev Op.Ans : Op → Type
  | .write _ _ => Unit
  | .read _ => Word
  | .load _ => Byte
  | .store _ _ => Unit

/-- What the controller does: how often `otp_adr_in_flag` is still 0 before the `n`-th address, how
often the flag that answers the address is, and the answers. `status n` is what the other registers
show at the `n`-th access. -/
structure Controller where
  adrDelay : Nat → Nat
  answerDelay : Nat → Nat
  dataAcp : Nat → Word
  wrgAdr : Nat → Word
  status : Nat → Register → Word

/-- The controller takes the bit that comes with the `n`-th address. -/
def Controller.Accepts (c : Controller) (n : Nat) : Prop :=
  c.dataAcp n ≠ 0 ∧ c.dataAcp n ≠ 1 ∧ c.wrgAdr n ≠ 1

instance (c : Controller) (n : Nat) : Decidable (c.Accepts n) :=
  inferInstanceAs (Decidable (_ ∧ _ ∧ _))

/-- A bit that was handed over, and whether `otp_last_dat` was set for it. -/
structure Programming where
  address : Nat
  value : Bool
  last : Bool

structure Machine where
  registers : Register → Word
  cells : Cells
  ram : Nat → Byte
  clock : Nat
  /-- the addresses given so far -/
  rounds : Nat
  adrPolls : Nat
  answerPolls : Nat
  /-- `otp_last_dat` has been set and no bit handed over since -/
  lastDat : Bool
  programmed : List Programming
  loads : List Nat

namespace Machine

/-- `dat_in_finish`: the bit in `otp_in_dat` goes to the address in `otp_apb_adr`. -/
def handOver (c : Controller) (m : Machine) : Machine :=
  let address := (m.registers .otpApbAdr).toNat
  let value := (m.registers .otpInDat).getLsbD 0
  { m with
    programmed := m.programmed ++ [⟨address, value, m.lastDat⟩]
    lastDat := false
    cells := if c.Accepts (m.rounds - 1) then m.cells.program address value else m.cells }

/-- The register holds the value. -/
def put (m : Machine) (register : Register) (value : Word) : Machine :=
  { m with registers := Function.update m.registers register value }

def write (c : Controller) (m : Machine) : Register → Word → Machine
  | .otpCeb, value => { m.put .otpCeb value with adrPolls := 0, lastDat := false }
  | .otpApbAdr, value =>
      { m.put .otpApbAdr value with rounds := m.rounds + 1, adrPolls := 0, answerPolls := 0 }
  | .otpLastDat, value => { m.put .otpLastDat value with lastDat := true }
  | .datInFinish, _ => m.handOver c
  | register, value => m.put register value

/-- A flag that is 0 for the first polls. -/
def readAnswer (c : Controller) (m : Machine) (value : Word) : Word × Machine :=
  if m.answerPolls < c.answerDelay (m.rounds - 1) then
    (0, { m with answerPolls := m.answerPolls + 1 })
  else (value, m)

def read (c : Controller) (m : Machine) : Register → Word × Machine
  | .otpAdrInFlag =>
      if m.adrPolls < c.adrDelay m.rounds then (0, { m with adrPolls := m.adrPolls + 1 })
      else (1, m)
  | .dataAcpFlag => m.readAnswer c (c.dataAcp (m.rounds - 1))
  | .otpDataRdy => m.readAnswer c 1
  | .otpWrgAdrFlag => (c.wrgAdr (m.rounds - 1), m)
  | .otpData => ((m.cells.byte (m.registers .otpApbAdr).toNat).setWidth 32, m)
  | register => (c.status m.clock register, m)

def access (c : Controller) (m : Machine) : (op : Op) → op.Ans × Machine
  | .write register value => ((), m.write c register value)
  | .read register => m.read c register
  | .load address => (m.ram address, { m with loads := m.loads ++ [address] })
  | .store address value => ((), { m with ram := Function.update m.ram address value })

def step (c : Controller) (m : Machine) (op : Op) : op.Ans × Machine :=
  ({ m with clock := m.clock + 1 } : Machine).access c op

end Machine

/-! ### Accesses -/

abbrev Program := Prog Op Op.Ans

def writeRegister (register : Register) (value : Word) : Program Unit :=
  Prog.perform (Op.write register value)

def readRegister (register : Register) : Program Word := Prog.perform (Op.read register)

def load (address : Nat) : Program Byte := Prog.perform (Op.load address)

def store (address : Nat) (value : Byte) : Program Unit := Prog.perform (Op.store address value)

/-- `DELAY_TIMEOUT` -/
def delayTimeout : Nat := 0xFFFFFF

/-- `while (flag == 0)` with a count of the polls; false when they run out. -/
def waitFlag (flag : Register) : (polls : Nat) → Program Bool
  | 0 => pure false
  | polls + 1 => do
      let value ← readRegister flag
      if value = 0 then waitFlag flag polls else pure true

/-! ### Self-repair -/

/-- Both functions start a step of the self-repair and wait for its end. -/
def startBisr (step : Word) : Program Bool := do
  writeRegister .otpCle 1
  writeRegister .otpMode 0x02
  writeRegister .otpTestMode 0x30
  writeRegister .testStep step
  writeRegister .otpCeb 0
  waitFlag .bisrFinish delayTimeout

def otpBisrWrite : Program OtpStatus := do
  let finished ← startBisr 0
  if finished then do
    writeRegister .bisrFinish 0
    let wrong ← readRegister .proWrong
    pure (if wrong ≠ 0 then .errorBisr else .ok)
  else pure .errorTimeout

def otpBisrRead : Program OtpStatus := do
  let finished ← startBisr 1
  if finished then do
    writeRegister .bisrFinish 0
    pure .ok
  else pure .errorTimeout

/-! ### Writing -/

/-- The answer of the controller; `none` when it took the bit. -/
def checkAnswer : Program (Option OtpStatus) := do
  let wrgAdr ← readRegister .otpWrgAdrFlag
  if wrgAdr = 1 then pure (some .errorAddress)
  else do
    let dataAcp ← readRegister .dataAcpFlag
    if dataAcp = 1 then pure (some .errorWrite)
    else do
      writeRegister .dataAcpFlag 0
      pure none

def awaitAnswer : Program (Option OtpStatus) := do
  let answered ← waitFlag .dataAcpFlag delayTimeout
  if answered then checkAnswer else pure (some .errorTimeout)

/-- The values that go with an address: on the last one, its own bit and the mark. -/
def setBit (last : Bool) (data : Byte) : Program Unit :=
  if last then do
    writeRegister .otpInDat ((data &&& 0x01).setWidth 32)
    writeRegister .otpLastDat 1
  else writeRegister .otpInDat 1

/-- An address and its bit. -/
def giveBit (last : Bool) (addr : Word) (data : Byte) : Program Unit := do
  writeRegister .otpApbAdr addr
  setBit last data
  writeRegister .datInFinish 1

/-- One bit is offered to the controller. -/
def offerBit (last : Bool) (addr : Word) (data : Byte) : Program (Option OtpStatus) := do
  let takesAddress ← waitFlag .otpAdrInFlag delayTimeout
  if takesAddress then do
    giveBit last addr data
    awaitAnswer
  else pure (some .errorTimeout)

/-- `if ((length == 0) || (data & 0x01))`; `last` says that no bits are left behind this one. -/
def offerIfWorth (last : Bool) (addr : Word) (data : Byte) : Program (Option OtpStatus) :=
  if last = true ∨ data &&& 0x01 ≠ 0 then offerBit last addr data else pure none

/-- `while (length--)`; `none` when it comes to its end. -/
def writeBits : (length : Nat) → (addr : Word) → (data : Byte) → (index dataBuf : Nat) →
    Program (Option OtpStatus)
  | 0, _, _, _, _ => pure none
  | length + 1, addr, data, index, dataBuf => do
      let refused ← offerIfWorth (length = 0) addr data
      match refused with
      | some status => pure (some status)
      | none => do
          let (data, index, dataBuf) ← nextBit load data index dataBuf
          writeBits length (addr + 1) data index dataBuf

def otpWriteByte (addr : Word) (dataBuf : Nat) (length : Word) : Program OtpStatus := do
  writeRegister .otpCle 0
  writeRegister .otpMode 1
  writeRegister .dataAcpFlag 0
  writeRegister .otpWrgAdrFlag 0
  writeRegister .otpCeb 0
  let data ← load dataBuf
  let refused ← writeBits (length * 8).toNat (addr * 8) data 0 (dataBuf + 1)
  match refused with
  | some status => pure status
  | none => do
      let status ← otpBisrWrite
      if status ≠ .ok then pure status else otpBisrRead

/-- `OTP_BISR_DATA_ADDR` -/
def otpBisrDataAddr : Word := 0x00003DD0

/-- What is left of a length in front of the self-repair data. -/
def clampLength (addr length : Word) : Word :=
  if length ≤ otpBisrDataAddr - addr then length else otpBisrDataAddr - addr

def otpWriteData (addr : Word) (dataBuf : Nat) (length : Word) : Program OtpStatus :=
  if addr ≥ otpBisrDataAddr then pure .errorAddress
  else do
    let status ← otpWriteByte addr dataBuf (clampLength addr length)
    pure (if status = .errorAddress then .blockProtected else status)

/-! ### Reading -/

/-- The byte at the address, once it is ready. -/
def takeByte : Program (Except OtpStatus Byte) := do
  let wrgAdr ← readRegister .otpWrgAdrFlag
  if wrgAdr = 1 then pure (.error .errorAddress)
  else do
    let data ← readRegister .otpData
    pure (.ok (data.setWidth 8))

/-- `if (length == 0) otp->otp_last_dat = 1;` -/
def markLast (last : Bool) : Program Unit :=
  if last then writeRegister .otpLastDat 1 else pure ()

/-- An address is given and its byte awaited. -/
def requestByte (last : Bool) (addr : Word) : Program (Except OtpStatus Byte) := do
  markLast last
  writeRegister .otpApbAdr addr
  let ready ← waitFlag .otpDataRdy delayTimeout
  if ready then takeByte else pure (.error .errorTimeout)

def readByte (last : Bool) (addr : Word) : Program (Except OtpStatus Byte) := do
  let takesAddress ← waitFlag .otpAdrInFlag delayTimeout
  if takesAddress then requestByte last addr else pure (.error .errorTimeout)

/-- `while (length--)` -/
def readBytes : (length : Nat) → (addr : Word) → (dataBuf : Nat) → Program OtpStatus
  | 0, _, _ => pure .ok
  | length + 1, addr, dataBuf => do
      let byte ← readByte (length = 0) addr
      match byte with
      | .error status => pure status
      | .ok data => do
          store dataBuf data
          readBytes length (addr + 8) (dataBuf + 1)

def otpReadByte (addr : Word) (dataBuf : Nat) (length : Word) : Program OtpStatus := do
  writeRegister .otpCle 0
  writeRegister .otpMode 0
  writeRegister .otpWrgAdrFlag 0
  writeRegister .otpCeb 0
  readBytes length.toNat (addr * 8) dataBuf

def otpReadData (addr : Word) (dataBuf : Nat) (length : Word) : Program OtpStatus :=
  if addr ≥ otpBisrDataAddr then pure .errorAddress
  else do
    let status ← otpReadByte addr dataBuf (clampLength addr length)
    pure (if status = .errorAddress then .errorNull else status)

/-! ### Two callers -/

/-- `OTP_BLOCK_CTL_ADDR` -/
def otpBlockCtlAddr : Word := 0x00003FD0

/-- `OTP_WIRED_REG_ADDR` -/
def otpWiredRegAddr : Word := 0x00003FE0

/-- Two bits of a control area are set; `value` is a local variable of one byte. -/
def setControlBits (area : Word) (number value : Nat) : Program OtpStatus :=
  if number ≥ 64 then pure .errorParam
  else do
    writeRegister .dataBlkCtrl 0x01
    store value (0x03#8 <<< (number % 4 * 2))
    let status ← otpWriteByte (area + BitVec.ofNat 32 (number / 4)) value 1
    writeRegister .dataBlkCtrl 0
    pure status

/-- `DATA_BLOCK_MAX` is 64. -/
def otpDataBlockProtectSet (block value : Nat) : Program OtpStatus :=
  setControlBits otpBlockCtlAddr block value

/-- `FUNC_REG_MAX` is 64. -/
def otpFuncRegDisableSet (func value : Nat) : Program OtpStatus :=
  setControlBits otpWiredRegAddr func value

end Otp

end K210Guard
