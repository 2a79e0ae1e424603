/-
**The bypass mode** (`drivers/otp.c`): the processor moves the lines of the array itself.

With the array enabled, a low level on `otp_web_cpu` latches the bit in `otp_din_cpu`, or programs
the latched bit into the cell at `otp_adr_cpu`, as the other lines select; every such pulse
succeeds. What `otp_dat_cpu` shows between the pulses is a parameter.
-/

import K210Guard.Otp.Driver

namespace K210Guard

namespace Otp

namespace Bypass

/-! ### The array and its lines -/

/-- The registers of `struct otp_t` behind which the lines are. -/
inductive Line
  | otpWebCpu
  | otpRstbCpu
  | otpSeltmCpu
  | otpReadenCpu
  | otpPgmenCpu
  | otpDleCpu
  | otpDinCpu
  | otpCpumpenCpu
  | otpCleCpu
  | otpCebCpu
  | otpAdrCpu
  | otpDatCpu
  deriving DecidableEq

inductive Op
  | write (line : Line) (value : Word)
  | read (line : Line)
  | load (address : Nat)
  | store (address : Nat) (value : Byte)

abbrev Op.Ans : Op → Type
  | .write _ _ => Unit
  | .read _ => Word
  | .load _ => Byte
  | .store _ _ => Unit

/-- What `otp_dat_cpu` shows while nothing is being read: at the `n`-th address, the first time
after the `k`-th pulse, and again without another pulse. -/
structure Checks where
  afterPulse : Nat → Nat → Word
  again : Nat → Word

structure Machine where
  lines : Line → Word
  cells : Cells
  latch : Bool
  ram : Nat → Byte
  /-- the addresses given so far -/
  rounds : Nat
  /-- the pulses at the last address -/
  pulses : Nat
  /-- `otp_dat_cpu` has been read since the last pulse -/
  seen : Bool
  loads : List Nat

namespace Machine

/-- The line has the value. -/
def put (m : Machine) (line : Line) (value : Word) : Machine :=
  { m with lines := Function.update m.lines line value }

/-- `otp_web_cpu` goes low: the bit is latched, or the latched bit programmed. -/
def pullLow (m : Machine) : Machine :=
  if m.lines .otpCebCpu ≠ 0 then m
  else if m.lines .otpDleCpu = 1 then { m with latch := (m.lines .otpDinCpu).getLsbD 0 }
  else if m.lines .otpPgmenCpu = 1 ∧ m.lines .otpCpumpenCpu = 1 then
    { m with
      pulses := m.pulses + 1
      seen := false
      cells := m.cells.program (m.lines .otpAdrCpu).toNat m.latch }
  else m

def write (m : Machine) : Line → Word → Machine
  | .otpAdrCpu, value => { m.put .otpAdrCpu value with rounds := m.rounds + 1, pulses := 0 }
  | .otpWebCpu, value => if value = 0 then (m.put .otpWebCpu 0).pullLow else m.put .otpWebCpu value
  | line, value => m.put line value

def read (checks : Checks) (m : Machine) : Line → Word × Machine
  | .otpDatCpu =>
      if m.lines .otpReadenCpu = 1 then
        ((m.cells.byte (m.lines .otpAdrCpu).toNat).setWidth 32, m)
      else if m.seen then (checks.again (m.rounds - 1), m)
      else (checks.afterPulse (m.rounds - 1) m.pulses, { m with seen := true })
  | line => (m.lines line, m)

def step (checks : Checks) (m : Machine) : (op : Op) → op.Ans × Machine
  | .write line value => ((), m.write line value)
  | .read line => m.read checks line
  | .load address => (m.ram address, { m with loads := m.loads ++ [address] })
  | .store address value => ((), { m with ram := Function.update m.ram address value })

end Machine

/-! ### The functions -/

abbrev Program := Prog Op Op.Ans

def writeLine (line : Line) (value : Word) : Program Unit := Prog.perform (Op.write line value)

def readLine (line : Line) : Program Word := Prog.perform (Op.read line)

def load (address : Nat) : Program Byte := Prog.perform (Op.load address)

def store (address : Nat) (value : Byte) : Program Unit := Prog.perform (Op.store address value)

/-- The address and its bit, up to the latch. -/
def latchBit (addr : Word) (data : Byte) : Program Unit := do
  writeLine .otpAdrCpu addr
  writeLine .otpDinCpu ((data &&& 0x01).setWidth 32)
  writeLine .otpDleCpu 1
  writeLine .otpWebCpu 0
  writeLine .otpWebCpu 1
  writeLine .otpDleCpu 0

def pulse : Program Unit := do
  writeLine .otpPgmenCpu 1
  writeLine .otpCpumpenCpu 1
  writeLine .otpWebCpu 0
  writeLine .otpWebCpu 1
  writeLine .otpCpumpenCpu 0
  writeLine .otpPgmenCpu 0

/-- `while (count--)` -/
def pulses : (count : Nat) → Program Unit
  | 0 => pure ()
  | count + 1 => do
      pulse
      let dat ← readLine .otpDatCpu
      if dat = 0 then pure () else pulses count

/-- A bit is programmed; what `otp_dat_cpu` shows in the end. -/
def programBit (addr : Word) (data : Byte) : Program Word := do
  latchBit addr data
  pulses 20
  readLine .otpDatCpu

/-- `while (length)`; what is left of the length. -/
def softWriteBits : (length : Nat) → (addr : Word) → (data : Byte) → (index dataBuf : Nat) →
    Program Nat
  | 0, _, _, _, _ => pure 0
  | length + 1, addr, data, index, dataBuf => do
      let dat ← programBit addr data
      if dat &&& 0x01 ≠ 0 then pure (length + 1)
      else do
        let (data, index, dataBuf) ← nextBit load data index dataBuf
        softWriteBits length (addr + 1) data index dataBuf

def otpSoftWrite (addr : Word) (dataBuf : Nat) (length : Word) : Program OtpStatus := do
  writeLine .otpCebCpu 1
  writeLine .otpCleCpu 0
  writeLine .otpSeltmCpu 0
  writeLine .otpReadenCpu 0
  writeLine .otpDleCpu 0
  writeLine .otpWebCpu 1
  writeLine .otpCpumpenCpu 0
  writeLine .otpPgmenCpu 0
  writeLine .otpRstbCpu 1
  writeLine .otpCebCpu 0
  writeLine .otpRstbCpu 0
  writeLine .otpRstbCpu 1
  let data ← load dataBuf
  let left ← softWriteBits (length * 8).toNat (addr * 8) data 0 (dataBuf + 1)
  writeLine .otpCebCpu 1
  pure (if left ≠ 0 then .errorWrite else .ok)

/-- `while (length)` -/
def softReadBytes : (length : Nat) → (addr : Word) → (dataBuf : Nat) → Program Unit
  | 0, _, _ => pure ()
  | length + 1, addr, dataBuf => do
      writeLine .otpAdrCpu addr
      writeLine .otpReadenCpu 1
      let dat ← readLine .otpDatCpu
      store dataBuf (dat.setWidth 8)
      writeLine .otpReadenCpu 0
      softReadBytes length (addr + 8) (dataBuf + 1)

/-- The loop ends with nothing left, so the check behind it never fails. -/
def otpSoftRead (addr : Word) (dataBuf : Nat) (length : Word) : Program OtpStatus := do
  writeLine .otpCebCpu 1
  writeLine .otpDleCpu 0
  writeLine .otpCleCpu 0
  writeLine .otpPgmenCpu 0
  writeLine .otpWebCpu 1
  writeLine .otpReadenCpu 0
  writeLine .otpRstbCpu 1
  writeLine .otpCebCpu 0
  writeLine .otpRstbCpu 0
  writeLine .otpRstbCpu 1
  softReadBytes length.toNat addr dataBuf
  writeLine .otpCebCpu 1
  pure .ok

end Bypass

end Otp

end K210Guard
