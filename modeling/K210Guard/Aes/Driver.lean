/-
**The AES driver** (`drivers/aes.c`).

`aes_init` and `aes_process` as programs over the registers of the engine and over memory. Before
each word it writes, the driver waits for `data_in_flag`, and before each word it reads for
`data_out_flag`, which the engine can raise only while it owes a word: it returns one word for each
word of text. When the flags are raised and what the words are is up to the engine.
-/

import Mathlib.Logic.Function.Basic
import K210Guard.Flash.Driver
import K210Guard.Interaction.Polling
import K210Guard.Memory.LittleEndian
import K210Guard.Memory.Range

namespace K210Guard

namespace Aes

abbrev Word := BitVec 32

/-- `enum aes_cipher_mod` -/
inductive AesCipherMod
  | ecb
  | cbc
  | gcm
  deriving DecidableEq

def AesCipherMod.value : AesCipherMod → Word
  | .ecb => 0
  | .cbc => 1
  | .gcm => 3

/-- The modes that work on whole blocks: `(cipher_mod == AES_ECB) || (cipher_mod == AES_CBC)`. -/
def AesCipherMod.Blocks (cipherMod : AesCipherMod) : Prop := cipherMod = .ecb ∨ cipherMod = .cbc

instance (cipherMod : AesCipherMod) : Decidable cipherMod.Blocks :=
  inferInstanceAs (Decidable (_ ∨ _))

/-! ### The engine -/

/-- The registers of `struct aes_t` that the two functions use. -/
inductive Register
  | aesKey (index : Nat)
  | encrptSel
  | cipherMode
  | aesIv (index : Nat)
  | aesEndian
  | gbAadEndAdr
  | gbPcEndAdr
  | aesTextData
  | aesAadData
  | dataInFlag
  | aesOutData
  | gbAesEn
  | dataOutFlag
  deriving DecidableEq

inductive Op
  | write (register : Register) (value : Word)
  | read (register : Register)
  | loadWord (address : Nat)
  | loadByte (address : Nat)
  | storeWord (address : Nat) (value : Word)
  | storeByte (address : Nat) (value : Byte)

abbrev Op.Ans : Op → Type
  | .write _ _ => Unit
  | .read _ => Word
  | .loadWord _ => Word
  | .loadByte _ => Byte
  | .storeWord _ _ => Unit
  | .storeByte _ _ => Unit

/-- What the engine does: its flags at each access, and the words it returns. -/
structure Engine where
  dataInFlag : Nat → Word
  dataOutFlag : Nat → Word
  output : Nat → Word

/-- What the driver works on. -/
structure Core where
  registers : Register → Word
  /-- the words of text written to the engine -/
  text : List Word
  aad : List Word
  /-- how many words of output have been read -/
  taken : Nat
  ram : Nat → Byte

structure Machine where
  core : Core
  clock : Nat
  /-- for each look at `data_out_flag`, the words read and the words written by then -/
  waits : List (Nat × Nat)

/-- A word in memory; its first byte is the least significant one. -/
def wordAt (ram : Nat → Byte) (address : Nat) : Word :=
  BitVec.ofNat 32 (leNat (readRange ram address 4))

namespace Core

def write (core : Core) : Register → Word → Core
  | .aesTextData, value => { core with text := core.text ++ [value] }
  | .aesAadData, value => { core with aad := core.aad ++ [value] }
  | register, value => { core with registers := Function.update core.registers register value }

def store (core : Core) (address : Nat) (bytes : List Byte) : Core :=
  { core with ram := writeRange core.ram address bytes }

end Core

/-- An operation on the engine as it is at a given moment. -/
def Core.access (engine : Engine) (clock : Nat) (core : Core) : (op : Op) → op.Ans × Core
  | .write register value => ((), core.write register value)
  | .read .dataInFlag => (engine.dataInFlag clock, core)
  | .read .dataOutFlag =>
      (if core.taken < core.text.length then engine.dataOutFlag clock else 0, core)
  | .read .aesOutData => (engine.output core.taken, { core with taken := core.taken + 1 })
  | .read register => (core.registers register, core)
  | .loadWord address => (wordAt core.ram address, core)
  | .loadByte address => (core.ram address, core)
  | .storeWord address value => ((), core.store address (leBytes 4 value.toNat))
  | .storeByte address value => ((), core.store address [value])

/-- A look at `data_out_flag` leaves its trace. -/
def Machine.noted (m : Machine) : Op → List (Nat × Nat)
  | .read .dataOutFlag => m.waits ++ [(m.core.taken, m.core.text.length)]
  | _ => m.waits

def Machine.step (engine : Engine) (m : Machine) (op : Op) : op.Ans × Machine :=
  ((m.core.access engine m.clock op).1,
    { core := (m.core.access engine m.clock op).2, clock := m.clock + 1, waits := m.noted op })

/-! ### Accesses -/

abbrev Program := Prog Op Op.Ans

def writeRegister (register : Register) (value : Word) : Program Unit :=
  Prog.perform (Op.write register value)

def readRegister (register : Register) : Program Word := Prog.perform (Op.read register)

def loadWord (address : Nat) : Program Word := Prog.perform (Op.loadWord address)

def storeWord (address : Nat) (value : Word) : Program Unit :=
  Prog.perform (Op.storeWord address value)

/-- The `count` bytes from an address, one after the other. -/
def loadBytes : (address count : Nat) → Program (List Byte)
  | _, 0 => pure []
  | address, count + 1 => do
      let byte ← Prog.perform (Op.loadByte address)
      let rest ← loadBytes (address + 1) count
      pure (byte :: rest)

def storeBytes : (address : Nat) → List Byte → Program Unit
  | _, [] => pure ()
  | address, byte :: rest => do
      Prog.perform (Op.storeByte address byte)
      storeBytes (address + 1) rest

/-- `u8data` after its first bytes have been set. -/
def setBytes (u8data bytes : List Byte) : List Byte := bytes ++ u8data.drop bytes.length

/-- `*((uint32_t *)(&u8data[0]))` -/
def wordOf (u8data : List Byte) : Word := BitVec.ofNat 32 (leNat u8data)

/-- `while (!flag());` -/
def waitFlag (flag : Register) : (polls : Nat) → Unit → Program Unit :=
  Prog.repeatUntil fun _ => do
    let raised ← readRegister flag
    pure (if raised = 0 then .inl () else .inr ())

def aesWriteAad (aadData : Word) : Program Unit := writeRegister .aesAadData aadData

def aesWriteText (textData : Word) : Program Unit := writeRegister .aesTextData textData

def readOutData : Program Word := readRegister .aesOutData

/-- Waits, and writes a word of text. -/
def putText (polls : Nat) (textData : Word) : Program Unit := do
  waitFlag .dataInFlag polls ()
  aesWriteText textData

/-- Waits, and reads a word of output. -/
def getOutput (polls : Nat) : Program Word := do
  waitFlag .dataOutFlag polls ()
  readOutData

/-! ### `aes_init` -/

/-- The loop over a key or an initialization vector: its last four bytes come first. The bytes that
are left over at its start go through `u8data`. -/
def writeLowAligned (register : Nat → Register) (address length : Nat) (u8data : List Byte) :
    Program (List Byte) := do
  Prog.forLoop (fun i => do
    let word ← loadWord (address + (length - 4 * i - 4))
    writeRegister (register i) word) 0 (length / 4)
  if length % 4 ≠ 0 then do
    let bytes ← loadBytes address (length % 4)
    writeRegister (register (length / 4)) (wordOf (setBytes u8data bytes))
    pure (setBytes u8data bytes)
  else pure u8data

/-- The additional data, for GCM. -/
def writeAllAad (polls aesAad addSize : Nat) (u8data : List Byte) : Program Unit := do
  Prog.forLoop (fun i => do
    let word ← loadWord (aesAad + i * 4)
    waitFlag .dataInFlag polls ()
    aesWriteAad word) 0 (addSize / 4)
  if addSize % 4 ≠ 0 then do
    let bytes ← loadBytes (aesAad + 4 * (addSize / 4)) (addSize % 4)
    waitFlag .dataInFlag polls ()
    aesWriteAad (wordOf (setBytes u8data bytes))
  else pure ()

/-- `data_size` rounded up to whole blocks. -/
def paddedSize (dataSize : Nat) : Nat := u32 (dataSize + 15) / 16 * 16

/-- The parameters of `aes_init`, with pointers into memory. -/
structure InitArguments where
  keyAddr : Nat
  keyLength : Nat
  aesIv : Nat
  ivLength : Nat
  aesAad : Nat
  encrptSel : Word
  addSize : BitVec 32

def aesInit (arguments : InitArguments) (cipherMod : AesCipherMod) (dataSize : Nat) (polls : Nat) :
    Program Int := do
  let dataSize := if cipherMod.Blocks then paddedSize dataSize else dataSize
  let endian ← readRegister .aesEndian
  writeRegister .aesEndian (endian ||| 1)
  let u8data ← writeLowAligned .aesKey arguments.keyAddr arguments.keyLength [0, 0, 0, 0]
  let u8data ← writeLowAligned .aesIv arguments.aesIv arguments.ivLength u8data
  writeRegister .cipherMode cipherMod.value
  writeRegister .encrptSel arguments.encrptSel
  writeRegister .gbAadEndAdr (arguments.addSize - 1)
  writeRegister .gbPcEndAdr (BitVec.ofNat 32 dataSize - 1)
  let enabled ← readRegister .gbAesEn
  writeRegister .gbAesEn (enabled ||| 1)
  if cipherMod = .gcm then writeAllAad polls arguments.aesAad arguments.addSize.toNat u8data
  else pure ()
  pure 1

/-! ### `aes_process` -/

/-- The words of the input that are whole. -/
def writeWords (polls aesInData num : Nat) : Program Unit :=
  Prog.forLoop (fun i => do
    let u32data ← loadWord (aesInData + i * 4)
    putText polls u32data) 0 num

/-- The bytes that are left over, in a word of their own. -/
def writeRemainder (polls aesInData cnt remainder : Nat) : Program Unit :=
  if remainder ≠ 0 then do
    let bytes ← loadBytes (aesInData + cnt) remainder
    putText polls (wordOf (setBytes [0, 0, 0, 0] bytes))
  else pure ()

/-- In ECB and CBC, words of zeros up to the end of the block; the number of whole words to read. -/
def fillBlock (polls dataSize : Nat) (cipherMod : AesCipherMod) : Program Nat :=
  if cipherMod.Blocks then do
    Prog.forLoop (fun _ => putText polls 0) 0 ((paddedSize dataSize - dataSize) / 4)
    pure (paddedSize dataSize / 4)
  else pure (dataSize / 4)

def readWords (polls aesOutData num : Nat) : Program Unit :=
  Prog.forLoop (fun i => do
    let word ← getOutput polls
    storeWord (aesOutData + i * 4) word) 0 num

/-- In GCM, the last bytes of the output. -/
def readRemainder (polls aesOutData num remainder : Nat) (cipherMod : AesCipherMod) :
    Program Unit :=
  if cipherMod = .gcm ∧ remainder ≠ 0 then do
    let word ← getOutput polls
    storeBytes (aesOutData + num * 4) ((leBytes 4 word.toNat).take remainder)
  else pure ()

def aesProcessLess80Bytes (aesInData aesOutData dataSize : Nat) (cipherMod : AesCipherMod)
    (polls : Nat) : Program Int := do
  let remainder := dataSize % 4
  writeWords polls aesInData (dataSize / 4)
  writeRemainder polls aesInData (4 * (dataSize / 4)) remainder
  let num ← fillBlock polls dataSize cipherMod
  readWords polls aesOutData num
  readRemainder polls aesOutData num remainder cipherMod
  pure 1

/-- The chunks of 80 bytes. -/
def processChunks (aesInData aesOutData dataSize : Nat) (cipherMod : AesCipherMod) (polls : Nat) :
    Program Unit :=
  if 80 ≤ dataSize then
    Prog.forLoop (fun i => do
      let _ ← aesProcessLess80Bytes (aesInData + i * 80) (aesOutData + i * 80) 80 cipherMod polls
      pure ()) 0 (dataSize / 80)
  else pure ()

/-- What is left over after `i` chunks. -/
def processRest (aesInData aesOutData i tempSize : Nat) (cipherMod : AesCipherMod) (polls : Nat) :
    Program Unit :=
  if tempSize ≠ 0 then do
    let _ ← aesProcessLess80Bytes (aesInData + i * 80) (aesOutData + i * 80) tempSize cipherMod
      polls
    pure ()
  else pure ()

def aesProcess (aesInData aesOutData dataSize : Nat) (cipherMod : AesCipherMod) (polls : Nat) :
    Program Int := do
  processChunks aesInData aesOutData dataSize cipherMod polls
  processRest aesInData aesOutData (dataSize / 80) (dataSize % 80) cipherMod polls
  pure 1

end Aes

end K210Guard
