/-
**The boot code** (`main.c`).

`main` checks the images in the slots BAK and APP, loads them to the boot address, compares the two
stored hashes, restores one slot from the other when they differ, and boots. The console output, the
delays and the start of the second core leave no trace in the machine and are left out; `go_boot`
and `sys_exit` are how `main` ends.
-/

import K210Guard.Boot.Engines
import K210Guard.Flash.Commands

namespace K210Guard

/-- `LOADER_STAGE1` or not. -/
inductive Stage
  | stage1
  | stage2
  deriving DecidableEq

namespace Stage

/-- `FLASH_APP_ADDR` -/
def flashAppAddr : Stage → Nat
  | .stage1 => 64 * 1024
  | .stage2 => 3 * 64 * 1024

/-- `FLASH_BAK_ADDR` -/
def flashBakAddr : Stage → Nat
  | .stage1 => 2 * 64 * 1024
  | .stage2 => (3 * 64 + 320) * 1024

/-- `FLASH_NEXT_SIZE` -/
def flashNextSize : Stage → Nat
  | .stage1 => 64 * 1024
  | .stage2 => 320 * 1024

/-- `_boot` -/
def boot : Stage → Nat
  | .stage1 => 0x80500000
  | .stage2 => 0x80000000

end Stage

/-- How `main` ends. -/
inductive Exit
  | goBoot
  | sysExit (code : Nat)
  deriving DecidableEq

def exitReasonAbnormal : Nat := 255

def exitReasonSha256Flash : Int := 24

def exitReasonOversize : Int := 233

/-! ### The check -/

/-- `aes_process` on one block. -/
def aesProcess (aes : AesEngine) (previous block : List Byte) : Firmware (List Byte) := do
  let otpKey ← Bus.issue .getOtpKeyOutput
  pure (cbcBlock (aes.decryptBlock otpKey) previous block)

/-- The decryption loop, in place; `previous` is the block the engine saw last. A `codes_length`
that is no multiple of 16 steps over 0 and the loop never ends, so `2 ^ 28` rounds are enough for
every length with which it ends. -/
def decipherLoop (aes : AesEngine) : Nat → List Byte → Nat → Nat → Firmware Unit
  | 0, _, _, _ => .spin
  | rounds + 1, previous, aesInputPtr, codesLength => do
      if codesLength > 0 then
        let block ← Bus.issue (.load aesInputPtr 16)
        let aesOutput ← aesProcess aes previous block
        Bus.issue (.store aesInputPtr aesOutput)
        decipherLoop aes rounds block (aesInputPtr + 16) (u32 (codesLength + 2 ^ 32 - 16))

def flashImageCheck (engines : Engines) (flashAddr ramptr length : Nat) : Firmware Int := do
  let _ ← flashInit 1
  let _ ← flashEnableQuadMode
  let firmwareAesEnabled ← flashReadData flashAddr 1 .quadSingle
  let lengthBytes ← flashReadData (u32 (flashAddr + 1)) 4 .quadSingle
  let codesLength := leNat lengthBytes
  if codesLength > length - 1 - 4 - flashSha256Len then
    pure (-exitReasonOversize)
  else
    let codes ← flashReadData (u32 (flashAddr + 5)) codesLength .quadSingle
    Bus.issue (.store ramptr codes)
    let sha256SignFirmware ←
      flashReadData (u32 (flashAddr + 5 + codesLength)) flashSha256Len .quadSingle
    let hashed ← Bus.issue (.load ramptr codesLength)
    let sha256Sign := engines.sha.digest (u32 (codesLength + 5))
      [firmwareAesEnabled, lengthBytes, hashed]
    if sha256SignFirmware ≠ sha256Sign.bytes then
      pure (-exitReasonSha256Flash)
    else if firmwareAesEnabled.headD 0 &&& 1#8 = 1#8 then
      Bus.issue (.setOtpKeyOutput true)
      decipherLoop engines.aes (2 ^ 28) zeroIv ramptr codesLength
      Bus.issue (.setOtpKeyOutput false)
      pure 0
    else
      pure 0

/-! ### The comparison and the restore -/

/-- `memcmp`: the difference of the first bytes that differ. -/
def memcmp : List Byte → List Byte → Int
  | first :: rest, second :: rest' =>
      if first = second then memcmp rest rest' else (first.toNat : Int) - second.toNat
  | _, _ => 0

def flashImageCompare (flashAddr1 flashAddr2 : Nat) : Firmware Int := do
  let lengthBytes1 ← flashReadData (u32 (flashAddr1 + 1)) 4 .quadSingle
  let sha256Sign1 ←
    flashReadData (u32 (flashAddr1 + 5 + leNat lengthBytes1)) flashSha256Len .quadSingle
  let lengthBytes2 ← flashReadData (u32 (flashAddr2 + 1)) 4 .quadSingle
  let sha256Sign2 ←
    flashReadData (u32 (flashAddr2 + 5 + leNat lengthBytes2)) flashSha256Len .quadSingle
  pure (memcmp sha256Sign1 sha256Sign2)

def flashImageBackup (fromAddr toAddr ramptr : Nat) : Firmware Unit := do
  let firmwareAesEnabled ← flashReadData fromAddr 1 .quadSingle
  let lengthBytes ← flashReadData (u32 (fromAddr + 1)) 4 .quadSingle
  let codesLength := leNat lengthBytes
  let codes ← flashReadData (u32 (fromAddr + 1 + 4)) (u32 (codesLength + flashSha256Len))
    .quadSingle
  Bus.issue (.store ramptr codes)
  -- the result of the erase is not looked at
  let _ ← doFlashErase toAddr (u32 (1 + 4 + codesLength + flashSha256Len))
  let _ ← flashWriteData toAddr firmwareAesEnabled
  let _ ← flashWriteData (u32 (toAddr + 1)) lengthBytes
  let _ ← doFlashWrite (u32 (toAddr + 1 + 4)) (u32 (codesLength + flashSha256Len)) ramptr

def main (engines : Engines) (stage : Stage) : Firmware Exit := do
  let bakCheck ← flashImageCheck engines stage.flashBakAddr stage.boot stage.flashNextSize
  let appCheck ← flashImageCheck engines stage.flashAppAddr stage.boot stage.flashNextSize
  let different ← flashImageCompare stage.flashAppAddr stage.flashBakAddr
  if different ≠ 0 then
    if appCheck = 0 then
      flashImageBackup stage.flashAppAddr stage.flashBakAddr stage.boot
      pure .goBoot
    else if bakCheck = 0 then
      flashImageBackup stage.flashBakAddr stage.flashAppAddr stage.boot
      pure .goBoot
    else
      pure (.sysExit exitReasonAbnormal)
  else if appCheck ≠ 0 then
    pure (.sysExit exitReasonAbnormal)
  else
    pure .goBoot

end K210Guard
