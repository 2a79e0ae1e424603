/-
**The crypto engines the loader drives.**

The SHA engine is used through `sha256_init`, `sha256_update` and `sha256_final`, the AES engine
through `aes_process` on blocks of 16 bytes. `Engines` has what the loader sees of them.
`Engines.Computes` says that the SHA engine computes a hash function, whatever the pieces it is fed
with, and `AesEngine.decipher` is the plaintext of an encrypted payload.
-/

import K210Guard.Crypto.Cbc
import K210Guard.Crypto.Sha256

namespace K210Guard

/-- `FLASH_SHA256_LEN` -/
def flashSha256Len : Nat := 32

/-- The SHA driver: a context, its start for a total length, its step and its result. -/
structure ShaEngine where
  Context : Type
  sha256Init : Nat → Context
  sha256Update : Context → List Byte → Context
  sha256Final : Context → Digest

/-- The engine's result for some pieces of data and an announced total length. -/
def ShaEngine.digest (sha : ShaEngine) (total : Nat) (pieces : List (List Byte)) : Digest :=
  sha.sha256Final (pieces.foldl sha.sha256Update (sha.sha256Init total))

/-- The AES engine's block decryption, under the OTP key when the OTP key output is on and under
the key of zeros that `aes_init` is given when it is off. -/
structure AesEngine where
  decryptBlock : (otpKey : Bool) → List Byte → List Byte
  decryptBlock_length : ∀ otpKey block, block.length = 16 →
    (decryptBlock otpKey block).length = 16

structure Engines where
  sha : ShaEngine
  aes : AesEngine

/-- The SHA engine computes `hash`: fed with pieces of the announced length, it returns the hash of
the whole. -/
def Engines.Computes (engines : Engines) (hash : List Byte → Digest) : Prop :=
  ∀ pieces : List (List Byte),
    engines.sha.digest pieces.flatten.length pieces = hash pieces.flatten

/-- An engine that computes `hash`, by keeping what it is fed with. -/
def ShaEngine.ideal (hash : List Byte → Digest) : ShaEngine where
  Context := List Byte
  sha256Init _ := []
  sha256Update context data := context ++ data
  sha256Final context := hash context

theorem ShaEngine.ideal_computes (hash : List Byte → Digest) (aes : AesEngine) :
    Engines.Computes ⟨.ideal hash, aes⟩ hash := by
  intro pieces
  have fed (context : List Byte) :
      pieces.foldl (· ++ ·) context = context ++ pieces.flatten := by
    induction pieces generalizing context with
    | nil => exact (List.append_nil context).symm
    | cons piece rest ih => rw [List.foldl_cons, ih, List.flatten_cons, List.append_assoc]
  exact congrArg hash (fed [])

/-- A block cipher for examples: it inverts every bit. -/
def AesEngine.inverting : AesEngine where
  decryptBlock _ block := block.map (~~~·)
  decryptBlock_length _ _ length16 := by rw [List.length_map, length16]

/-- The engines of the examples. -/
def Engines.sample : Engines := ⟨.ideal sha256, .inverting⟩

theorem Engines.sample_computes : Engines.sample.Computes sha256 :=
  ShaEngine.ideal_computes sha256 .inverting

/-! ### The plaintext -/

/-- The initialization vector the loader uses. -/
def zeroIv : List Byte := List.replicate 16 0

/-- The plaintext of a payload under the OTP key. -/
def AesEngine.decipher (aes : AesEngine) (payload : List Byte) : List Byte :=
  cbcDecrypt (aes.decryptBlock true) (payload.length / 16) zeroIv payload

theorem AesEngine.decipher_length (aes : AesEngine) {payload : List Byte}
    (blocks : 16 ∣ payload.length) : (aes.decipher payload).length = payload.length := by
  have whole := Nat.mul_div_cancel' blocks
  rw [AesEngine.decipher, cbcDecrypt_length (aes.decryptBlock_length true) _ rfl whole.symm, whole]

end K210Guard
