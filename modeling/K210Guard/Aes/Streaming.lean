/-
**Streaming through the AES engine** (`drivers/aes.c`).

`streaming`: `aes_init` and `aes_process` for any size and mode. The engine gets the input and zeros
up to the unit of the mode, and its output is stored as one stretch of bytes; the boundaries between
chunks of 80 bytes leave no trace.
-/

import K210Guard.Aes.Chunk

namespace K210Guard

open Filter
open Prog (run Serves)

namespace Aes

variable {engine : Engine} {text : List Byte} {core : Core}

/-! ### `aes_process` -/

/-- Whole chunks in front do not change how the rest is rounded. -/
theorem rounded_add (cipherMod : AesCipherMod) {first : Nat} (whole : 80 ∣ first) (second : Nat) :
    cipherMod.rounded (first + second) = first + cipherMod.rounded second := by
  by_cases blocks : cipherMod.Blocks
  · rw [rounded_blocks blocks, rounded_blocks blocks]
    omega
  · rw [(not_blocks_iff cipherMod).mp blocks, rounded_gcm, rounded_gcm]
    omega

theorem outputSize_add (cipherMod : AesCipherMod) {first : Nat} (whole : 80 ∣ first)
    (second : Nat) :
    cipherMod.outputSize (first + second) = first + cipherMod.outputSize second := by
  rw [AesCipherMod.outputSize, AesCipherMod.outputSize, rounded_add cipherMod whole]
  split <;> rfl

theorem outputSize_whole (cipherMod : AesCipherMod) {size : Nat} (whole : 80 ∣ size) :
    cipherMod.outputSize size = size := by
  have none : cipherMod.outputSize 0 = 0 := by cases cipherMod <;> rfl
  exact (outputSize_add cipherMod whole 0).trans (by rw [none]; rfl)

theorem outputSize_bounds (cipherMod : AesCipherMod) (size : Nat) :
    size ≤ cipherMod.outputSize size ∧ cipherMod.outputSize size ≤ size + 15 := by
  rw [AesCipherMod.outputSize]
  by_cases blocks : cipherMod.Blocks
  · rw [if_pos blocks, rounded_blocks blocks]
    omega
  · rw [if_neg blocks]
    omega

theorem padded_append (cipherMod : AesCipherMod) {front : List Byte} (whole : 80 ∣ front.length)
    (rest : List Byte) :
    cipherMod.padded (front ++ rest) = front ++ cipherMod.padded rest := by
  rw [AesCipherMod.padded, AesCipherMod.padded, List.length_append, rounded_add cipherMod whole,
    List.append_assoc, Nat.add_sub_add_left]

theorem padded_whole (cipherMod : AesCipherMod) {bytes : List Byte} (whole : 80 ∣ bytes.length) :
    cipherMod.padded bytes = bytes := by
  have none : cipherMod.padded [] = [] := by cases cipherMod <;> rfl
  have split := padded_append cipherMod whole []
  rwa [none, List.append_nil] at split

/-- The output does not overwrite input that has not been read. -/
def Apart (aesInData aesOutData dataSize : Nat) : Prop :=
  aesOutData ≤ aesInData ∨ aesInData + dataSize ≤ aesOutData

/-- **Two pieces one after the other are one piece**, if the first one is of whole chunks. -/
theorem processed_processed {cipherMod : AesCipherMod} (aesOutData : Nat) {front words : List Word}
    {first second : Nat} (whole : 80 ∣ first) (size : 4 * front.length = first) :
    (core.processed engine cipherMod aesOutData first front).processed engine cipherMod
        (aesOutData + first) second words =
      core.processed engine cipherMod aesOutData (first + second) (front ++ words) := by
  have bytes : (wordBytes (engine.outputs core.taken front.length)).length = first := by
    rw [wordBytes_length, engine.outputs_length, size]
  have more := Core.stored_stored (core.wrote (front ++ words)) aesOutData
    (wordBytes (engine.outputs core.taken front.length))
    ((wordBytes (engine.outputs (core.taken + front.length) words.length)).take
      (cipherMod.outputSize second)) front.length words.length
  rw [bytes] at more
  rw [Core.processed, Core.processed, Core.processed, outputSize_whole cipherMod whole,
    outputSize_add cipherMod whole, List.length_append,
    engine.outputs_add, wordBytes_append, List.take_append, bytes, Nat.add_sub_cancel_left,
    List.take_of_length_le (bytes.trans_le (Nat.le_add_right _ _)), ← more,
    List.take_of_length_le bytes.le]
  simp [Core.wrote, Core.stored]

/-- One more chunk behind whole ones. -/
theorem chunk_does {aesInData aesOutData dataSize : Nat} (cipherMod : AesCipherMod)
    (level : core.taken = core.text.length) (apart : Apart aesInData aesOutData dataSize)
    {i size : Nat} (inside : 80 * i + size ≤ dataSize) (small : size ≤ 2 ^ 31) {front : List Word}
    (same : wordBytes front = readRange core.ram aesInData (80 * i))
    (room : wordBytes core.text ++
      cipherMod.padded (readRange core.ram aesInData (80 * i + size)) <+: text) :
    Does engine text (core.processed engine cipherMod aesOutData (80 * i) front)
      (aesProcessLess80Bytes (aesInData + i * 80) (aesOutData + i * 80) size cipherMod)
      fun _ after => ∃ words,
        wordBytes words = cipherMod.padded (readRange core.ram aesInData (80 * i + size)) ∧
          after = core.processed engine cipherMod aesOutData (80 * i + size) words := by
  have whole : 80 ∣ (readRange core.ram aesInData (80 * i)).length := by
    rw [readRange_length]
    exact Nat.dvd_mul_right 80 i
  have count : 4 * front.length = 80 * i := by
    rw [← wordBytes_length, same, readRange_length]
  have exact := outputSize_whole cipherMod (Nat.dvd_mul_right 80 i)
  have unread : readRange (core.processed engine cipherMod aesOutData (80 * i) front).ram
      (aesInData + i * 80) size = readRange core.ram (aesInData + 80 * i) size := by
    rw [Nat.mul_comm i 80, Core.processed, exact]
    show readRange (writeRange core.ram aesOutData _) _ _ = _
    refine readRange_writeRange_disjoint _ ?_
    rw [List.length_take, wordBytes_length, engine.outputs_length]
    rcases apart with below | above
    · exact Or.inr (by omega)
    · exact Or.inl (by omega)
  have split := padded_append cipherMod whole (readRange core.ram (aesInData + 80 * i) size)
  rw [← readRange_add] at split
  refine (aesProcessLess80Bytes_does (aesInData + i * 80) (aesOutData + i * 80) small cipherMod
    ?_ ?_).weaken ?_
  · show core.taken + front.length = (core.text ++ front).length
    rw [level, List.length_append]
  · rw [unread]
    show wordBytes (core.text ++ front) ++ _ <+: text
    rw [wordBytes_append, same, List.append_assoc, ← split]
    exact room
  · rintro _ _ ⟨words, last, rfl⟩
    refine ⟨front ++ words, ?_, ?_⟩
    · rw [wordBytes_append, same, last, unread, split]
    · rw [Nat.mul_comm i 80]
      exact processed_processed aesOutData (Nat.dvd_mul_right 80 i) count

/-- The chunks of 80 bytes. -/
theorem processChunks_does {aesInData aesOutData dataSize : Nat} (cipherMod : AesCipherMod)
    (level : core.taken = core.text.length) (apart : Apart aesInData aesOutData dataSize)
    (room : wordBytes core.text ++ readRange core.ram aesInData (80 * (dataSize / 80)) <+: text) :
    Does engine text core (processChunks aesInData aesOutData dataSize cipherMod)
      fun _ after => ∃ front,
        wordBytes front = readRange core.ram aesInData (80 * (dataSize / 80)) ∧
          after = core.processed engine cipherMod aesOutData (80 * (dataSize / 80)) front := by
  have fresh : core = core.processed engine cipherMod aesOutData (80 * 0) [] := by
    simp [Core.processed, Core.stored, Engine.outputs]
  unfold processChunks
  by_cases large : 80 ≤ dataSize
  · simp only [if_pos large]
    refine Does.forLoop (fun i after => ∃ front,
      wordBytes front = readRange core.ram aesInData (80 * i) ∧
        after = core.processed engine cipherMod aesOutData (80 * i) front) ?_ ⟨[], rfl, fresh⟩
    rintro i below _ ⟨front, same, rfl⟩
    have whole : cipherMod.padded (readRange core.ram aesInData (80 * i + 80)) =
        readRange core.ram aesInData (80 * i + 80) := by
      refine padded_whole cipherMod ?_
      rw [readRange_length]
      exact Nat.dvd_mul_right 80 (i + 1)
    have some : wordBytes core.text ++ readRange core.ram aesInData (80 * i + 80) <+: text :=
      ((List.prefix_append_right_inj _).mpr (readRange_begins _ _ (by omega))).trans room
    refine (chunk_does cipherMod level apart (by omega) (by decide) same ?_).bind ?_
    · rw [whole]
      exact some
    · rintro _ _ ⟨words, next, rfl⟩
      rw [whole] at next
      exact .pure ⟨words, next, rfl⟩
  · simp only [if_neg large]
    rw [Nat.div_eq_of_lt (by omega)]
    exact .pure ⟨[], rfl, fresh⟩

/-- **`aes_process`**: the boundaries of the chunks leave no trace. -/
theorem aesProcess_does {aesInData aesOutData dataSize : Nat} (cipherMod : AesCipherMod)
    (level : core.taken = core.text.length) (apart : Apart aesInData aesOutData dataSize)
    (room : wordBytes core.text ++ cipherMod.padded (readRange core.ram aesInData dataSize) <+:
      text) :
    Does engine text core (aesProcess aesInData aesOutData dataSize cipherMod) fun _ after =>
      ∃ words, wordBytes words = cipherMod.padded (readRange core.ram aesInData dataSize) ∧
        after = core.processed engine cipherMod aesOutData dataSize words := by
  have total : 80 * (dataSize / 80) + dataSize % 80 = dataSize := Nat.div_add_mod dataSize 80
  have begins : readRange core.ram aesInData (80 * (dataSize / 80)) <+:
      cipherMod.padded (readRange core.ram aesInData dataSize) :=
    (readRange_begins _ _ (by omega)).trans (List.prefix_append _ _)
  refine (processChunks_does cipherMod level apart
    (((List.prefix_append_right_inj _).mpr begins).trans room)).bind ?_
  rintro _ _ ⟨front, same, rfl⟩
  unfold processRest
  by_cases rest : dataSize % 80 = 0
  · simp only [if_neg (not_not.mpr rest)]
    rw [rest, Nat.add_zero] at total
    rw [total] at same ⊢
    have whole : cipherMod.padded (readRange core.ram aesInData dataSize) =
        readRange core.ram aesInData dataSize := by
      refine padded_whole cipherMod ?_
      rw [readRange_length]
      exact Nat.dvd_of_mod_eq_zero rest
    exact .pure ⟨front, same.trans whole.symm, rfl⟩
  · simp only [if_pos rest, Prog.bind_assoc]
    have small : dataSize % 80 < 80 := Nat.mod_lt _ (by decide)
    have some : wordBytes core.text ++ cipherMod.padded
        (readRange core.ram aesInData (80 * (dataSize / 80) + dataSize % 80)) <+: text := by
      rw [total]
      exact room
    refine (chunk_does cipherMod level apart total.le (by omega) same some).bind ?_
    rintro _ _ holds
    rw [total] at holds
    exact .pure holds

/-! ### `aes_init` -/

/-- No text has been written and no output read in between, and memory is as it was. -/
structure Core.Keeps (core after : Core) : Prop where
  text : after.text = core.text
  taken : after.taken = core.taken
  ram : after.ram = core.ram

theorem Core.Keeps.rfl : core.Keeps core := ⟨Eq.refl _, Eq.refl _, Eq.refl _⟩

theorem Core.Keeps.trans {middle after : Core} (first : core.Keeps middle)
    (second : middle.Keeps after) : core.Keeps after :=
  ⟨second.text.trans first.text, second.taken.trans first.taken, second.ram.trans first.ram⟩

/-- A register that holds what is written to it. -/
def Register.Plain (register : Register) : Prop :=
  register ≠ .aesTextData ∧ register ≠ .aesAadData

theorem write_plain {register : Register} (plain : register.Plain) (value : Word) :
    core.write register value =
      { core with registers := Function.update core.registers register value } := by
  cases register with
  | aesTextData => exact absurd rfl plain.1
  | aesAadData => exact absurd rfl plain.2
  | _ => rfl

theorem aesKey_plain (index : Nat) : (Register.aesKey index).Plain := ⟨nofun, nofun⟩

theorem aesIv_plain (index : Nat) : (Register.aesIv index).Plain := ⟨nofun, nofun⟩

theorem writeRegister_does {register : Register} (plain : register.Plain) (value : Word) :
    Does engine text core (fun _ => writeRegister register value) fun _ after =>
      after = { core with registers := Function.update core.registers register value } :=
  .perform (fun _ => congrArg (Prod.mk ()) (write_plain plain value)) (fun _ => rfl) rfl

theorem writeLowAligned_does {register : Nat → Register} (plain : ∀ i, (register i).Plain)
    (address length : Nat) (u8data : List Byte) :
    Does engine text core (fun _ => writeLowAligned register address length u8data)
      fun _ after => core.Keeps after := by
  unfold writeLowAligned
  refine (Does.forLoop (fun _ after => core.Keeps after) ?_ .rfl).bind ?_
  · rintro i _ middle keeps
    refine .andThen (fun _ => rfl) (fun _ => rfl) ((writeRegister_does (plain i) _).weaken ?_)
    rintro _ _ rfl
    exact ⟨keeps.text, keeps.taken, keeps.ram⟩
  · rintro _ middle keeps
    by_cases none : length % 4 = 0
    · simp only [if_neg (not_not.mpr none)]
      exact .pure keeps
    · simp only [if_pos none]
      refine (loadBytes_does address (length % 4)).bind ?_
      rintro bytes _ ⟨-, rfl⟩
      refine (writeRegister_does (plain _) _).bind ?_
      rintro _ _ rfl
      exact .pure ⟨keeps.text, keeps.taken, keeps.ram⟩

/-- One word of additional data. -/
theorem putAad_does (word : Word) (written : wordBytes core.text <+: text) :
    Does engine text core (fun polls => do
        waitFlag .dataInFlag polls ()
        aesWriteAad word)
      fun _ after => core.Keeps after ∧ after.registers = core.registers := by
  refine (Does.waitDataIn written).bind ?_
  rintro _ _ rfl
  exact .perform (fun _ => rfl) (fun _ => rfl) ⟨⟨rfl, rfl, rfl⟩, rfl⟩

theorem writeAllAad_does (aesAad addSize : Nat) (u8data : List Byte)
    (written : wordBytes core.text <+: text) :
    Does engine text core (fun polls => writeAllAad polls aesAad addSize u8data)
      fun _ after => core.Keeps after ∧ after.registers = core.registers := by
  unfold writeAllAad
  refine (Does.forLoop (fun _ after => core.Keeps after ∧ after.registers = core.registers) ?_
    ⟨.rfl, rfl⟩).bind ?_
  · rintro i _ middle ⟨keeps, same⟩
    refine .andThen (fun _ => rfl) (fun _ => rfl) ((putAad_does _ (keeps.text ▸ written)).weaken ?_)
    rintro _ after ⟨more, still⟩
    exact ⟨keeps.trans more, still.trans same⟩
  · rintro _ middle ⟨keeps, same⟩
    by_cases none : addSize % 4 = 0
    · simp only [if_neg (not_not.mpr none)]
      exact .pure ⟨keeps, same⟩
    · simp only [if_pos none]
      refine (loadBytes_does _ _).bind ?_
      rintro bytes _ ⟨-, rfl⟩
      refine (putAad_does _ (keeps.text ▸ written)).weaken ?_
      rintro _ after ⟨more, still⟩
      exact ⟨keeps.trans more, still.trans same⟩

/-- **`aes_init`** announces the size that `aes_process` will store. -/
theorem aesInit_does (arguments : InitArguments) (cipherMod : AesCipherMod) {dataSize : Nat}
    (positive : 1 ≤ dataSize) (small : dataSize ≤ 2 ^ 31)
    (written : wordBytes core.text <+: text) :
    Does engine text core (aesInit arguments cipherMod dataSize) fun _ after =>
      core.Keeps after ∧
        (after.registers .gbPcEndAdr).toNat + 1 = cipherMod.outputSize dataSize := by
  have size : (if cipherMod.Blocks then paddedSize dataSize else dataSize) =
      cipherMod.outputSize dataSize := by
    rw [AesCipherMod.outputSize]
    by_cases blocks : cipherMod.Blocks
    · rw [if_pos blocks, if_pos blocks, rounded_blocks blocks, paddedSize, u32,
        Nat.mod_eq_of_lt (by omega)]
    · rw [if_neg blocks, if_neg blocks]
  unfold aesInit
  rw [size]
  refine .andThen (fun _ => rfl) (fun _ => rfl) (.andThen (fun _ => rfl) (fun _ => rfl) ?_)
  refine (writeLowAligned_does aesKey_plain _ _ _).bind ?_
  rintro u8data first keeps
  refine (writeLowAligned_does aesIv_plain _ _ _).bind ?_
  rintro u8data second more
  have kept := keeps.trans more
  refine .andThen (fun _ => rfl) (fun _ => rfl) (.andThen (fun _ => rfl) (fun _ => rfl) ?_)
  refine .andThen (fun _ => rfl) (fun _ => rfl) (.andThen (fun _ => rfl) (fun _ => rfl) ?_)
  refine .andThen (fun _ => rfl) (fun _ => rfl) (.andThen (fun _ => rfl) (fun _ => rfl) ?_)
  generalize reached : Core.write _ .gbAesEn _ = ready
  have ends : core.Keeps ready := by
    rw [← reached]
    exact ⟨kept.text, kept.taken, kept.ram⟩
  have announced : (ready.registers .gbPcEndAdr).toNat + 1 = cipherMod.outputSize dataSize := by
    rw [← reached]
    show (BitVec.ofNat 32 (cipherMod.outputSize dataSize) - 1).toNat + 1 = _
    obtain ⟨low, high⟩ := outputSize_bounds cipherMod dataSize
    have exact : (BitVec.ofNat 32 (cipherMod.outputSize dataSize)).toNat =
        cipherMod.outputSize dataSize := Nat.mod_eq_of_lt (by omega)
    rw [BitVec.toNat_sub_of_le, exact]
    · show _ - 1 + 1 = _
      omega
    · rw [BitVec.le_def, exact]
      exact positive.trans low
  by_cases gcm : cipherMod = .gcm
  · simp only [if_pos gcm]
    refine (writeAllAad_does _ _ _ (ends.text ▸ written)).bind ?_
    rintro _ after ⟨last, same⟩
    exact .pure ⟨ends.trans last, same ▸ announced⟩
  · simp only [if_neg gcm]
    exact .pure ⟨ends, announced⟩

/-! ### Both, one after the other -/

/-- An engine that has taken nothing in yet. -/
def Machine.start (registers : Register → Word) (ram : Nat → Byte) (clock : Nat) : Machine where
  core := { registers := registers, text := [], aad := [], taken := 0, ram := ram }
  clock := clock
  waits := []

/-- `aes_init` and then `aes_process` with the same mode and size. -/
def initAndProcess (arguments : InitArguments) (cipherMod : AesCipherMod)
    (aesInData aesOutData dataSize polls : Nat) : Program Int := do
  let _ ← aesInit arguments cipherMod dataSize polls
  aesProcess aesInData aesOutData dataSize cipherMod polls

/-- What `aes_process` leaves: the padded input has been written, and as many words have been read
as written; the output is in one stretch at the output address, as many bytes as `gb_pc_end_adr`
announced. -/
structure Streamed (engine : Engine) (cipherMod : AesCipherMod) (ram : Nat → Byte)
    (aesInData aesOutData dataSize : Nat) (core : Core) : Prop where
  text : wordBytes core.text = cipherMod.padded (readRange ram aesInData dataSize)
  taken : core.taken = core.text.length
  ram : core.ram = writeRange ram aesOutData
    ((wordBytes (engine.outputs 0 core.taken)).take (cipherMod.outputSize dataSize))
  announced : (core.registers .gbPcEndAdr).toNat + 1 = cipherMod.outputSize dataSize

theorem initAndProcess_does (engine : Engine) (core : Core) (arguments : InitArguments)
    (cipherMod : AesCipherMod) {aesInData aesOutData dataSize : Nat} (positive : 1 ≤ dataSize)
    (small : dataSize ≤ 2 ^ 31) (apart : Apart aesInData aesOutData dataSize)
    (text : core.text = []) (taken : core.taken = 0) :
    Does engine (cipherMod.padded (readRange core.ram aesInData dataSize)) core
      (initAndProcess arguments cipherMod aesInData aesOutData dataSize)
      fun _ after => Streamed engine cipherMod core.ram aesInData aesOutData dataSize after := by
  refine (aesInit_does arguments cipherMod positive small ?_).bind ?_
  · rw [text]
    exact List.nil_prefix
  rintro _ ready ⟨keeps, announced⟩
  have none : ready.text = [] := keeps.text.trans text
  have zero : ready.taken = 0 := keeps.taken.trans taken
  refine (aesProcess_does cipherMod ?_ apart ?_).weaken ?_
  · rw [zero, none]
    rfl
  · rw [none, keeps.ram]
    exact List.prefix_rfl
  · rintro _ _ ⟨words, bytes, rfl⟩
    have written : (ready.processed engine cipherMod aesOutData dataSize words).text = words := by
      show ready.text ++ words = words
      rw [none, List.nil_append]
    have read : (ready.processed engine cipherMod aesOutData dataSize words).taken =
        words.length := by
      show ready.taken + words.length = words.length
      rw [zero, Nat.zero_add]
    refine ⟨?_, ?_, ?_, announced⟩
    · rw [written, bytes, keeps.ram]
    · rw [read, written]
    · rw [read]
      show writeRange ready.ram aesOutData
        ((wordBytes (engine.outputs ready.taken words.length)).take _) = _
      rw [keeps.ram, zero]

/-- **Streaming**: whatever the flags do, no look at `data_out_flag` is in vain and the text written
so far is a prefix of the padded input; when the two functions return, all of it has been written
and all of the output stored; and with flags that are raised again and again they return. -/
theorem streaming (engine : Engine) (arguments : InitArguments) (cipherMod : AesCipherMod)
    (registers : Register → Word) (ram : Nat → Byte) (clock aesInData aesOutData dataSize : Nat)
    (positive : 1 ≤ dataSize) (small : dataSize ≤ 2 ^ 31)
    (apart : Apart aesInData aesOutData dataSize) :
    let outcome polls := run (Machine.step engine)
      (initAndProcess arguments cipherMod aesInData aesOutData dataSize polls)
      (Machine.start registers ram clock)
    (∀ polls, Streaming (cipherMod.padded (readRange ram aesInData dataSize)) (outcome polls).2) ∧
      (∀ polls value t, outcome polls = (some value, t) →
        Streamed engine cipherMod ram aesInData aesOutData dataSize t.core) ∧
      (engine.Fair → ∀ᶠ polls in atTop, (outcome polls).1.isSome = true) := by
  intro outcome
  have serves := initAndProcess_does engine (Machine.start registers ram clock).core arguments
    cipherMod positive small apart rfl rfl (Machine.start registers ram clock) rfl nofun
  refine ⟨serves.at_end (fun _ safe => safe) ?_, ?_, serves.returns⟩
  · rintro _ t ⟨owed, streamed⟩
    exact ⟨owed, streamed.text ▸ List.prefix_rfl⟩
  · intro polls value t ran
    exact (serves.of_returned polls value t ran).2

/-- An engine that is always ready. -/
def readyEngine : Engine where
  dataInFlag _ := 1
  dataOutFlag _ := 1
  output n := BitVec.ofNat 32 n

theorem readyEngine_fair : readyEngine.Fair where
  dataIn := Frequently.of_forall fun _ => (by decide : (1 : Word) ≠ 0)
  dataOut := Frequently.of_forall fun _ => (by decide : (1 : Word) ≠ 0)

/-- 90 bytes in CBC mode, in place. -/
theorem streaming_inPlace :
    let outcome polls := run (Machine.step readyEngine)
      (initAndProcess ⟨0x100, 16, 0x200, 16, 0, 1, 0⟩ .cbc 0x8000 0x8000 90 polls)
      (Machine.start (fun _ => 0) (fun address => BitVec.ofNat 8 address) 0)
    readyEngine.Fair ∧
      (∀ polls, (outcome polls).2.Owed) ∧
      (∀ polls value t, outcome polls = (some value, t) →
        Streamed readyEngine .cbc (fun address => BitVec.ofNat 8 address) 0x8000 0x8000 90 t.core) ∧
      ∀ᶠ polls in atTop, (outcome polls).1.isSome = true := by
  have all := streaming readyEngine ⟨0x100, 16, 0x200, 16, 0, 1, 0⟩ .cbc (fun _ => 0)
    (fun address => BitVec.ofNat 8 address) 0 0x8000 0x8000 90 (by decide) (by decide)
    (Or.inl le_rfl)
  exact ⟨readyEngine_fair, fun polls => (all.1 polls).owed, all.2.1, all.2.2 readyEngine_fair⟩

end Aes

end K210Guard
