/-
**One chunk of the AES driver** (`drivers/aes.c`).

`aesProcessLess80Bytes_does`: the chunk's bytes go to the engine as words, followed by zeros up to
the unit of the mode, and as many words come back and are stored at the output address, one after
the other; in GCM only the bytes of the chunk are stored.
-/

import K210Guard.Aes.Words

namespace K210Guard

namespace Aes

variable {engine : Engine} {text : List Byte} {core : Core}

/-! ### What the parts do to the core -/

/-- More text has been written. -/
def Core.wrote (core : Core) (words : List Word) : Core := { core with text := core.text ++ words }

/-- `count` words of output have been read and these bytes stored. -/
def Core.stored (core : Core) (address : Nat) (bytes : List Byte) (count : Nat) : Core :=
  { core with taken := core.taken + count, ram := writeRange core.ram address bytes }

@[simp] theorem Core.wrote_nil : core.wrote [] = core := by simp [Core.wrote]

@[simp] theorem Core.wrote_wrote (first second : List Word) :
    (core.wrote first).wrote second = core.wrote (first ++ second) := by
  simp [Core.wrote]

theorem Core.stored_stored (core : Core) (address : Nat) (first second : List Byte)
    (count more : Nat) :
    (core.stored address first count).stored (address + first.length) second more =
      core.stored address (first ++ second) (count + more) := by
  rw [Core.stored, Core.stored, Core.stored, writeRange_append, Nat.add_assoc]

/-! ### Bytes -/

/-- The bytes from an address, in front of some others. -/
theorem loadBytes_does (address count : Nat) :
    Does engine text core (fun _ => loadBytes address count) fun bytes after =>
      bytes = readRange core.ram address count ∧ after = core := by
  induction count generalizing address with
  | zero => exact .pure ⟨rfl, rfl⟩
  | succ count ih =>
      refine Does.andThen (fun _ => rfl) (fun _ => rfl) ((ih (address + 1)).bind ?_)
      rintro _ _ ⟨rfl, rfl⟩
      exact .pure ⟨(readRange_succ _ _ _).symm, rfl⟩

theorem storeBytes_does (address : Nat) (bytes : List Byte) :
    Does engine text core (fun _ => storeBytes address bytes) fun _ after =>
      after = core.stored address bytes 0 := by
  induction bytes generalizing address core with
  | nil => exact .pure (by simp [Core.stored])
  | cons byte rest ih =>
      refine Does.andThen (fun _ => rfl) (fun _ => rfl) ((ih (address + 1)).weaken ?_)
      rintro _ _ rfl
      exact Core.stored_stored core address [byte] rest 0 0

/-! ### Units -/

/-- The number of bytes a mode works on at a time. -/
def AesCipherMod.unit (cipherMod : AesCipherMod) : Nat := if cipherMod.Blocks then 16 else 4

/-- A size rounded up to whole units. -/
def AesCipherMod.rounded (cipherMod : AesCipherMod) (size : Nat) : Nat :=
  (size + (cipherMod.unit - 1)) / cipherMod.unit * cipherMod.unit

/-- Bytes with zeros behind them, up to whole units. -/
def AesCipherMod.padded (cipherMod : AesCipherMod) (bytes : List Byte) : List Byte :=
  bytes ++ List.replicate (cipherMod.rounded bytes.length - bytes.length) 0

/-- How many bytes of output are stored: all of them, or in GCM as many as came in. -/
def AesCipherMod.outputSize (cipherMod : AesCipherMod) (size : Nat) : Nat :=
  if cipherMod.Blocks then cipherMod.rounded size else size

theorem rounded_blocks {cipherMod : AesCipherMod} (blocks : cipherMod.Blocks) (size : Nat) :
    cipherMod.rounded size = (size + 15) / 16 * 16 := by
  rw [AesCipherMod.rounded, AesCipherMod.unit, if_pos blocks]

theorem rounded_gcm (size : Nat) : AesCipherMod.gcm.rounded size = (size + 3) / 4 * 4 := rfl

theorem not_blocks_iff (cipherMod : AesCipherMod) : ¬ cipherMod.Blocks ↔ cipherMod = .gcm := by
  cases cipherMod <;> decide

/-- The zeros behind the last word in ECB and CBC. -/
def AesCipherMod.filling (cipherMod : AesCipherMod) (size : Nat) : List Byte :=
  if cipherMod.Blocks then List.replicate (4 * (((size + 15) / 16 * 16 - size) / 4)) 0 else []

/-! ### Writing text -/

theorem putText_does (word : Word) (room : wordBytes core.text <+: text) :
    Does engine text core (fun polls => putText polls word) fun _ after =>
      after = core.wrote [word] := by
  refine (Does.waitDataIn room).bind ?_
  rintro _ _ rfl
  exact .perform (fun _ => rfl) (fun _ => rfl) rfl

/-- Some words of text, each of which is what it has to be. -/
theorem putWords_does {body : Nat → Nat → Program Unit} (bytes : Nat → List Byte) {count : Nat}
    (each : ∀ i < count, ∀ words, wordBytes words = bytes i →
      Does engine text (core.wrote words) (fun polls => body polls i) fun _ after =>
        ∃ word, bytes (i + 1) = bytes i ++ wordBytes [word] ∧
          after = (core.wrote words).wrote [word])
    (first : bytes 0 = []) :
    Does engine text core (fun polls => Prog.forLoop (body polls) 0 count) fun _ after =>
      ∃ words, wordBytes words = bytes count ∧ after = core.wrote words := by
  refine Does.forLoop (fun i after => ∃ words, wordBytes words = bytes i ∧
    after = core.wrote words) ?_ ⟨[], by rw [first]; rfl, by simp⟩
  rintro i below _ ⟨words, same, rfl⟩
  refine (each i below words same).weaken ?_
  rintro _ _ ⟨word, next, rfl⟩
  exact ⟨words ++ [word], by rw [wordBytes_append, same, next], by simp⟩

/-- A part of the text that is still to be written leaves room for its own beginnings. -/
theorem room_of_begins {words : List Word} {part whole : List Byte}
    (room : wordBytes core.text ++ whole <+: text) (same : wordBytes words = part)
    (begins : part <+: whole) : wordBytes (core.wrote words).text <+: text := by
  show wordBytes (core.text ++ words) <+: text
  rw [wordBytes_append, same]
  exact ((List.prefix_append_right_inj _).mpr begins).trans room

theorem readRange_begins (ram : Nat → Byte) (address : Nat) {count total : Nat}
    (most : count ≤ total) : readRange ram address count <+: readRange ram address total := by
  obtain ⟨more, rfl⟩ := Nat.exists_eq_add_of_le most
  exact ⟨_, (readRange_add ram address count more).symm⟩

/-- The whole words of the input. -/
theorem writeWords_does (aesInData num : Nat)
    (room : wordBytes core.text ++ readRange core.ram aesInData (4 * num) <+: text) :
    Does engine text core (fun polls => writeWords polls aesInData num) fun _ after =>
      ∃ words, wordBytes words = readRange core.ram aesInData (4 * num) ∧
        after = core.wrote words := by
  refine putWords_does (fun i => readRange core.ram aesInData (4 * i)) ?_ rfl
  intro i below words same
  have begun := room_of_begins room same (readRange_begins _ _ (by omega))
  refine Does.andThen (fun _ => rfl) (fun _ => rfl) ((putText_does _ begun).weaken ?_)
  rintro _ _ rfl
  refine ⟨_, ?_, rfl⟩
  rw [Nat.mul_succ, readRange_add, wordBytes_wordAt, Nat.mul_comm i 4]
  rfl

/-- The bytes that are left over, with zeros behind them. -/
theorem writeRemainder_does (aesInData cnt : Nat) {remainder : Nat} (short : remainder < 4)
    (room : wordBytes core.text <+: text) :
    Does engine text core (fun polls => writeRemainder polls aesInData cnt remainder)
      fun _ after => ∃ words, wordBytes words =
          readRange core.ram (aesInData + cnt) remainder ++
            List.replicate ((4 - remainder) % 4) 0 ∧
        after = core.wrote words := by
  unfold writeRemainder
  by_cases none : remainder = 0
  · subst none
    exact .pure ⟨[], rfl, by simp⟩
  · simp only [if_pos none]
    refine (loadBytes_does (aesInData + cnt) remainder).bind ?_
    rintro _ _ ⟨rfl, rfl⟩
    refine (putText_does _ room).weaken ?_
    rintro _ _ rfl
    refine ⟨_, ?_, rfl⟩
    have zeros : [0, 0, 0, 0].drop remainder = List.replicate ((4 - remainder) % 4) (0 : Byte) := by
      rw [show ([0, 0, 0, 0] : List Byte) = List.replicate 4 0 from rfl, List.drop_replicate,
        Nat.mod_eq_of_lt (by omega)]
    rw [wordOf, setBytes, readRange_length, wordBytes_singleton, zeros]
    rw [List.length_append, readRange_length, List.length_drop]
    simp
    omega

/-- In ECB and CBC the block is filled up; what is left to say is how many words will be whole. -/
theorem fillBlock_does {size : Nat} (small : size ≤ 2 ^ 31) (cipherMod : AesCipherMod)
    (room : wordBytes core.text ++ cipherMod.filling size <+: text) :
    Does engine text core (fun polls => fillBlock polls size cipherMod) fun num after =>
      num = cipherMod.outputSize size / 4 ∧
        ∃ words, wordBytes words = cipherMod.filling size ∧ after = core.wrote words := by
  have exact : paddedSize size = (size + 15) / 16 * 16 := by
    rw [paddedSize, u32, Nat.mod_eq_of_lt (by omega)]
  unfold fillBlock
  by_cases blocks : cipherMod.Blocks
  · rw [AesCipherMod.filling, if_pos blocks] at room
    simp only [if_pos blocks, exact, AesCipherMod.filling, AesCipherMod.outputSize,
      rounded_blocks blocks]
    obtain ⟨count, fills⟩ : ∃ count, ((size + 15) / 16 * 16 - size) / 4 = count := ⟨_, rfl⟩
    rw [fills] at room ⊢
    refine (putWords_does (fun i => List.replicate (4 * i) 0) ?_ rfl).bind ?_
    · intro i below words same
      have begun : wordBytes (core.wrote words).text <+: text := by
        refine room_of_begins room same ⟨List.replicate (4 * (count - i)) 0, ?_⟩
        rw [← List.replicate_add]
        congr 1
        omega
      refine (putText_does 0 begun).weaken ?_
      rintro _ _ rfl
      exact ⟨0, by rw [Nat.mul_succ, List.replicate_add]; rfl, rfl⟩
    · rintro _ _ ⟨words, same, rfl⟩
      exact .pure ⟨rfl, words, same, rfl⟩
  · simp only [if_neg blocks, AesCipherMod.filling, AesCipherMod.outputSize]
    exact .pure ⟨rfl, [], rfl, by simp⟩

/-! ### Reading output -/

theorem getOutput_does (owes : core.taken < core.text.length)
    (written : wordBytes core.text <+: text) :
    Does engine text core (fun polls => getOutput polls) fun word after =>
      word = engine.output core.taken ∧ after = { core with taken := core.taken + 1 } := by
  refine (Does.waitDataOut owes written).bind ?_
  rintro _ _ rfl
  exact .perform (fun _ => rfl) (fun _ => rfl) ⟨rfl, rfl⟩

theorem wordBytes_outputs_succ (start count : Nat) :
    wordBytes (engine.outputs start (count + 1)) =
      wordBytes (engine.outputs start count) ++
        leBytes 4 (engine.output (start + count)).toNat := by
  rw [engine.outputs_add, wordBytes_append]
  simp [Engine.outputs, wordBytes]

theorem readWords_does (aesOutData num : Nat) (owes : core.taken + num ≤ core.text.length)
    (written : wordBytes core.text <+: text) :
    Does engine text core (fun polls => readWords polls aesOutData num) fun _ after =>
      after = core.stored aesOutData (wordBytes (engine.outputs core.taken num)) num := by
  refine Does.forLoop (fun i after =>
    after = core.stored aesOutData (wordBytes (engine.outputs core.taken i)) i) ?_
    (by simp [Core.stored, Engine.outputs])
  rintro i below _ rfl
  obtain ⟨middle, reached⟩ : ∃ middle, core.stored aesOutData
    (wordBytes (engine.outputs core.taken i)) i = middle := ⟨_, rfl⟩
  have owed : middle.taken < middle.text.length := by
    rw [← reached]
    show core.taken + i < core.text.length
    omega
  rw [reached]
  refine (getOutput_does owed (reached ▸ written)).bind ?_
  rintro _ _ ⟨rfl, rfl⟩
  subst reached
  refine .perform (fun _ => rfl) (fun _ => rfl) ?_
  have more := Core.stored_stored core aesOutData
    (wordBytes (engine.outputs core.taken i))
    (leBytes 4 (engine.output (core.taken + i)).toNat) i 1
  rw [← wordBytes_outputs_succ, wordBytes_length, engine.outputs_length, Nat.mul_comm 4 i] at more
  exact more

theorem readRemainder_does (aesOutData : Nat) {num remainder : Nat} {cipherMod : AesCipherMod}
    (gcm : cipherMod = .gcm ∧ remainder ≠ 0) (owes : core.taken + num < core.text.length)
    (written : wordBytes core.text <+: text) :
    Does engine text
      (core.stored aesOutData (wordBytes (engine.outputs core.taken num)) num)
      (fun polls => readRemainder polls aesOutData num remainder cipherMod) fun _ after =>
        after = core.stored aesOutData
          ((wordBytes (engine.outputs core.taken (num + 1))).take (4 * num + remainder))
          (num + 1) := by
  unfold readRemainder
  simp only [if_pos gcm]
  obtain ⟨middle, reached⟩ : ∃ middle, core.stored aesOutData
    (wordBytes (engine.outputs core.taken num)) num = middle := ⟨_, rfl⟩
  have owed : middle.taken < middle.text.length := reached ▸ owes
  rw [reached]
  refine (getOutput_does owed (reached ▸ written)).bind ?_
  rintro _ _ ⟨rfl, rfl⟩
  subst reached
  refine (storeBytes_does _ _).weaken ?_
  rintro _ _ rfl
  have size : (wordBytes (engine.outputs core.taken num)).length = 4 * num := by simp
  have more := Core.stored_stored core aesOutData (wordBytes (engine.outputs core.taken num))
    ((leBytes 4 (engine.output (core.taken + num)).toNat).take remainder) num 1
  rw [wordBytes_outputs_succ, List.take_append, size, Nat.add_sub_cancel_left,
    List.take_of_length_le (size.trans_le (Nat.le_add_right _ _)), ← more, size,
    Nat.mul_comm 4 num]
  rfl

/-! ### The chunk -/

/-- The core after a piece of input has gone through. -/
def Core.processed (engine : Engine) (core : Core) (cipherMod : AesCipherMod) (aesOutData : Nat)
    (size : Nat) (words : List Word) : Core :=
  (core.wrote words).stored aesOutData
    ((wordBytes (engine.outputs core.taken words.length)).take (cipherMod.outputSize size))
    words.length

/-- The bytes of a chunk, in the pieces in which the driver writes them. -/
theorem padded_eq (cipherMod : AesCipherMod) (ram : Nat → Byte) (address size : Nat) :
    cipherMod.padded (readRange ram address size) =
      readRange ram address (4 * (size / 4)) ++
        (readRange ram (address + 4 * (size / 4)) (size % 4) ++
          List.replicate ((4 - size % 4) % 4) 0) ++
        cipherMod.filling size := by
  have whole : readRange ram address size =
      readRange ram address (4 * (size / 4)) ++
        readRange ram (address + 4 * (size / 4)) (size % 4) := by
    rw [← readRange_add, Nat.div_add_mod]
  rw [AesCipherMod.padded, readRange_length, whole, List.append_assoc, List.append_assoc,
    List.append_assoc]
  congr 2
  by_cases blocks : cipherMod.Blocks
  · rw [AesCipherMod.filling, if_pos blocks, rounded_blocks blocks, ← List.replicate_add]
    congr 1
    omega
  · rw [AesCipherMod.filling, if_neg blocks, (not_blocks_iff cipherMod).mp blocks, rounded_gcm,
      List.append_nil]
    congr 1
    omega

/-- The number of words of a padded piece. -/
theorem words_length {cipherMod : AesCipherMod} {words : List Word} {bytes : List Byte}
    (same : wordBytes words = cipherMod.padded bytes) :
    4 * words.length = bytes.length + (cipherMod.rounded bytes.length - bytes.length) := by
  rw [← wordBytes_length, same, AesCipherMod.padded, List.length_append, List.length_replicate]

/-- The words that are read back are those of the output, and a last one in GCM. -/
theorem words_split {cipherMod : AesCipherMod} {words : List Word} {bytes : List Byte}
    (same : wordBytes words = cipherMod.padded bytes) :
    (words.length = cipherMod.outputSize bytes.length / 4 ∧
        cipherMod.outputSize bytes.length = 4 * words.length ∧
        ¬ (cipherMod = .gcm ∧ bytes.length % 4 ≠ 0)) ∨
      words.length = cipherMod.outputSize bytes.length / 4 + 1 ∧
        cipherMod.outputSize bytes.length =
          4 * (cipherMod.outputSize bytes.length / 4) + bytes.length % 4 ∧
        cipherMod = .gcm ∧ bytes.length % 4 ≠ 0 := by
  have count := words_length same
  by_cases blocks : cipherMod.Blocks
  · have other : cipherMod ≠ .gcm := fun gcm => (not_blocks_iff cipherMod).mpr gcm blocks
    rw [rounded_blocks blocks] at count
    rw [AesCipherMod.outputSize, if_pos blocks, rounded_blocks blocks]
    exact Or.inl ⟨by omega, by omega, fun both => other both.1⟩
  · obtain rfl := (not_blocks_iff cipherMod).mp blocks
    rw [rounded_gcm] at count
    rw [AesCipherMod.outputSize, if_neg blocks]
    by_cases none : bytes.length % 4 = 0
    · exact Or.inl ⟨by omega, by omega, fun both => both.2 none⟩
    · exact Or.inr ⟨by omega, (Nat.div_add_mod _ 4).symm, rfl, none⟩

/-- The output of a piece is read back and stored. -/
theorem readBack_does (engine : Engine) {cipherMod : AesCipherMod} (aesOutData : Nat)
    {bytes : List Byte} {words : List Word} (level : core.taken = core.text.length)
    (same : wordBytes words = cipherMod.padded bytes)
    (room : wordBytes core.text ++ cipherMod.padded bytes <+: text) :
    Does engine text (core.wrote words)
      (fun polls => do
        readWords polls aesOutData (cipherMod.outputSize bytes.length / 4)
        readRemainder polls aesOutData (cipherMod.outputSize bytes.length / 4) (bytes.length % 4)
          cipherMod
        pure (1 : Int))
      fun _ after => after = core.processed engine cipherMod aesOutData bytes.length words := by
  have written : wordBytes (core.wrote words).text <+: text := by
    show wordBytes (core.text ++ words) <+: text
    rw [wordBytes_append, same]
    exact room
  have owes : (core.wrote words).text.length = (core.wrote words).taken + words.length := by
    show (core.text ++ words).length = core.taken + _
    rw [List.length_append, level]
  rcases words_split same with ⟨count, total, all⟩ | ⟨count, total, gcm⟩
  · refine (readWords_does aesOutData _ (by omega) written).bind ?_
    rintro _ _ rfl
    simp only [readRemainder, if_neg all]
    refine .pure ?_
    rw [Core.processed, ← count, total, List.take_of_length_le (by simp)]
    rfl
  · refine (readWords_does aesOutData _ (by omega) written).bind ?_
    rintro _ _ rfl
    refine (readRemainder_does aesOutData gcm (by omega) written).bind ?_
    rintro _ _ rfl
    refine .pure ?_
    rw [Core.processed, count, ← total]
    rfl

/-- **`aes_process_less_80_bytes`**: a piece of the input goes through the engine. -/
theorem aesProcessLess80Bytes_does (aesInData aesOutData : Nat) {size : Nat}
    (small : size ≤ 2 ^ 31) (cipherMod : AesCipherMod) (level : core.taken = core.text.length)
    (room : wordBytes core.text ++ cipherMod.padded (readRange core.ram aesInData size) <+: text) :
    Does engine text core (aesProcessLess80Bytes aesInData aesOutData size cipherMod)
      fun _ after =>
        ∃ words, wordBytes words = cipherMod.padded (readRange core.ram aesInData size) ∧
          after = core.processed engine cipherMod aesOutData size words := by
  have pieces := padded_eq cipherMod core.ram aesInData size
  have first := room
  rw [pieces, List.append_assoc, ← List.append_assoc] at first
  refine (writeWords_does aesInData (size / 4) ((List.prefix_append _ _).trans first)).bind ?_
  rintro _ _ ⟨whole, same, rfl⟩
  refine (writeRemainder_does aesInData (4 * (size / 4)) (Nat.mod_lt size (by decide)) ?_).bind ?_
  · show wordBytes (core.text ++ whole) <+: text
    rw [wordBytes_append, same]
    exact (List.prefix_append _ _).trans first
  rintro _ _ ⟨rest, same', rfl⟩
  change wordBytes rest = readRange core.ram _ _ ++ _ at same'
  rw [Core.wrote_wrote]
  rw [← same, ← same', ← wordBytes_append] at pieces
  refine (fillBlock_does small cipherMod ?_).bind ?_
  · show wordBytes (core.text ++ (whole ++ rest)) ++ _ <+: text
    rw [wordBytes_append, List.append_assoc, ← pieces]
    exact room
  rintro _ _ ⟨rfl, zeros, filled, rfl⟩
  rw [Core.wrote_wrote]
  have all : wordBytes (whole ++ rest ++ zeros) =
      cipherMod.padded (readRange core.ram aesInData size) := by
    rw [wordBytes_append, filled, pieces]
  have readBack := readBack_does engine aesOutData level all room
  rw [readRange_length] at readBack
  refine readBack.weaken ?_
  rintro _ _ rfl
  exact ⟨_, all, rfl⟩

end Aes

end K210Guard
