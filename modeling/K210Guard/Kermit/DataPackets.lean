/-
**Data packets into memory** (`k_data_init`, `k_data_save`, `k_data_char` and the packets that
`k_recv` passes to them).

* `kDataChars_wrote` — an encoded file, cut into any pieces with a checkpoint before each, is
  written from `bin_start_address` on, and nothing else is.
* `Unquotes.dataPackets` — accepted data packets unquote their data into memory.
* `dataPackets_unquote` — so a file arrives wherever its stream is cut, also between a quote and the
  character it quotes.
-/

import K210Guard.Kermit.ReceiverSpec

namespace K210Guard

namespace KRecv

/-! ### The data functions -/

/-- `k_data_init`, with `bin_data_init` -/
def kDataInit (s : KRecv) : KRecv := { s with data := ⟨s.binStartAddress, false⟩ }

/-- `k_data_save`, with `os_data_save` -/
def kDataSave (s : KRecv) : KRecv := { s with dataSaved := s.data }

/-- A run of data characters. -/
def kDataChars (s : KRecv) (chars : List Byte) : KRecv := chars.foldl kDataChar s

/-- A file has been written from `bin_start_address` on, and nothing else. -/
structure Wrote (before after : KRecv) (file : List Byte) : Prop where
  data : after.data = ⟨before.binStartAddress + file.length, false⟩
  written : ∀ i (bound : i < file.length), after.ram (before.binStartAddress + i) = file[i]
  untouched : ∀ x, x < before.binStartAddress ∨ before.binStartAddress + file.length ≤ x →
    after.ram x = before.ram x

/-! ### What the characters write -/

/-- The memory after some bytes have been unquoted into it. -/
structure Unquotes (start : Nat) (ram : Nat → Byte) (out : Unquoted) (s : KRecv) : Prop where
  data : s.data = cursor start out
  ram : s.ram = writeRange ram start out.1

variable {start : Nat} {ram : Nat → Byte} {out : Unquoted} {s : KRecv}

/-- The next byte goes behind those that are there. -/
theorem Unquotes.osDataChar (unquotes : Unquotes start ram out s) (c : Byte) :
    Unquotes start ram (out.1 ++ [c], out.2) (s.osDataChar c) := by
  constructor
  · show Cursor.mk (s.data.addr + 1) s.data.escape = _
    rw [unquotes.data, cursor, cursor, List.length_append, List.length_singleton, Nat.add_assoc]
  · show Function.update s.ram s.data.addr c = _
    rw [unquotes.data, unquotes.ram, writeRange_append]
    funext x
    by_cases here : x = start + out.1.length
    · rw [here, cursor, Function.update_self, writeRange_inside _ (Nat.le_refl _) (by simp)]
      simp
    · rw [cursor, Function.update_of_ne here]
      exact (writeRange_outside _ (by rw [List.length_singleton]; omega)).symm

/-- **One data character.** -/
theorem Unquotes.kDataChar (unquotes : Unquotes start ram out s) (c : Byte) :
    Unquotes start ram (unquoteChar s.hisQuote out c) (s.kDataChar c) := by
  have pending : s.data.escape = out.2 := by rw [unquotes.data]; rfl
  unfold KRecv.kDataChar unquoteChar
  rw [pending]
  split
  · have stored := unquotes.osDataChar (ktrans c)
    refine ⟨?_, stored.ram⟩
    show Cursor.mk (s.osDataChar (ktrans c)).data.addr false = _
    rw [stored.data]
    rfl
  · next noEscape =>
      split
      · refine ⟨?_, unquotes.ram⟩
        show Cursor.mk s.data.addr true = _
        rw [unquotes.data]
        rfl
      · have stored := unquotes.osDataChar c
        rwa [Bool.eq_false_of_not_eq_true noEscape] at stored

/-- A data character changes neither the quote nor the number of the packet. -/
theorem kDataChar_frame (s : KRecv) (c : Byte) :
    (s.kDataChar c).hisQuote = s.hisQuote ∧ (s.kDataChar c).lastN = s.lastN := by
  unfold kDataChar
  split
  · exact ⟨rfl, rfl⟩
  split <;> exact ⟨rfl, rfl⟩

theorem kDataChars_frame (s : KRecv) (chars : List Byte) :
    (s.kDataChars chars).hisQuote = s.hisQuote ∧ (s.kDataChars chars).lastN = s.lastN := by
  induction chars generalizing s with
  | nil => exact ⟨rfl, rfl⟩
  | cons c chars ih =>
      obtain ⟨quote, lastN⟩ := s.kDataChar_frame c
      exact ⟨(ih _).1.trans quote, (ih _).2.trans lastN⟩

/-- **A run of data characters** is unquoted into memory. -/
theorem Unquotes.kDataChars (unquotes : Unquotes start ram out s) (chars : List Byte) :
    Unquotes start ram (unquote s.hisQuote out chars) (s.kDataChars chars) := by
  induction chars generalizing s out with
  | nil => exact unquotes
  | cons c chars ih =>
      have rest := ih (unquotes.kDataChar c)
      rw [(s.kDataChar_frame c).1] at rest
      exact rest

/-- Pieces with a checkpoint before each. -/
theorem Unquotes.pieces (unquotes : Unquotes start ram out s) (pieces : List (List Byte)) :
    Unquotes start ram (unquote s.hisQuote out pieces.flatten)
      (pieces.foldl (fun s piece => s.kDataSave.kDataChars piece) s) := by
  induction pieces generalizing s out with
  | nil => exact unquotes
  | cons piece pieces ih =>
      have saved : Unquotes start ram out s.kDataSave := ⟨unquotes.data, unquotes.ram⟩
      have rest := ih (saved.kDataChars piece)
      rw [(s.kDataSave.kDataChars_frame piece).1, show s.kDataSave.hisQuote = s.hisQuote from rfl,
        ← unquote_append, ← List.flatten_cons] at rest
      exact rest

/-- Everything unquoted, the file is written. -/
theorem Unquotes.wrote {before : KRecv} {file : List Byte}
    (unquotes : Unquotes before.binStartAddress before.ram (file, false) s) :
    before.Wrote s file where
  data := unquotes.data
  written := fun i bound => by
    rw [unquotes.ram, writeRange_inside _ (Nat.le_add_right _ _)
      (by rwa [Nat.add_sub_cancel_left])]
    simp only [Nat.add_sub_cancel_left]
  untouched := fun x outside => by
    rw [unquotes.ram]
    exact writeRange_outside _ outside

/-- `k_data_init` starts with nothing. -/
theorem kDataInit_unquotes (s : KRecv) :
    Unquotes s.binStartAddress s.ram ([], false) s.kDataInit :=
  ⟨rfl, (writeRange_nil _ _).symm⟩

/-- **An encoded file is written**, whatever pieces its stream is cut into. -/
theorem kDataChars_wrote (s : KRecv) (legal : LegalQuote s.hisQuote) (file : List Byte)
    (pieces : List (List Byte)) (division : pieces.flatten = encode s.hisQuote file) :
    s.Wrote (pieces.foldl (fun s piece => s.kDataSave.kDataChars piece) s.kDataInit) file := by
  have unquoted := s.kDataInit_unquotes.pieces pieces
  rw [show s.kDataInit.hisQuote = s.hisQuote from rfl, division, unquote_encode legal,
    List.nil_append] at unquoted
  exact unquoted.wrote

/-! ### What the packets write -/

/-- A packet on the line. -/
def packetWire (numbered : Packet × Fin 64) : List Byte :=
  startChar :: numbered.1.chars numbered.2

/-- The characters of a data packet are all passed on. -/
theorem foldl_put_data (s : KRecv) (isData : s.kState = dataType) (chars : List Byte) :
    chars.foldl put s = s.kDataChars chars := by
  induction chars generalizing s with
  | nil => rfl
  | cons c chars ih =>
      have first : s.put c = s.kDataChar c := if_pos isData
      rw [List.foldl_cons, first, ih _ (by rw [← first]; exact (s.put_frame c).1.trans isData)]
      rfl

/-- **An accepted data packet** with a new number is unquoted into memory. -/
theorem Unquotes.dataPacket (unquotes : Unquotes start ram out s) (waiting : s.place = .wait)
    (numbered : Packet × Fin 64) (isData : numbered.1.kind = dataType)
    (new : s.lastN ≠ some numbered.2.val) :
    Unquotes start ram (unquote s.hisQuote out numbered.1.data) (s.feed (packetWire numbered)) ∧
      (s.feed (packetWire numbered)).place = .wait ∧
      (s.feed (packetWire numbered)).hisQuote = s.hisQuote ∧
      (s.feed (packetWire numbered)).lastN = some numbered.2.val := by
  obtain ⟨packet, number⟩ := numbered
  let typed : KRecv := { s.checkpoint number with kState := packet.kind }
  have saved : s.checkpoint number = { s with
      n := number, lastN := some number.val, kStateSaved := s.kState, dataSaved := s.data } :=
    if_neg new
  have started : Unquotes start ram out typed := by
    refine ⟨?_, ?_⟩
    · show (s.checkpoint number).data = _
      rw [saved]
      exact unquotes.data
    · show (s.checkpoint number).ram = _
      rw [saved]
      exact unquotes.ram
  have frame : typed.hisQuote = s.hisQuote ∧ typed.lastN = some number.val := by
    show (s.checkpoint number).hisQuote = _ ∧ (s.checkpoint number).lastN = _
    rw [saved]
    exact ⟨rfl, rfl⟩
  have kept := typed.kDataChars_frame packet.data
  have stored := started.kDataChars packet.data
  have fed : s.feed (packetWire (packet, number)) =
      ((typed.kDataChars packet.data).goto .finish).accept := by
    rw [packetWire, feed_cons, step_start waiting, feed_packet s packet number.isLt,
      foldl_put_data typed isData]
  have kind : ((typed.kDataChars packet.data).goto .finish).kState = dataType := by
    show (typed.kDataChars packet.data).kState = _
    rw [← foldl_put_data typed isData, foldl_put_kState]
    exact isData
  rw [frame.1] at stored kept
  rw [fed, accept, kind, if_neg (by decide), if_neg (by decide)]
  exact ⟨⟨stored.data, stored.ram⟩, rfl, kept.1, kept.2.trans frame.2⟩

/-- **Accepted data packets**, one after the other. -/
theorem Unquotes.dataPackets (unquotes : Unquotes start ram out s) (waiting : s.place = .wait)
    (packets : List (Packet × Fin 64)) (isData : ∀ numbered ∈ packets, numbered.1.kind = dataType)
    (new : (s.lastN :: packets.map fun numbered => some numbered.2.val).IsChain (· ≠ ·)) :
    Unquotes start ram
      (unquote s.hisQuote out (packets.map fun numbered => numbered.1.data).flatten)
      (s.feed (packets.flatMap packetWire)) := by
  induction packets generalizing s out with
  | nil => exact unquotes
  | cons first rest ih =>
      rw [List.map_cons, List.isChain_cons_cons] at new
      obtain ⟨stored, place, quote, number⟩ := unquotes.dataPacket waiting first
        (isData first List.mem_cons_self) new.1
      have later := ih stored place
        (fun numbered member => isData numbered (List.mem_cons_of_mem _ member))
        (by rw [number]; exact new.2)
      rw [quote, ← unquote_append] at later
      rw [List.flatMap_cons, feed_append]
      exact later

/-- **Unquoting undoes quoting**, for every legal quote, every file and every division of its
stream: into pieces for `k_data_char`, and into data packets that `k_recv` accepts. -/
theorem dataPackets_unquote (s : KRecv) (legal : LegalQuote s.hisQuote) (file : List Byte) :
    (∀ pieces : List (List Byte), pieces.flatten = encode s.hisQuote file →
      s.Wrote (pieces.foldl (fun s piece => s.kDataSave.kDataChars piece) s.kDataInit) file) ∧
    ∀ packets : List (Packet × Fin 64), s.place = .wait →
      (∀ numbered ∈ packets, numbered.1.kind = dataType) →
      (s.lastN :: packets.map fun numbered => some numbered.2.val).IsChain (· ≠ ·) →
      (packets.map fun numbered => numbered.1.data).flatten = encode s.hisQuote file →
      s.Wrote (s.kDataInit.feed (packets.flatMap packetWire)) file := by
  refine ⟨s.kDataChars_wrote legal file, fun packets waiting isData new division => ?_⟩
  have unquoted := s.kDataInit_unquotes.dataPackets waiting packets isData new
  rw [show s.kDataInit.hisQuote = s.hisQuote from rfl, division, unquote_encode legal,
    List.nil_append] at unquoted
  exact unquoted.wrote

/-- NUL, cut between its quote and the quoted character. -/
theorem dataPackets_unquote_cut :
    (kRecvStart 0x80000000 fun _ => 0xFF#8).Wrote
      (((kRecvStart 0x80000000 fun _ => 0xFF#8).kDataInit).feed
        ([(⟨dataType, [0x23#8], false, by decide, by decide⟩, 1),
          (⟨dataType, [0x40#8], false, by decide, by decide⟩, 2)].flatMap packetWire)) [0x00#8] :=
  ((kRecvStart 0x80000000 fun _ => 0xFF#8).dataPackets_unquote (by decide) [0x00#8]).2
    [(⟨dataType, [0x23#8], false, by decide, by decide⟩, 1),
      (⟨dataType, [0x40#8], false, by decide, by decide⟩, 2)]
    rfl (by decide) (by decide) (by decide)

end KRecv

end K210Guard
