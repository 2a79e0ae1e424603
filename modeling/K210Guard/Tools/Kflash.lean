/-
**The packets of the flasher** (`utils/kflash.py`).

A packet travels between two bytes 0xC0; inside, 0xC0 and 0xDB are escaped. The tool has two readers
of this format: the generator `slip_reader`, and `recv_one_return` for a single reply.

* `slipReader_iff` — the generator accepts exactly what `write` sends, and gives the packets back,
  however the port cuts the stream up.
* `recvOneReturn_iff` — the other reader gives a packet back if and only if nothing in it had to be
  escaped.
-/

import K210Guard.Memory.Range

namespace K210Guard

namespace Kflash

/-! ### The code -/

/-- `bytes.replace`, for a single byte. -/
def replace (packet : List Byte) (old : Byte) (new : List Byte) : List Byte :=
  packet.flatMap fun b => if b = old then new else [b]

/-- What `write` sends. -/
def write (packet : List Byte) : List Byte :=
  [0xC0] ++ replace (replace packet 0xDB [0xDB, 0xDD]) 0xC0 [0xDB, 0xDC] ++ [0xC0]

inductive Fault
  | timedOut
  | invalidHead (b : Byte)
  | invalidEscape (c : List Byte)

/-- The local variables of `slip_reader`. -/
structure SlipReader where
  partialPacket : Option (List Byte)
  inEscape : Bool

namespace SlipReader

def start : SlipReader := ⟨none, false⟩

/-- The body of the inner loop: the new variables, and what is yielded. -/
def byte (s : SlipReader) (b : Byte) : Except Fault (SlipReader × Option (List Byte)) :=
  match s.partialPacket with
  | none =>
      if b = 0xC0 then .ok ({ s with partialPacket := some [] }, none)
      else .error (.invalidHead b)
  | some packet =>
      if s.inEscape then
        if b = 0xDC then .ok (⟨some (packet ++ [0xC0]), false⟩, none)
        else if b = 0xDD then .ok (⟨some (packet ++ [0xDB]), false⟩, none)
        else .error (.invalidEscape [b])
      else if b = 0xDB then .ok ({ s with inEscape := true }, none)
      else if b = 0xC0 then .ok ({ s with partialPacket := none }, some packet)
      else .ok ({ s with partialPacket := some (packet ++ [b]) }, none)

/-- The inner loop over the bytes of one read: what is yielded, and how it ends. -/
def bytes (s : SlipReader) : List Byte → List (List Byte) × Except Fault SlipReader
  | [] => ([], .ok s)
  | b :: rest =>
      match s.byte b with
      | .error fault => ([], .error fault)
      | .ok (next, yielded) => (yielded.toList ++ (next.bytes rest).1, (next.bytes rest).2)

end SlipReader

/-- What is yielded while the port returns these reads; an empty one means that it timed out. -/
def slipReader (s : SlipReader) :
    (reads : List (List Byte)) → List (List Byte) × Except Fault SlipReader
  | [] => ([], .ok s)
  | read :: reads =>
      if read = [] then ([], .error .timedOut)
      else
        match (s.bytes read).2 with
        | .error fault => ((s.bytes read).1, .error fault)
        | .ok next => ((s.bytes read).1 ++ (slipReader next reads).1, (slipReader next reads).2)

/-- The first loop of `recv_one_return`. -/
def findStart : List (Option Byte) → Option (List (Option Byte))
  | [] => none
  | c :: rest => if c = some 0xC0 then some rest else findStart rest

/-- Its second loop, where a byte is appended after the branches. -/
def receive (inEscape : Bool) (data : List Byte) : List (Option Byte) → Except Fault (List Byte)
  | [] => .error .timedOut
  | c :: rest =>
      if c = some 0xC0 then .ok data
      else if inEscape then
        if c = some 0xDC then receive false (data ++ [0xC0] ++ c.toList) rest
        else if c = some 0xDD then receive false (data ++ [0xDB] ++ c.toList) rest
        else .error (.invalidEscape c.toList)
      else receive (decide (c = some 0xDB)) (data ++ c.toList) rest

/-- `recv_one_return`, on what the single reads return until the time is up. -/
def recvOneReturn (input : List (Option Byte)) : Except Fault (List Byte) :=
  match findStart input with
  | none => .error .timedOut
  | some rest => receive false [] rest

/-! ### What is sent -/

/-- A byte of a packet, as it is sent. -/
def escaped (b : Byte) : List Byte :=
  if b = 0xDB then [0xDB, 0xDD] else if b = 0xC0 then [0xDB, 0xDC] else [b]

theorem escaped_plain {b : Byte} (notEscape : b ≠ 0xDB) (notEnd : b ≠ 0xC0) : escaped b = [b] := by
  rw [escaped, if_neg notEscape, if_neg notEnd]

/-- The two replacements do not get into each other's way. -/
theorem write_eq (packet : List Byte) :
    write packet = 0xC0 :: (packet.flatMap escaped ++ [0xC0]) := by
  have each (b : Byte) : replace (if b = 0xDB then [0xDB, 0xDD] else [b]) 0xC0 [0xDB, 0xDC] =
      escaped b := by
    rw [escaped]
    split <;> simp [replace]
  have whole : replace (replace packet 0xDB [0xDB, 0xDD]) 0xC0 [0xDB, 0xDC] =
      packet.flatMap escaped := by
    rw [replace, replace, List.flatMap_assoc]
    apply congrArg (packet.flatMap ·)
    funext b
    exact each b
  rw [write, whole]
  rfl

/-! ### The generator gives the packets back -/

namespace SlipReader

/-- Two parts of a stream. -/
theorem bytes_append (s : SlipReader) (first second : List Byte) :
    s.bytes (first ++ second) = match (s.bytes first).2 with
      | .error fault => ((s.bytes first).1, .error fault)
      | .ok next => ((s.bytes first).1 ++ (next.bytes second).1, (next.bytes second).2) := by
  induction first generalizing s with
  | nil => simp [bytes]
  | cons b first ih =>
      rw [List.cons_append, bytes, bytes]
      cases step : s.byte b with
      | error fault => rfl
      | ok after =>
          dsimp only
          rw [ih]
          cases (after.1.bytes first).2 with
          | error fault => rfl
          | ok next => simp

variable {front packet rest : List Byte}

theorem byte_plain {b : Byte} (notEscape : b ≠ 0xDB) (notEnd : b ≠ 0xC0) :
    byte ⟨some front, false⟩ b = .ok (⟨some (front ++ [b]), false⟩, none) := by
  rw [byte]
  dsimp only
  rw [if_neg Bool.false_ne_true, if_neg notEscape, if_neg notEnd]

theorem bytes_escaped (b : Byte) :
    bytes ⟨some front, false⟩ (escaped b ++ rest) = bytes ⟨some (front ++ [b]), false⟩ rest := by
  by_cases isEscape : b = 0xDB
  · simp [escaped, bytes, byte, isEscape]
  by_cases isEnd : b = 0xC0
  · simp [escaped, bytes, byte, isEnd]
  · simp [escaped_plain isEscape isEnd, bytes, byte_plain isEscape isEnd]

/-- A packet up to its end. -/
theorem bytes_packet : bytes ⟨some front, false⟩ (packet.flatMap escaped ++ 0xC0 :: rest) =
    ((front ++ packet) :: (start.bytes rest).1, (start.bytes rest).2) := by
  induction packet generalizing front with
  | nil => simp [bytes, byte, start]
  | cons b packet ih =>
      rw [List.flatMap_cons, List.append_assoc, bytes_escaped, ih, List.append_assoc]
      rfl

/-- **What was written is read.** -/
theorem bytes_written (packets : List (List Byte)) :
    start.bytes (packets.flatMap write) = (packets, .ok start) := by
  induction packets with
  | nil => rfl
  | cons packet packets ih =>
      have head : start.bytes (write packet ++ packets.flatMap write) =
          bytes ⟨some [], false⟩ (packet.flatMap escaped ++ 0xC0 :: packets.flatMap write) := by
        rw [write_eq]
        simp [bytes, byte, start]
      rw [List.flatMap_cons, head, bytes_packet, ih]
      rfl

/-! ### Nothing else is accepted -/

/-- Outside of a packet there is no escape. -/
def Sane (s : SlipReader) : Prop := s.partialPacket = none → s.inEscape = false

/-- The bytes that the variables stand for. -/
def pending (s : SlipReader) : List Byte :=
  match s.partialPacket with
  | none => []
  | some packet => 0xC0 :: packet.flatMap escaped ++ if s.inEscape then [0xDB] else []

/-- **One byte**: what came in has been yielded or is pending. -/
theorem byte_frames {s next : SlipReader} {b : Byte} {yielded : Option (List Byte)}
    (sane : s.Sane) (reads : s.byte b = .ok (next, yielded)) :
    next.Sane ∧ s.pending ++ [b] = yielded.toList.flatMap write ++ next.pending := by
  obtain ⟨partialPacket, inEscape⟩ := s
  rw [byte] at reads
  cases partialPacket with
  | none =>
      obtain rfl : inEscape = false := sane rfl
      dsimp only at reads
      split at reads
      · next isStart =>
          cases reads
          exact ⟨fun inside => absurd inside (by simp), by simp [pending, isStart]⟩
      · cases reads
  | some packet =>
      dsimp only at reads
      cases inEscape with
      | true =>
          rw [if_pos rfl] at reads
          split at reads
          · next isEnd =>
              cases reads
              exact ⟨fun inside => absurd inside (by simp), by simp [pending, escaped, isEnd]⟩
          · split at reads
            · next isEscape =>
                cases reads
                exact ⟨fun inside => absurd inside (by simp),
                  by simp [pending, escaped, isEscape]⟩
            · cases reads
      | false =>
          rw [if_neg Bool.false_ne_true] at reads
          split at reads
          · next isEscape =>
              cases reads
              exact ⟨fun inside => absurd inside (by simp), by simp [pending, isEscape]⟩
          · split at reads
            · next isEnd =>
                cases reads
                exact ⟨fun _ => rfl, by simp [pending, write_eq, isEnd]⟩
            · next notEscape notEnd =>
                cases reads
                exact ⟨fun inside => absurd inside (by simp),
                  by simp [pending, escaped_plain notEscape notEnd]⟩

/-- **All bytes of a stream.** -/
theorem bytes_frames {s next : SlipReader} {stream : List Byte} {packets : List (List Byte)}
    (sane : s.Sane) (reads : s.bytes stream = (packets, .ok next)) :
    s.pending ++ stream = packets.flatMap write ++ next.pending := by
  induction stream generalizing s packets with
  | nil =>
      obtain ⟨rfl, same⟩ := Prod.mk.inj reads
      obtain rfl := Except.ok.inj same
      simp
  | cons b stream ih =>
      rw [bytes] at reads
      cases step : s.byte b with
      | error fault =>
          rw [step] at reads
          cases (Prod.mk.inj reads).2
      | ok after =>
          rw [step] at reads
          obtain ⟨rfl, ends⟩ := Prod.mk.inj reads
          obtain ⟨saneAfter, frames⟩ := byte_frames sane step
          have later := ih saneAfter (Prod.ext rfl ends)
          calc s.pending ++ b :: stream = (s.pending ++ [b]) ++ stream := by simp
            _ = after.2.toList.flatMap write ++ (after.1.pending ++ stream) := by
              rw [frames, List.append_assoc]
            _ = _ := by rw [later, List.flatMap_append, List.append_assoc]

end SlipReader

open SlipReader

/-- The reads of the port make one stream, as long as none of them is empty. -/
theorem slipReader_eq (s : SlipReader) {reads : List (List Byte)} (nonempty : [] ∉ reads) :
    slipReader s reads = s.bytes reads.flatten := by
  induction reads generalizing s with
  | nil => rfl
  | cons read reads ih =>
      have first : read ≠ [] := fun empty => nonempty (empty ▸ List.mem_cons_self)
      have later : [] ∉ reads := fun member => nonempty (List.mem_cons_of_mem _ member)
      rw [slipReader, if_neg first, List.flatten_cons, bytes_append]
      cases (s.bytes read).2 with
      | error fault => rfl
      | ok next =>
          dsimp only
          rw [ih next later]

/-- After an empty read nothing goes on. -/
theorem slipReader_nonempty {s next : SlipReader} {reads : List (List Byte)}
    (goesOn : (slipReader s reads).2 = .ok next) : [] ∉ reads := by
  induction reads generalizing s with
  | nil => simp
  | cons read reads ih =>
      rw [slipReader] at goesOn
      split at goesOn
      · cases goesOn
      · next first =>
          cases ends : (s.bytes read).2 with
          | error fault =>
              rw [ends] at goesOn
              cases goesOn
          | ok middle =>
              rw [ends] at goesOn
              simpa [Ne.symm first] using ih goesOn

/-- **Round trip of the packets**: the generator has given these packets back and waits for the next
one if and only if the port has returned, in reads that are not empty, what `write` sends for
them. -/
theorem slipReader_iff (reads packets : List (List Byte)) :
    slipReader .start reads = (packets, .ok .start) ↔
      [] ∉ reads ∧ reads.flatten = packets.flatMap write := by
  constructor
  · intro given
    have nonempty := slipReader_nonempty (congrArg Prod.snd given)
    rw [slipReader_eq _ nonempty] at given
    have frames := bytes_frames (fun _ => rfl : start.Sane) given
    exact ⟨nonempty, by simpa [pending, start] using frames⟩
  · rintro ⟨nonempty, sent⟩
    rw [slipReader_eq _ nonempty, sent, bytes_written]

/-! ### The other reader -/

/-- What it makes of a byte of a packet: the escape sequence stays, around the byte. -/
def garbled (b : Byte) : List Byte :=
  if b = 0xDB then [0xDB, 0xDB, 0xDD] else if b = 0xC0 then [0xDB, 0xC0, 0xDC] else [b]

theorem receive_escaped (data : List Byte) (b : Byte) (rest : List (Option Byte)) :
    receive false data ((escaped b).map some ++ rest) = receive false (data ++ garbled b) rest := by
  by_cases isEscape : b = 0xDB
  · simp [escaped, garbled, receive, isEscape]
  by_cases isEnd : b = 0xC0
  · simp [escaped, garbled, receive, isEnd]
  rw [escaped_plain isEscape isEnd, garbled, if_neg isEscape, if_neg isEnd]
  show receive false data (some b :: rest) = _
  rw [receive, if_neg (fun same => isEnd (Option.some.inj same)), if_neg Bool.false_ne_true,
    decide_eq_false (fun same => isEscape (Option.some.inj same))]
  rfl

theorem receive_packet (data packet : List Byte) (rest : List (Option Byte)) :
    receive false data ((packet.flatMap escaped ++ [0xC0]).map some ++ rest) =
      .ok (data ++ packet.flatMap garbled) := by
  induction packet generalizing data with
  | nil => simp [receive]
  | cons b packet ih =>
      rw [List.flatMap_cons, List.append_assoc, List.map_append, List.append_assoc,
        receive_escaped, ih, List.append_assoc]
      rfl

/-- What stands before the packet is skipped. -/
theorem findStart_noise {noise : List (Option Byte)} (quiet : some 0xC0 ∉ noise)
    (rest : List (Option Byte)) : findStart (noise ++ some 0xC0 :: rest) = some rest := by
  induction noise with
  | nil => rfl
  | cons c noise ih =>
      have other : c ≠ some 0xC0 := fun same => quiet (same ▸ List.mem_cons_self)
      rw [List.cons_append, findStart, if_neg other]
      exact ih fun member => quiet (List.mem_cons_of_mem _ member)

theorem garbled_length (packet : List Byte) : packet.length ≤ (packet.flatMap garbled).length := by
  induction packet with
  | nil => simp
  | cons b packet ih =>
      have some' : 1 ≤ (garbled b).length := by
        rw [garbled]
        split_ifs <;> simp
      rw [List.flatMap_cons, List.length_append, List.length_cons]
      omega

/-- Only bytes that are not escaped come through. -/
theorem garbled_eq_iff (packet : List Byte) :
    packet.flatMap garbled = packet ↔ 0xC0 ∉ packet ∧ 0xDB ∉ packet := by
  induction packet with
  | nil => simp
  | cons b packet ih =>
      have longer := garbled_length packet
      rw [List.flatMap_cons]
      by_cases plain : b ≠ 0xDB ∧ b ≠ 0xC0
      · rw [garbled, if_neg plain.1, if_neg plain.2, List.singleton_append, List.cons_inj_right, ih,
          List.mem_cons, List.mem_cons, not_or, not_or]
        have others := And.intro plain.1.symm plain.2.symm
        tauto
      · refine iff_of_false (fun same => ?_) fun clean => ?_
        · have lengths := congrArg List.length same
          have three : (garbled b).length = 3 := by
            rw [garbled]
            split_ifs <;> first | rfl | tauto
          rw [List.length_append, List.length_cons] at lengths
          omega
        · simp only [List.mem_cons, not_or] at clean
          exact plain ⟨Ne.symm clean.2.1, Ne.symm clean.1.1⟩

/-- **The other reader** gives back the packets without a byte that had to be escaped, and no
others, whatever comes before and after. -/
theorem recvOneReturn_iff {noise : List (Option Byte)} (quiet : some 0xC0 ∉ noise)
    (packet : List Byte) (rest : List (Option Byte)) :
    (∃ data, recvOneReturn (noise ++ (write packet).map some ++ rest) = .ok data) ∧
      (recvOneReturn (noise ++ (write packet).map some ++ rest) = .ok packet ↔
        0xC0 ∉ packet ∧ 0xDB ∉ packet) := by
  have given : recvOneReturn (noise ++ (write packet).map some ++ rest) =
      .ok (packet.flatMap garbled) := by
    rw [write_eq, List.map_cons, List.append_assoc, List.cons_append, recvOneReturn,
      findStart_noise quiet]
    exact receive_packet [] packet rest
  rw [given]
  refine ⟨⟨_, rfl⟩, ?_⟩
  rw [Except.ok.injEq]
  exact garbled_eq_iff packet

/-- A reply that holds 0xC0 comes back longer. -/
theorem recvOneReturn_iff_long :
    (∃ data, recvOneReturn ([none, some 0x41] ++ (write [0xC3, 0xC0]).map some ++ []) =
      .ok data) ∧
    (recvOneReturn ([none, some 0x41] ++ (write [0xC3, 0xC0]).map some ++ []) =
        .ok [0xC3, 0xC0] ↔
      0xC0 ∉ ([0xC3, 0xC0] : List Byte) ∧ 0xDB ∉ ([0xC3, 0xC0] : List Byte)) :=
  recvOneReturn_iff (by decide) [0xC3, 0xC0] []

end Kflash

end K210Guard
