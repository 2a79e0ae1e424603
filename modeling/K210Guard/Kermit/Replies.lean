/-
**The replies of `k_recv` in their buffer** (`send_ack`, `send_nack`, `handle_send_packet`, `chk1`
and `s1_sendpacket`, `cli/load.c`).

`KRecv` has each reply as a list. Here it is built in `a_b`, whose length is counted up while the
parameters are answered, and read back up to its NUL, once for the sum and once to be sent. The
indices into `a_b` and `send_parms` are recorded, and so is each reply.

* `feed_recv` — this machine does what `KRecv` does.
* `replies_wellFormed` — on every stream the indices stay in bounds, and every reply is a packet
  that `k_recv` itself would take, with the last sequence character it has read.
-/

import K210Guard.Kermit.ReceiverSpec
import Mathlib.Data.List.TakeWhile
import Mathlib.Tactic.IntervalCases

namespace K210Guard

/-! ### The code -/

/-- What was sent for a packet, with the last sequence character read before. -/
structure Reply where
  seq : Byte
  padding : List Byte
  packet : List Byte

/-- `k_recv` with `a_b`. -/
structure KRecvInPlace where
  recv : KRecv
  aB : Nat → Byte
  /-- The indices used so far. -/
  aBUsed : List Nat
  sendParmsUsed : List Nat
  replies : List Reply
  /-- The last sequence character that is no control character. -/
  lastSeq : Byte

/-- `k_recv` before the first character. -/
def kRecvInPlaceStart (binStartAddress : Nat) (ram aB : Nat → Byte) : KRecvInPlace where
  recv := kRecvStart binStartAddress ram
  aB := aB
  aBUsed := []
  sendParmsUsed := []
  replies := []
  lastSeq := 0x20

/-- `while (*p)`, for at most so many turns. -/
def stringFrom (cells : Nat → Byte) : (turns : Nat) → (i : Nat) → List Byte
  | 0, _ => []
  | turns + 1, i => if cells i = 0 then [] else cells i :: stringFrom cells turns (i + 1)

/-- A step of `handle_send_packet`: what it remembers, where it looks and what it answers. -/
structure Rung where
  hear : KRecv → KRecv
  looksAt : List Nat
  answers : List Byte

/-- MAXL, TIME, NPAD, PADC, EOL, QCTL, QBIN, CHKT, REPT and CAPAS. -/
def rungs : List Rung :=
  [⟨id, [], [tochar 94]⟩,
    ⟨id, [], [tochar 1]⟩,
    ⟨fun s => { s with hisPadCount := untochar (s.sendParms 2) }, [2], [tochar 0]⟩,
    ⟨fun s => { s with hisPadChar := ktrans (s.sendParms 3) }, [3], [0x40]⟩,
    ⟨fun s => { s with hisEol := u8 (untochar (s.sendParms 4)) }, [4], [tochar 0x0D]⟩,
    ⟨fun s => { s with hisQuote := s.sendParms 5 }, [5], [0x23]⟩,
    ⟨id, [], [0x4E]⟩,
    ⟨id, [], [0x31]⟩,
    ⟨id, [], [0x4E]⟩,
    ⟨id, [], [tochar 2, tochar 0, tochar 94, tochar 94]⟩]

namespace KRecvInPlace

/-- `a_b[i] = c` -/
def store (s : KRecvInPlace) (i : Nat) (c : Byte) : KRecvInPlace :=
  { s with aB := Function.update s.aB i c, aBUsed := s.aBUsed ++ [i] }

/-- The string at `&a_b[i]`; with more turns than `a_b` has characters. -/
def string (s : KRecvInPlace) (i : Nat) : List Byte := stringFrom s.aB 25 i

/-- The string and its NUL are read. -/
def readString (s : KRecvInPlace) (i : Nat) : KRecvInPlace :=
  { s with aBUsed := s.aBUsed ++ List.range' i ((s.string i).length + 1) }

/-- `chk1(&a_b[1])` -/
def chk (s : KRecvInPlace) : Nat :=
  let total := charSum (s.string 1)
  (total + ((total >>> 6) &&& 0x03)) &&& 0x3F

/-- `s1_sendpacket(a_b)` -/
def s1SendPacket (s : KRecvInPlace) : KRecvInPlace :=
  let padding := List.replicate s.recv.hisPadCount s.recv.hisPadChar
  { s.readString 0 with
    recv := { s.recv with sent := s.recv.sent ++ padding ++ s.string 0 }
    replies := s.replies ++ [⟨s.lastSeq, padding, s.string 0⟩] }

/-- The first four characters. -/
def storeHeader (s : KRecvInPlace) (type : Byte) (length : Nat) : KRecvInPlace :=
  let s := s.store 0 startChar
  let s := s.store 1 (tochar length)
  let s := s.store 2 (tochar s.recv.n)
  s.store 3 type

/-- What comes behind the parameters, and the sending. -/
def closeReply (s : KRecvInPlace) (length : Nat) : KRecvInPlace :=
  let s := s.store (length + 1) 0
  let s := (s.readString 1).store (length + 1) (tochar s.chk)
  let s := s.store (length + 2) s.recv.hisEol
  let s := s.store (length + 3) 0
  s.s1SendPacket

/-- The end of `handle_send_packet`, where `a_b[length]` is the last parameter; with the length 3 it
is all that `send_ack` and `send_nack` do. -/
def finishReply (s : KRecvInPlace) (type : Byte) (length : Nat) : KRecvInPlace :=
  (s.storeHeader type length).closeReply length

def sendAck (s : KRecvInPlace) : KRecvInPlace := s.finishReply ackType 3

def sendNack (s : KRecvInPlace) : KRecvInPlace := s.finishReply nackType 3

/-- `a_b[++length] = c` for some characters. -/
def storeNext : List Byte → (length : Nat) → KRecvInPlace → KRecvInPlace
  | [], _, s => s
  | c :: chars, length, s => storeNext chars (length + 1) (s.store (length + 1) c)

/-- The ladder of `handle_send_packet`, with the last index written. -/
def climb : List Rung → (bytes : Int) → (length : Nat) → KRecvInPlace → Nat × KRecvInPlace
  | [], _, length, s => (length, s)
  | rung :: rungs, bytes, length, s =>
      if bytes ≤ 0 then (length, s)
      else
        climb rungs (bytes - 1) (length + rung.answers.length)
          (storeNext rung.answers length
            { s with
              recv := rung.hear s.recv
              sendParmsUsed := s.sendParmsUsed ++ rung.looksAt })

/-- The defaults; the last character is ignored if it filled the buffer. -/
def startParms (s : KRecvInPlace) : KRecvInPlace :=
  { s with recv := { s.recv with
      hisEol := endChar
      hisPadCount := 0
      hisPadChar := 0
      hisQuote := kEscape
      sendPtr := if s.recv.sendPtr = 19 then 18 else s.recv.sendPtr } }

def handleSendPacket (s : KRecvInPlace) : KRecvInPlace :=
  let s := s.startParms
  let climbed := climb rungs s.recv.sendPtr 3 s
  climbed.2.finishReply ackType climbed.1

/-- What is done with a character that the packet allows at its place. -/
def act (s : KRecvInPlace) (c : Byte) : KRecvInPlace :=
  match s.recv.place with
  | .seq .. => { s with recv := s.recv.act c, lastSeq := c }
  | .body .. =>
      if s.recv.kState = sendType then
        { s with recv := s.recv.act c, sendParmsUsed := s.sendParmsUsed ++ [s.recv.sendPtr] }
      else { s with recv := s.recv.act c }
  | _ => { s with recv := s.recv.act c }

def goto (s : KRecvInPlace) (place : Place) : KRecvInPlace := { s with recv := s.recv.goto place }

def atHead (s : KRecvInPlace) : KRecvInPlace := { s with recv := s.recv.atHead }

def packetError (s : KRecvInPlace) : KRecvInPlace :=
  { s with recv := { s.recv with kState := s.recv.kStateSaved, data := s.recv.dataSaved } }
    |>.sendNack.atHead

def accept (s : KRecvInPlace) : KRecvInPlace :=
  if s.recv.kState = sendType then s.handleSendPacket.atHead
  else if s.recv.kState = breakType then
    s.sendAck.goto (.done (int32 (s.recv.data.addr - s.recv.binStartAddress)))
  else s.sendAck.atHead

/-- One character. -/
def step (s : KRecvInPlace) (c : Byte) : KRecvInPlace :=
  match s.recv.place with
  | .done _ => s
  | .wait =>
      if c = startChar then s.goto .len
      else if c = etxChar then s.goto (.done 0)
      else s
  | place =>
      match place.next c with
      | none => s.packetError
      | some after => if place = .finish then s.accept else (s.act c).goto after

/-- Some characters. -/
def feed (s : KRecvInPlace) (chars : List Byte) : KRecvInPlace := chars.foldl step s

end KRecvInPlace

/-! ### What a reply should be -/

/-- The characters of a packet that are summed; the first one has the number of those behind it,
with the check. -/
def replyFields (seq type : Byte) (params : List Byte) : List Byte :=
  tochar (3 + params.length) :: seq :: type :: params

/-- A reply, as it is put into `a_b`. -/
def replyPacket (seq type : Byte) (params : List Byte) (eol : Byte) : List Byte :=
  startChar :: replyFields seq type params ++
    [tochar (chk1 (replyFields seq type params)), eol]

def withCheck (fields : List Byte) : List Byte := fields ++ [checkChar (charSum fields)]

/-- Some characters of a packet, one after the other. -/
def Place.run (place : Place) (chars : List Byte) : Option Place := chars.foldlM Place.next place

/-- A packet with the sequence character and the first few answers, which `k_recv` itself takes up
to the check; behind it there may be an end-of-line character. -/
def Reply.WellFormed (reply : Reply) : Prop :=
  ∃ type count eol, (type = ackType ∨ type = nackType) ∧ eol.length ≤ 1 ∧
    reply.packet = startChar ::
      withCheck (replyFields reply.seq type (KRecv.answers.take count).flatten) ++ eol ∧
    Place.len.run (withCheck (replyFields reply.seq type (KRecv.answers.take count).flatten)) =
      some .finish

theorem replyFields_length (seq type : Byte) (params : List Byte) :
    (replyFields seq type params).length = 3 + params.length := by
  rw [replyFields]
  simp [Nat.add_comm 3]

section Packet

variable {seq type : Byte} {params : List Byte}

theorem ne_nul_of_printable {c : Byte} (printable : isControl c = false) : c ≠ 0 := by
  rintro rfl
  exact absurd printable (by decide)

theorem Place.run_cons {place after : Place} {c : Byte} (next : place.next c = some after)
    (chars : List Byte) : place.run (c :: chars) = after.run chars := by
  rw [Place.run, List.foldlM_cons, next]
  rfl

theorem Place.run_append {place after : Place} {first : List Byte}
    (runs : place.run first = some after) (rest : List Byte) :
    place.run (first ++ rest) = after.run rest := by
  rw [Place.run, List.foldlM_append, ← Place.run, runs]
  rfl

/-- The data of a packet, up to the check. -/
theorem Place.run_rest (sum : Nat) (printable : ∀ c ∈ params, isControl c = false) :
    (Place.rest sum (params.length + 1)).run params = some (.check (sum + charSum params)) := by
  induction params generalizing sum with
  | nil => rfl
  | cons c params ih =>
      have more : ((c :: params).length + 1 : Int) > 1 := by
        rw [List.length_cons]
        omega
      have next : (Place.body sum ((c :: params).length + 1)).next c =
          some (.rest (sum + c.toNat) (params.length + 1)) := by
        rw [Place.next, printable c List.mem_cons_self, if_neg Bool.false_ne_true,
          List.length_cons, Int.natCast_succ, Int.add_sub_cancel]
      rw [Place.rest, if_pos more, Place.run_cons next,
        ih (sum + c.toNat) fun b member => printable b (List.mem_cons_of_mem c member)]
      rw [charSum, charSum, List.map_cons, List.sum_cons, Nat.add_assoc]

section

variable (printable : ∀ c ∈ seq :: type :: params, isControl c = false)
  (short : params.length ≤ 91)
include printable short

/-- **A packet of printable characters** with its length and its check is taken. -/
theorem Place.run_packet :
    Place.len.run (withCheck (replyFields seq type params)) = some .finish := by
  have small : 3 + params.length < 95 := by omega
  have first : Place.len.next (tochar (3 + params.length)) =
      some (.seq (tochar (3 + params.length)).toNat ((3 + params.length : Nat) : Int)) := by
    rw [Place.next, tochar_printable small, if_neg Bool.false_ne_true, untochar_tochar small]
  have second : ∀ sum length, (Place.seq sum length).next seq =
      some (.type (sum + seq.toNat) (length - 1)) := by
    intro sum length
    rw [Place.next, printable seq List.mem_cons_self, if_neg Bool.false_ne_true]
  have third : ∀ sum, (Place.type sum ((3 + params.length : Nat) - 1)).next type =
      some (.rest (sum + type.toNat) (params.length + 1)) := by
    intro sum
    rw [Place.next, printable type (by simp), if_neg Bool.false_ne_true, if_neg (by omega)]
    refine congrArg some (congrArg _ ?_)
    omega
  have last : ∀ sum, (Place.check sum).next (checkChar sum) = some .finish := by
    intro sum
    rw [Place.next, checkChar_printable, if_neg Bool.false_ne_true, if_neg (not_not.mpr rfl)]
  have data : ∀ c ∈ params, isControl c = false := fun c member =>
    printable c (List.mem_cons_of_mem _ (List.mem_cons_of_mem _ member))
  have body := Place.run_rest ((tochar (3 + params.length)).toNat + seq.toNat + type.toNat) data
  have total : charSum (replyFields seq type params) =
      (tochar (3 + params.length)).toNat + seq.toNat + type.toNat + charSum params := by
    simp [replyFields, charSum, Nat.add_assoc]
  rw [withCheck, total, replyFields, List.cons_append, Place.run_cons first, List.cons_append,
    Place.run_cons (second _ _), List.cons_append, Place.run_cons (third _),
    Place.run_append body, Place.run_cons (last _)]
  rfl

/-- What is sent of it, up to the first NUL. -/
theorem sent_packet (eol : Byte) :
    (replyPacket seq type params eol).takeWhile (· ≠ 0) =
      startChar :: withCheck (replyFields seq type params) ++ [eol].takeWhile (· ≠ 0) := by
  have fields : ∀ c ∈ replyFields seq type params, c ≠ 0 := by
    intro c member
    refine ne_nul_of_printable ?_
    rcases List.mem_cons.mp member with rfl | member
    · exact tochar_printable (by omega)
    · exact printable c member
  have check : tochar (chk1 (replyFields seq type params)) =
      checkChar (charSum (replyFields seq type params)) := by
    rw [chk1, List.takeWhile_eq_self_iff.mpr fun c member => decide_eq_true (fields c member)]
    rfl
  have whole : ∀ c ∈ startChar :: withCheck (replyFields seq type params),
      decide (c ≠ 0) = true := by
    intro c member
    refine decide_eq_true ?_
    rcases List.mem_cons.mp member with rfl | member
    · decide
    rcases List.mem_append.mp member with member | member
    · exact fields c member
    · rw [List.mem_singleton.mp member]
      exact ne_nul_of_printable (checkChar_printable _)
  rw [replyPacket, check, ← List.takeWhile_append_of_pos whole]
  simp [withCheck]

end

end Packet

/-! ### The buffer -/

theorem stored_cons {cells : Nat → Byte} {i : Nat} {c : Byte} {text : List Byte} :
    Stored cells i (c :: text) ↔ cells i = c ∧ Stored cells (i + 1) text := by
  rw [Stored, List.length_cons, readRange_succ, List.cons.injEq]
  rfl

/-- A string ends at its first NUL. -/
theorem stringFrom_eq {cells : Nat → Byte} {turns i : Nat} {text : List Byte}
    (stored : Stored cells i text) (ended : cells (i + text.length) = 0)
    (enough : text.length < turns) : stringFrom cells turns i = text.takeWhile (· ≠ 0) := by
  induction text generalizing i turns with
  | nil =>
      obtain ⟨turns, rfl⟩ := Nat.exists_eq_succ_of_ne_zero (Nat.ne_of_gt enough)
      exact if_pos ended
  | cons c text ih =>
      obtain ⟨turns, rfl⟩ := Nat.exists_eq_succ_of_ne_zero (Nat.ne_of_gt (Nat.zero_lt_of_lt enough))
      obtain ⟨here, later⟩ := stored_cons.mp stored
      rw [List.length_cons, ← Nat.add_assoc, Nat.add_right_comm] at ended
      rw [stringFrom, here]
      by_cases isNul : c = 0
      · rw [if_pos isNul, List.takeWhile_cons_of_neg (by simpa using isNul)]
      · rw [if_neg isNul, List.takeWhile_cons_of_pos (by simpa using isNul),
          ih later ended (Nat.lt_of_succ_lt_succ enough)]

namespace KRecvInPlace

variable {s : KRecvInPlace} {type c : Byte} {params text : List Byte} {i : Nat}

/-- No other indices into `a_b` than those of its 24 characters are added. -/
def UsesWithin (s s' : KRecvInPlace) : Prop := ∀ x ∈ s'.aBUsed, x ∈ s.aBUsed ∨ x < 24

theorem UsesWithin.trans {s s' s'' : KRecvInPlace} (first : UsesWithin s s')
    (second : UsesWithin s' s'') : UsesWithin s s'' := by
  intro x member
  rcases second x member with before | inside
  · exact first x before
  · exact Or.inr inside

theorem string_eq (stored : Stored s.aB i text) (ended : s.aB (i + text.length) = 0)
    (inside : i + text.length < 24) : s.string i = text.takeWhile (· ≠ 0) :=
  stringFrom_eq stored ended (by omega)

theorem usesWithin_readString (stored : Stored s.aB i text) (ended : s.aB (i + text.length) = 0)
    (inside : i + text.length < 24) : UsesWithin s (s.readString i) := by
  have shorter := (List.takeWhile_sublist (l := text) (fun c : Byte => c ≠ 0)).length_le
  intro x member
  rcases List.mem_append.mp member with before | here
  · exact Or.inl before
  · rw [List.mem_range'_1, string_eq stored ended inside] at here
    exact Or.inr (by omega)

/-- Only `a_b` has changed. -/
structure SameBut (s s' : KRecvInPlace) : Prop where
  recv : s'.recv = s.recv
  replies : s'.replies = s.replies
  sendParmsUsed : s'.sendParmsUsed = s.sendParmsUsed
  lastSeq : s'.lastSeq = s.lastSeq
  used : UsesWithin s s'

theorem SameBut.trans {s s' s'' : KRecvInPlace} (first : SameBut s s') (second : SameBut s' s'') :
    SameBut s s'' where
  recv := second.recv.trans first.recv
  replies := second.replies.trans first.replies
  sendParmsUsed := second.sendParmsUsed.trans first.sendParmsUsed
  lastSeq := second.lastSeq.trans first.lastSeq
  used := first.used.trans second.used

theorem sameBut_store (s : KRecvInPlace) (c : Byte) (inside : i < 24) :
    SameBut s (s.store i c) := by
  refine ⟨rfl, rfl, rfl, rfl, fun x member => ?_⟩
  rcases List.mem_append.mp member with before | here
  · exact Or.inl before
  · rw [List.mem_singleton.mp here]
    exact Or.inr inside

theorem sameBut_readString (stored : Stored s.aB i text) (ended : s.aB (i + text.length) = 0)
    (inside : i + text.length < 24) : SameBut s (s.readString i) :=
  ⟨rfl, rfl, rfl, rfl, usesWithin_readString stored ended inside⟩

/-- The header comes in front of the parameters. -/
theorem storeHeader_stored (stored : Stored s.aB 4 params) (type : Byte) :
    SameBut s (s.storeHeader type (3 + params.length)) ∧
      Stored (s.storeHeader type (3 + params.length)).aB 0
        (startChar :: replyFields (tochar s.recv.n) type params) := by
  refine ⟨?_, ?_⟩
  · exact (((sameBut_store s _ (by omega)).trans (sameBut_store _ _ (by omega))).trans
      (sameBut_store _ _ (by omega))).trans (sameBut_store _ _ (by omega))
  · have cells : (s.storeHeader type (3 + params.length)).aB = Function.update (Function.update
        (Function.update (Function.update s.aB 0 startChar) 1 (tochar (3 + params.length))) 2
          (tochar s.recv.n)) 3 type := rfl
    rw [cells]
    refine stored_cons.mpr ⟨rfl, stored_cons.mpr ⟨rfl, stored_cons.mpr ⟨rfl, stored_cons.mpr
      ⟨rfl, ?_⟩⟩⟩⟩
    refine (readRange_congr fun x above _ => ?_).trans stored
    rw [Function.update_of_ne (by omega), Function.update_of_ne (by omega),
      Function.update_of_ne (by omega), Function.update_of_ne (by omega)]

/-- A packet has been sent. -/
structure Replied (s s' : KRecvInPlace) (packet : List Byte) : Prop where
  recv : s'.recv = s.recv.s1SendPacket packet
  replies : s'.replies = s.replies ++ [⟨s.lastSeq,
    List.replicate s.recv.hisPadCount s.recv.hisPadChar, packet.takeWhile (· ≠ 0)⟩]
  sendParmsUsed : s'.sendParmsUsed = s.sendParmsUsed
  lastSeq : s'.lastSeq = s.lastSeq
  used : UsesWithin s s'

theorem SameBut.replied {s s' s'' : KRecvInPlace} {packet : List Byte} (same : SameBut s s')
    (replied : Replied s' s'' packet) : Replied s s'' packet where
  recv := by rw [replied.recv, same.recv]
  replies := by rw [replied.replies, same.recv, same.replies, same.lastSeq]
  sendParmsUsed := replied.sendParmsUsed.trans same.sendParmsUsed
  lastSeq := replied.lastSeq.trans same.lastSeq
  used := same.used.trans replied.used

/-- What is sent is the string in `a_b`. -/
theorem s1SendPacket_replied (stored : Stored s.aB 0 text) (ended : s.aB (0 + text.length) = 0)
    (inside : 0 + text.length < 24) : Replied s s.s1SendPacket text := by
  have sends := string_eq stored ended inside
  refine ⟨?_, ?_, rfl, rfl, usesWithin_readString stored ended inside⟩
  · rw [s1SendPacket, sends]
    rfl
  · rw [s1SendPacket, sends]

section Close

variable {head : List Byte}

/-- The sum is taken up to the NUL behind the parameters. -/
theorem chk_closed (stored : Stored s.aB 0 (startChar :: head)) (short : head.length ≤ 19) :
    (s.store (head.length + 1) 0).chk = chk1 head ∧
      SameBut s ((s.store (head.length + 1) 0).readString 1) ∧
      Stored ((s.store (head.length + 1) 0).readString 1).aB 0 (startChar :: head) := by
  have size : 0 + (startChar :: head).length = head.length + 1 := Nat.zero_add _
  have kept : Stored (s.store (head.length + 1) 0).aB 0 (startChar :: head) :=
    stored.update (Nat.le_of_eq size) 0
  have summed := (stored_cons.mp kept).2
  have ended : (s.store (head.length + 1) 0).aB (0 + 1 + head.length) = 0 := by
    rw [Nat.zero_add, Nat.add_comm 1]
    exact Function.update_self _ _ _
  refine ⟨?_, ?_, kept⟩
  · rw [chk, string_eq summed ended (by omega)]
    rfl
  · exact (sameBut_store s 0 (by omega)).trans (sameBut_readString summed ended (by omega))

/-- The check replaces this NUL; the end of line and another NUL come behind it. -/
theorem tail_stored (stored : Stored s.aB 0 (startChar :: head)) (c eol : Byte) :
    let s' := ((s.store (head.length + 1) c).store (head.length + 2) eol).store
      (head.length + 3) 0
    Stored s'.aB 0 (startChar :: head ++ [c, eol]) ∧
      s'.aB (0 + (startChar :: head ++ [c, eol]).length) = 0 := by
  have size : 0 + (startChar :: head).length = head.length + 1 := Nat.zero_add _
  constructor
  · have withEol := (stored.concat c).concat eol
    rw [List.length_append, ← Nat.add_assoc, size] at withEol
    rw [List.append_assoc] at withEol
    refine withEol.update ?_ 0
    simp
  · rw [List.length_append, ← Nat.add_assoc, size]
    exact Function.update_self _ _ _

theorem closeReply_replied (stored : Stored s.aB 0 (startChar :: head))
    (short : head.length ≤ 19) :
    Replied s (s.closeReply head.length)
      (startChar :: head ++ [tochar (chk1 head), s.recv.hisEol]) := by
  obtain ⟨check, same, kept⟩ := chk_closed stored short
  unfold closeReply
  dsimp only
  rw [check]
  generalize (s.store (head.length + 1) 0).readString 1 = summed at same kept
  refine same.replied ?_
  rw [← same.recv]
  obtain ⟨packet, ended⟩ := tail_stored kept (tochar (chk1 head)) summed.recv.hisEol
  have check := sameBut_store summed (tochar (chk1 head)) (show head.length + 1 < 24 by omega)
  have eol := check.trans
    (sameBut_store _ summed.recv.hisEol (show head.length + 2 < 24 by omega))
  have stores := eol.trans (sameBut_store _ 0 (show head.length + 3 < 24 by omega))
  refine stores.replied (s1SendPacket_replied packet ended ?_)
  rw [Nat.zero_add, List.length_append, List.length_cons]
  exact Nat.lt_of_le_of_lt (Nat.add_le_add_right (Nat.succ_le_succ short) 2) (by decide)

end Close

/-- **The end of a reply**: the packet that is sent is the one `KRecv` sends. -/
theorem finishReply_replied (stored : Stored s.aB 4 params) (short : params.length ≤ 16)
    (type : Byte) :
    Replied s (s.finishReply type (3 + params.length))
      (replyPacket (tochar s.recv.n) type params s.recv.hisEol) := by
  obtain ⟨same, headed⟩ := storeHeader_stored stored type
  have closed := closeReply_replied headed (by rw [replyFields_length]; omega)
  rw [replyFields_length] at closed
  rw [same.recv] at closed
  exact same.replied closed

/-! ### The ladder -/

/-- `a_b[++length] = c` for some characters. -/
theorem storeNext_stored (chars : List Byte) (stored : Stored s.aB 4 params)
    (short : params.length + chars.length ≤ 16) :
    SameBut s (storeNext chars (3 + params.length) s) ∧
      Stored (storeNext chars (3 + params.length) s).aB 4 (params ++ chars) := by
  induction chars generalizing s params with
  | nil => exact ⟨⟨rfl, rfl, rfl, rfl, fun x member => Or.inl member⟩, by rwa [List.append_nil]⟩
  | cons c chars ih =>
      rw [List.length_cons] at short
      have next := stored.concat c
      rw [show 4 + params.length = 3 + params.length + 1 by omega] at next
      have size : 3 + params.length + 1 = 3 + (params ++ [c]).length := by simp [Nat.add_assoc]
      obtain ⟨same, rest⟩ := ih (s := s.store (3 + params.length + 1) c) next
        (by rw [List.length_append, List.length_singleton]; omega)
      rw [← size] at same rest
      rw [List.append_assoc] at rest
      exact ⟨(sameBut_store s c (by omega)).trans same, rest⟩

/-- What the ladder leaves. -/
structure Climbed (s s' : KRecvInPlace) (taken : List Rung) (params : List Byte) : Prop where
  recv : s'.recv = taken.foldl (fun recv rung => rung.hear recv) s.recv
  replies : s'.replies = s.replies
  sendParmsUsed : s'.sendParmsUsed = s.sendParmsUsed ++ taken.flatMap Rung.looksAt
  lastSeq : s'.lastSeq = s.lastSeq
  stored : Stored s'.aB 4 (params ++ taken.flatMap Rung.answers)
  used : UsesWithin s s'

/-- **The ladder**: as many rungs as there are parameters, each answered behind the others. -/
theorem climb_climbed (rungs : List Rung) (bytes : Nat) (stored : Stored s.aB 4 params)
    (short : params.length + (rungs.flatMap Rung.answers).length ≤ 16) :
    ∃ s', climb rungs bytes (3 + params.length) s =
        (3 + (params ++ (rungs.take bytes).flatMap Rung.answers).length, s') ∧
      Climbed s s' (rungs.take bytes) params := by
  induction rungs generalizing s params bytes with
  | nil =>
      rw [List.take_nil, List.flatMap_nil, List.append_nil]
      refine ⟨s, rfl, rfl, rfl, (List.append_nil _).symm, rfl, ?_, fun x => Or.inl⟩
      rwa [List.flatMap_nil, List.append_nil]
  | cons rung rungs ih =>
      cases bytes with
      | zero =>
          rw [List.take_zero, List.flatMap_nil, List.append_nil]
          refine ⟨s, if_pos (Int.le_refl 0), rfl, rfl, (List.append_nil _).symm, rfl, ?_,
            fun x => Or.inl⟩
          rwa [List.flatMap_nil, List.append_nil]
      | succ bytes =>
          rw [List.flatMap_cons, List.length_append] at short
          obtain ⟨same, answered⟩ := storeNext_stored rung.answers (s := { s with
            recv := rung.hear s.recv
            sendParmsUsed := s.sendParmsUsed ++ rung.looksAt }) stored (by omega)
          obtain ⟨s', runs, rest⟩ := ih bytes answered
            (by rw [List.length_append]; omega)
          rw [List.length_append, ← Nat.add_assoc] at runs
          refine ⟨s', ?_, ?_, ?_, ?_, ?_, ?_, ?_⟩
          · rw [climb, if_neg (by omega), Int.natCast_succ, Int.add_sub_cancel, runs,
              List.take_succ_cons, List.flatMap_cons, List.append_assoc]
          · rw [rest.recv, same.recv, List.take_succ_cons, List.foldl_cons]
          · exact rest.replies.trans same.replies
          · rw [rest.sendParmsUsed, same.sendParmsUsed, List.take_succ_cons, List.flatMap_cons,
              List.append_assoc]
          · exact rest.lastSeq.trans same.lastSeq
          · rw [List.take_succ_cons, List.flatMap_cons, ← List.append_assoc]
            exact rest.stored
          · exact same.used.trans rest.used

theorem rungs_answers (bytes : Nat) :
    (rungs.take bytes).flatMap Rung.answers = (KRecv.answers.take bytes).flatten := by
  have same : KRecv.answers = rungs.map Rung.answers := rfl
  rw [same, ← List.map_take, List.flatMap_def]

theorem answers_split (bytes : Nat) : (KRecv.answers.take bytes).flatten ++
    (KRecv.answers.drop bytes).flatten = KRecv.answers.flatten := by
  rw [← List.flatten_append, List.take_append_drop]

theorem answers_short (bytes : Nat) : (KRecv.answers.take bytes).flatten.length ≤ 16 := by
  have whole := congrArg List.length (answers_split bytes)
  rw [List.length_append] at whole
  have total : KRecv.answers.flatten.length = 13 := rfl
  omega

theorem answers_printable (bytes : Nat) :
    ∀ c ∈ (KRecv.answers.take bytes).flatten, isControl c = false := by
  have all : ∀ c ∈ KRecv.answers.flatten, isControl c = false :=
    List.forall_iff_forall_mem.mp (by decide)
  intro c member
  refine all c ?_
  rw [← answers_split bytes]
  exact List.mem_append_left _ member

/-- What is remembered of the parameters. -/
theorem rungs_hear (recv : KRecv) (bytes : Nat) :
    (rungs.take bytes).foldl (fun recv rung => rung.hear recv)
        { recv with
          hisEol := endChar
          hisPadCount := 0
          hisPadChar := 0
          hisQuote := kEscape
          sendPtr := bytes } =
      { recv with
        sendPtr := bytes
        hisPadCount := if 3 ≤ bytes then untochar (recv.sendParms 2) else 0
        hisPadChar := if 4 ≤ bytes then ktrans (recv.sendParms 3) else 0
        hisEol := if 5 ≤ bytes then u8 (untochar (recv.sendParms 4)) else endChar
        hisQuote := if 6 ≤ bytes then recv.sendParms 5 else kEscape } := by
  rcases Nat.lt_or_ge bytes 10 with few | many
  · interval_cases bytes <;> rfl
  · rw [List.take_of_length_le many, if_pos (by omega), if_pos (by omega), if_pos (by omega),
      if_pos (by omega)]
    rfl

/-- **The answer to a send-init packet**: what is heard, and the packet that is sent then. -/
theorem handleSendPacket_replied (s : KRecvInPlace) {bytes : Nat}
    (isBytes : bytes = if s.recv.sendPtr = 19 then 18 else s.recv.sendPtr) :
    ∃ heard, Climbed s.startParms heard (rungs.take bytes) [] ∧
      Replied heard s.handleSendPacket (replyPacket (tochar heard.recv.n) ackType
        (KRecv.answers.take bytes).flatten heard.recv.hisEol) := by
  have nothing : Stored s.startParms.aB 4 [] := rfl
  obtain ⟨heard, runs, climbed⟩ := climb_climbed rungs bytes nothing (by decide)
  have stored := climbed.stored
  rw [List.nil_append, rungs_answers] at runs stored
  have short := answers_short bytes
  refine ⟨heard, climbed, ?_⟩
  have replied := finishReply_replied stored short ackType
  rw [handleSendPacket]
  rw [show s.startParms.recv.sendPtr = bytes from isBytes.symm]
  rw [show 3 = 3 + ([] : List Byte).length from rfl, runs]
  exact replied

theorem handleSendPacket_recv (s : KRecvInPlace) :
    s.handleSendPacket.recv = s.recv.handleSendPacket := by
  generalize isBytes : (if s.recv.sendPtr = 19 then 18 else s.recv.sendPtr) = bytes
  obtain ⟨heard, climbed, replied⟩ := handleSendPacket_replied s isBytes.symm
  have recv := climbed.recv
  rw [startParms, isBytes] at recv
  rw [replied.recv, recv, rungs_hear, KRecv.handleSendPacket, isBytes]
  rfl

/-- A reply without parameters. -/
theorem sendReply_replied (s : KRecvInPlace) (type : Byte) :
    Replied s (s.finishReply type 3) (replyPacket (tochar s.recv.n) type
      (KRecv.answers.take 0).flatten s.recv.hisEol) := by
  have nothing : Stored s.aB 4 [] := rfl
  exact finishReply_replied nothing (Nat.zero_le _) type

/-! ### The machine -/

theorem act_recv (s : KRecvInPlace) (c : Byte) : (s.act c).recv = s.recv.act c := by
  unfold act
  split
  · rfl
  · split <;> rfl
  · rfl

theorem packetError_recv (s : KRecvInPlace) : s.packetError.recv = s.recv.packetError :=
  congrArg KRecv.atHead (sendReply_replied _ nackType).recv

theorem accept_recv (s : KRecvInPlace) : s.accept.recv = s.recv.accept := by
  unfold accept KRecv.accept
  split
  · exact congrArg KRecv.atHead s.handleSendPacket_recv
  have acknowledged : s.sendAck.recv = s.recv.sendAck := (sendReply_replied s ackType).recv
  split
  · exact congrArg (KRecv.goto · _) acknowledged
  · exact congrArg KRecv.atHead acknowledged

/-- What a character can do. -/
theorem step_cases (s : KRecvInPlace) (c : Byte) :
    s.step c = s ∨ (∃ place, s.step c = s.goto place) ∨ s.step c = s.packetError ∨
      s.step c = s.accept ∨
      ∃ after, s.recv.place ≠ .finish ∧ s.recv.place.next c = some after ∧
        s.step c = (s.act c).goto after := by
  unfold step
  split
  · exact Or.inl rfl
  · split
    · exact Or.inr (Or.inl ⟨_, rfl⟩)
    split
    · exact Or.inr (Or.inl ⟨_, rfl⟩)
    · exact Or.inl rfl
  · split
    · exact Or.inr (Or.inr (Or.inl rfl))
    · next after next =>
        split
        · exact Or.inr (Or.inr (Or.inr (Or.inl rfl)))
        · next more => exact Or.inr (Or.inr (Or.inr (Or.inr ⟨after, more, next, rfl⟩)))

/-- **One character**: the same as without the buffer. -/
theorem step_recv (s : KRecvInPlace) (c : Byte) : (s.step c).recv = s.recv.step c := by
  unfold step KRecv.step
  cases s.recv.place with
  | done => rfl
  | wait =>
      dsimp only
      split
      · rfl
      · split <;> rfl
  | _ =>
      dsimp only
      generalize Place.next _ c = next
      cases next with
      | none => exact s.packetError_recv
      | some after =>
          dsimp only
          split
          · exact s.accept_recv
          · exact congrArg (KRecv.goto · after) (s.act_recv c)

theorem feed_recv (s : KRecvInPlace) (chars : List Byte) :
    (s.feed chars).recv = s.recv.feed chars := by
  induction chars generalizing s with
  | nil => rfl
  | cons c chars ih =>
      rw [KRecv.feed_cons, ← step_recv]
      exact ih (s.step c)

/-! ### Every reply -/

/-- What holds after each character. -/
structure Sound (s : KRecvInPlace) : Prop where
  aB : ∀ i ∈ s.aBUsed, i < 24
  sendParms : ∀ i ∈ s.sendParmsUsed, i < 20
  sendPtr : s.recv.sendPtr < 20
  seq : tochar s.recv.n = s.lastSeq
  printable : isControl s.lastSeq = false
  sent : s.recv.sent = s.replies.flatMap fun reply => reply.padding ++ reply.packet
  replies : ∀ reply ∈ s.replies, reply.WellFormed

theorem tochar_untochar (c : Byte) : tochar (untochar c) = c := by
  have all : ∀ n < 256, tochar (untochar (BitVec.ofNat 8 n)) = BitVec.ofNat 8 n := by
    decide +kernel
  have this := all c.toNat c.isLt
  rwa [BitVec.ofNat_toNat, BitVec.setWidth_eq] at this

/-- A state with the same `n`, `send_ptr` and replies. -/
theorem Sound.congr (sound : s.Sound) {recv : KRecv} (n : recv.n = s.recv.n)
    (sendPtr : recv.sendPtr < 20) (sent : recv.sent = s.recv.sent) :
    Sound { s with recv := recv } :=
  ⟨sound.aB, sound.sendParms, sendPtr, n ▸ sound.seq, sound.printable, sent ▸ sound.sent,
    sound.replies⟩

/-- **A reply is well formed.** -/
theorem Sound.replied (sound : s.Sound) {s' : KRecvInPlace} {count : Nat}
    (isReply : type = ackType ∨ type = nackType)
    (replied : Replied s s' (replyPacket (tochar s.recv.n) type
      (KRecv.answers.take count).flatten s.recv.hisEol)) : s'.Sound := by
  have printable : ∀ c ∈ s.lastSeq :: type :: (KRecv.answers.take count).flatten,
      isControl c = false := by
    intro c member
    rcases List.mem_cons.mp member with rfl | member
    · exact sound.printable
    rcases List.mem_cons.mp member with rfl | member
    · rcases isReply with rfl | rfl <;> decide
    · exact answers_printable count c member
  have short : (KRecv.answers.take count).flatten.length ≤ 91 :=
    (answers_short count).trans (by decide)
  rw [sound.seq] at replied
  have packet := sent_packet printable short s.recv.hisEol
  refine ⟨fun i member => ?_, ?_, ?_, ?_, ?_, ?_, fun reply member => ?_⟩
  · rcases replied.used i member with before | inside
    · exact sound.aB i before
    · exact inside
  · rw [replied.sendParmsUsed]
    exact sound.sendParms
  · rw [replied.recv]
    exact sound.sendPtr
  · rw [replied.recv, replied.lastSeq]
    exact sound.seq
  · rw [replied.lastSeq]
    exact sound.printable
  · rw [replied.recv, replied.replies, List.flatMap_append, ← sound.sent, KRecv.s1SendPacket,
      List.append_assoc]
    simp
  · rw [replied.replies] at member
    rcases List.mem_append.mp member with before | last
    · exact sound.replies reply before
    · rw [List.mem_singleton.mp last]
      exact ⟨type, count, [s.recv.hisEol].takeWhile (· ≠ 0), isReply,
        (List.takeWhile_sublist _).length_le, packet, Place.run_packet printable short⟩

theorem Sound.goto (sound : s.Sound) (place : Place) : (s.goto place).Sound :=
  sound.congr rfl sound.sendPtr rfl

theorem Sound.atHead (sound : s.Sound) : s.atHead.Sound :=
  sound.congr rfl (Nat.zero_lt_succ _) rfl

theorem Sound.sendReply (sound : s.Sound) (isReply : type = ackType ∨ type = nackType) :
    (s.finishReply type 3).Sound := sound.replied isReply (sendReply_replied s type)

theorem Sound.packetError (sound : s.Sound) : s.packetError.Sound := by
  have back : Sound { s with
      recv := { s.recv with kState := s.recv.kStateSaved, data := s.recv.dataSaved } } :=
    sound.congr rfl sound.sendPtr rfl
  exact (back.sendReply (Or.inr rfl)).atHead

/-- What is heard of the parameters. -/
theorem Sound.heard (sound : s.Sound) {heard : KRecvInPlace} {bytes : Nat}
    (climbed : Climbed s.startParms heard (rungs.take bytes) [])
    (isBytes : bytes = if s.recv.sendPtr = 19 then 18 else s.recv.sendPtr) : heard.Sound := by
  have recv := climbed.recv
  rw [startParms, ← isBytes] at recv
  dsimp only at recv
  rw [rungs_hear] at recv
  have looks : ∀ i ∈ (rungs.take bytes).flatMap Rung.looksAt, i < 20 := by
    have all : ∀ i ∈ rungs.flatMap Rung.looksAt, i < 20 := by decide
    intro i member
    obtain ⟨rung, taken, within⟩ := List.mem_flatMap.mp member
    exact all i (List.mem_flatMap.mpr ⟨rung, List.mem_of_mem_take taken, within⟩)
  have sendPtr := sound.sendPtr
  refine ⟨fun i member => ?_, fun i member => ?_, ?_, ?_, ?_, ?_, ?_⟩
  · rcases climbed.used i member with before | inside
    · exact sound.aB i before
    · exact inside
  · rw [climbed.sendParmsUsed] at member
    rcases List.mem_append.mp member with before | now
    · exact sound.sendParms i before
    · exact looks i now
  · rw [recv]
    dsimp only
    split at isBytes
    · omega
    · omega
  · rw [recv, climbed.lastSeq]
    exact sound.seq
  · rw [climbed.lastSeq]
    exact sound.printable
  · rw [recv, climbed.replies]
    exact sound.sent
  · rw [climbed.replies]
    exact sound.replies

theorem Sound.accept (sound : s.Sound) : s.accept.Sound := by
  unfold KRecvInPlace.accept
  split
  · obtain ⟨heard, climbed, replied⟩ := handleSendPacket_replied s rfl
    exact ((sound.heard climbed rfl).replied (Or.inl rfl) replied).atHead
  have acknowledged : s.sendAck.Sound := sound.sendReply (Or.inl rfl)
  split
  · exact acknowledged.goto _
  · exact acknowledged.atHead

/-- The sequence character. -/
theorem Sound.checkpoint (sound : s.Sound) (printable : isControl c = false) :
    Sound { s with recv := s.recv.checkpoint (untochar c), lastSeq := c } := by
  have kept : (s.recv.checkpoint (untochar c)).n = untochar c ∧
      (s.recv.checkpoint (untochar c)).sendPtr = s.recv.sendPtr ∧
      (s.recv.checkpoint (untochar c)).sent = s.recv.sent := by
    unfold KRecv.checkpoint
    split <;> exact ⟨rfl, rfl, rfl⟩
  obtain ⟨n, sendPtr, sent⟩ := kept
  refine ⟨sound.aB, sound.sendParms, ?_, ?_, printable, ?_, sound.replies⟩
  · dsimp only
    rw [sendPtr]
    exact sound.sendPtr
  · dsimp only
    rw [n, tochar_untochar]
  · dsimp only
    rw [sent]
    exact sound.sent

/-- A character of the data. -/
theorem put_kept (recv : KRecv) (c : Byte) (inside : recv.sendPtr < 20) :
    (recv.put c).n = recv.n ∧ (recv.put c).sendPtr < 20 ∧ (recv.put c).sent = recv.sent := by
  unfold KRecv.put
  split
  · unfold KRecv.kDataChar KRecv.osDataChar
    split
    · exact ⟨rfl, inside, rfl⟩
    · split
      · exact ⟨rfl, inside, rfl⟩
      · exact ⟨rfl, inside, rfl⟩
  split
  · refine ⟨rfl, ?_, rfl⟩
    unfold KRecv.saveParm
    dsimp only
    split
    · exact inside
    · next room => exact Nat.lt_of_not_le room
  · exact ⟨rfl, inside, rfl⟩

/-- A character that is taken. -/
theorem Sound.act (sound : s.Sound) {after : Place} (next : s.recv.place.next c = some after) :
    (s.act c).Sound := by
  cases here : s.recv.place with
  | seq sum length =>
      have printable : isControl c = false := by
        rw [here, Place.next] at next
        by_contra control
        rw [if_pos (by simpa using control)] at next
        cases next
      have acts : s.act c = { s with recv := s.recv.checkpoint (untochar c), lastSeq := c } := by
        rw [KRecvInPlace.act, KRecv.act, here]
      rw [acts]
      exact sound.checkpoint printable
  | body sum length =>
      obtain ⟨n, sendPtr, sent⟩ := put_kept s.recv c sound.sendPtr
      have put := sound.congr n sendPtr sent
      have acts : s.act c = if s.recv.kState = sendType then
          { s with
            recv := s.recv.put c
            sendParmsUsed := s.sendParmsUsed ++ [s.recv.sendPtr] }
          else { s with recv := s.recv.put c } := by
        rw [KRecvInPlace.act, KRecv.act, here]
      rw [acts]
      split
      · refine ⟨put.aB, fun i member => ?_, put.sendPtr, put.seq, put.printable, put.sent,
          put.replies⟩
        rcases List.mem_append.mp member with before | now
        · exact sound.sendParms i before
        · rw [List.mem_singleton.mp now]
          exact sound.sendPtr
      · exact put
  | type sum length =>
      have acts : s.act c = { s with recv := { s.recv with kState := c } } := by
        simp [KRecvInPlace.act, KRecv.act, here]
      rw [acts]
      exact sound.congr rfl sound.sendPtr rfl
  | _ =>
      have acts : s.act c = s := by
        rw [KRecvInPlace.act, KRecv.act, here]
      rw [acts]
      exact sound

/-- **One character.** -/
theorem Sound.step (sound : s.Sound) (c : Byte) : (s.step c).Sound := by
  rcases step_cases s c with same | ⟨place, same⟩ | same | same | ⟨after, -, next, same⟩
  · rw [same]
    exact sound
  · rw [same]
    exact sound.goto place
  · rw [same]
    exact sound.packetError
  · rw [same]
    exact sound.accept
  · rw [same]
    exact (sound.act next).goto after

theorem Sound.feed (sound : s.Sound) (chars : List Byte) : (s.feed chars).Sound := by
  induction chars generalizing s with
  | nil => exact sound
  | cons c chars ih => exact ih (sound.step c)

end KRecvInPlace

theorem sound_start (binStartAddress : Nat) (ram aB : Nat → Byte) :
    (kRecvInPlaceStart binStartAddress ram aB).Sound :=
  ⟨fun _ none => absurd none List.not_mem_nil, fun _ none => absurd none List.not_mem_nil,
    Nat.zero_lt_succ _, (by decide : tochar 0 = 0x20), (by decide : isControl 0x20 = false), rfl,
    fun _ none => absurd none List.not_mem_nil⟩

/-- **Every reply is well formed**, on every stream: `a_b` and `send_parms` are used within their
bounds, what is sent is the replies with their padding, and each is a packet that `k_recv` would
take, with the last sequence character that was read. -/
theorem replies_wellFormed (binStartAddress : Nat) (ram aB : Nat → Byte) (stream : List Byte) :
    ∃ s, s = (kRecvInPlaceStart binStartAddress ram aB).feed stream ∧
      s.recv = (kRecvStart binStartAddress ram).feed stream ∧
      (∀ i ∈ s.aBUsed, i < 24) ∧ (∀ i ∈ s.sendParmsUsed, i < 20) ∧
      (s.recv.sent = s.replies.flatMap fun reply => reply.padding ++ reply.packet) ∧
      ∀ reply ∈ s.replies, reply.WellFormed := by
  have sound := (sound_start binStartAddress ram aB).feed stream
  exact ⟨_, rfl, KRecvInPlace.feed_recv _ _, sound.aB, sound.sendParms, sound.sent, sound.replies⟩

end K210Guard
