/-
**The Kermit receiver** (`k_recv` of `cli/load.c`).

`k_recv` reads one character after the other; here it is a machine that takes them one by one. Its
place in the code carries the locals that are live there. A packet is taken apart by `Place.next`,
in which every `goto packet_error` is a `none`; what is done with a character is `KRecv.act`.

Data characters are stored as they arrive, before the checksum is known. The sequence character of
a packet decides what becomes of them: a new one takes a checkpoint, the last one again goes back to
it, and so does every error. `char` is unsigned, as on the target; `os_data_state` is always 0 and
left out.
-/

import Mathlib.Logic.Function.Basic
import K210Guard.Flash.Driver
import K210Guard.Kermit.Quoting

namespace K210Guard

/-! ### Characters -/

def startChar : Byte := 0x01
def etxChar : Byte := 0x03
def endChar : Byte := 0x0D
def kEscape : Byte := 0x23
def sendType : Byte := 0x53
def dataType : Byte := 0x44
def ackType : Byte := 0x59
def nackType : Byte := 0x4E
def breakType : Byte := 0x42

def tochar (x : Nat) : Byte := u8 (x + 32)

def untochar (x : Byte) : Nat := (x - 32#8).toNat

/-- Characters below the space are errors in a packet. -/
def isControl (c : Byte) : Bool := c &&& 0xE0 = 0

/-- The type-1 check of a sum. -/
def checkChar (sum : Nat) : Byte := tochar ((sum + ((sum >>> 6) &&& 0x03)) &&& 0x3F)

/-- The sum of some characters. -/
def charSum (chars : List Byte) : Nat := (chars.map BitVec.toNat).sum

/-- `chk1`, for a string that ends at its first NUL. -/
def chk1 (buffer : List Byte) : Nat :=
  let total := charSum (buffer.takeWhile (· ≠ 0))
  (total + ((total >>> 6) &&& 0x03)) &&& 0x3F

/-! ### Places -/

/-- Where `k_recv` waits for a character, with the locals it still needs. -/
inductive Place
  | wait
  | len
  | seq (sum : Nat) (length : Int)
  | type (sum : Nat) (length : Int)
  | lenHi (sum : Nat)
  | lenLo (sum high : Nat)
  | headerCheck (sum : Nat) (length : Int)
  | body (sum : Nat) (length : Int)
  | check (sum : Nat)
  | finish
  | done (result : Int)
  deriving DecidableEq

namespace Place

/-- The head of the loop that brings in the rest of the packet. -/
def rest (sum : Nat) (length : Int) : Place := if length > 1 then .body sum length else .check sum

/-- The next place in a packet; `none` is `packet_error`. -/
def next : Place → Byte → Option Place
  | .len, c => if isControl c then none else some (.seq c.toNat (untochar c))
  | .seq sum length, c =>
      if isControl c then none else some (.type (sum + c.toNat) (length - 1))
  | .type sum length, c =>
      if isControl c then none
      else if length - 1 = -2 then some (.lenHi (sum + c.toNat))
      else some (rest (sum + c.toNat) (length - 1))
  | .lenHi sum, c => if isControl c then none else some (.lenLo (sum + c.toNat) (untochar c))
  | .lenLo sum high, c =>
      if isControl c then none
      else some (.headerCheck (sum + c.toNat) (high * 95 + untochar c : Nat))
  | .headerCheck sum length, c =>
      if isControl c then none
      else if c ≠ checkChar sum then none
      else some (rest (sum + c.toNat) length)
  | .body sum length, c =>
      if isControl c then none else some (rest (sum + c.toNat) (length - 1))
  | .check sum, c =>
      if isControl c then none else if c ≠ checkChar sum then none else some .finish
  | .finish, c => if c ≠ endChar then none else some .wait
  | place, _ => some place

/-- Characters after a START that end in `packet_error`, at the last of them. -/
def rejects : Place → List Byte → Bool
  | _, [] => false
  | place, c :: chars =>
      match place.next c with
      | none => chars.isEmpty
      | some after => after.rejects chars

end Place

/-! ### State -/

/-- `os_data_addr` and `k_data_escape`. -/
structure Cursor where
  addr : Nat
  escape : Bool
  deriving DecidableEq

structure KRecv where
  place : Place
  n : Nat
  /-- `last_n`; `none` is -1. -/
  lastN : Option Nat
  kState : Byte
  kStateSaved : Byte
  data : Cursor
  dataSaved : Cursor
  binStartAddress : Nat
  ram : Nat → Byte
  hisEol : Byte
  hisPadCount : Nat
  hisPadChar : Byte
  hisQuote : Byte
  sendParms : Nat → Byte
  sendPtr : Nat
  /-- What was sent to the UART. -/
  sent : List Byte

/-- `k_recv` before the first character. -/
def kRecvStart (binStartAddress : Nat) (ram : Nat → Byte) : KRecv where
  place := .wait
  n := 0
  lastN := none
  kState := 0
  kStateSaved := 0
  data := ⟨binStartAddress, false⟩
  dataSaved := ⟨binStartAddress, false⟩
  binStartAddress := binStartAddress
  ram := ram
  hisEol := endChar
  hisPadCount := 0
  hisPadChar := 0
  hisQuote := kEscape
  sendParms := fun _ => 0
  sendPtr := 0
  sent := []

namespace KRecv

/-! ### Replies -/

/-- The padding, then a packet up to its first NUL. -/
def s1SendPacket (s : KRecv) (packet : List Byte) : KRecv :=
  { s with
    sent := s.sent ++ List.replicate s.hisPadCount s.hisPadChar ++ packet.takeWhile (· ≠ 0) }

/-- A reply without data. -/
def sendReply (s : KRecv) (type : Byte) : KRecv :=
  let head := [tochar 3, tochar s.n, type]
  s.s1SendPacket (startChar :: head ++ [tochar (chk1 head), s.hisEol])

def sendAck (s : KRecv) : KRecv := s.sendReply ackType

def sendNack (s : KRecv) : KRecv := s.sendReply nackType

/-- The parameters of the reply to a send-init packet, in the order they are answered. -/
def answers : List (List Byte) :=
  [[tochar 94], [tochar 1], [tochar 0], [0x40], [tochar 0x0D], [0x23], [0x4E], [0x31], [0x4E],
    [tochar 2, tochar 0, tochar 94, tochar 94]]

/-- `bytes` parameters are looked at, the last one not if it filled the buffer. -/
def handleSendPacket (s : KRecv) : KRecv :=
  let bytes := if s.sendPtr = 19 then 18 else s.sendPtr
  let params := (answers.take bytes).flatten
  let heard := { s with
    sendPtr := bytes
    hisPadCount := if 3 ≤ bytes then untochar (s.sendParms 2) else 0
    hisPadChar := if 4 ≤ bytes then ktrans (s.sendParms 3) else 0
    hisEol := if 5 ≤ bytes then u8 (untochar (s.sendParms 4)) else endChar
    hisQuote := if 6 ≤ bytes then s.sendParms 5 else kEscape }
  let head := [tochar (3 + params.length), tochar s.n, ackType] ++ params
  heard.s1SendPacket (startChar :: head ++ [tochar (chk1 head), heard.hisEol])

/-! ### Data -/

def osDataChar (s : KRecv) (c : Byte) : KRecv :=
  { s with
    ram := Function.update s.ram s.data.addr c
    data := { s.data with addr := s.data.addr + 1 } }

def kDataChar (s : KRecv) (c : Byte) : KRecv :=
  if s.data.escape then
    let stored := s.osDataChar (ktrans c)
    { stored with data := { stored.data with escape := false } }
  else if c = s.hisQuote then
    { s with data := { s.data with escape := true } }
  else
    s.osDataChar c

/-- `send_parms` holds 20 characters; the pointer stays on the last one. -/
def saveParm (s : KRecv) (c : Byte) : KRecv :=
  { s with
    sendParms := Function.update s.sendParms s.sendPtr c
    sendPtr := if s.sendPtr + 1 ≥ 20 then s.sendPtr else s.sendPtr + 1 }

/-! ### The machine -/

/-- The sequence check: a repeat goes back to the checkpoint, a new packet takes one. -/
def checkpoint (s : KRecv) (n : Nat) : KRecv :=
  if s.lastN = some n then
    { s with n := n, kState := s.kStateSaved, data := s.dataSaved }
  else
    { s with n := n, lastN := some n, kStateSaved := s.kState, dataSaved := s.data }

/-- A character of the data: passed on in a data packet, saved in a send-init packet. -/
def put (s : KRecv) (c : Byte) : KRecv :=
  if s.kState = dataType then s.kDataChar c
  else if s.kState = sendType then s.saveParm c
  else s

/-- What is done with a character that the packet allows at its place. -/
def act (s : KRecv) (c : Byte) : KRecv :=
  match s.place with
  | .seq .. => s.checkpoint (untochar c)
  | .type .. => { s with kState := c }
  | .body .. => s.put c
  | _ => s

def goto (s : KRecv) (place : Place) : KRecv := { s with place := place }

/-- The head of the main loop. -/
def atHead (s : KRecv) : KRecv := { s with place := .wait, sendPtr := 0 }

def packetError (s : KRecv) : KRecv :=
  { s with kState := s.kStateSaved, data := s.dataSaved }.sendNack.atHead

/-- A packet that passed all checks. -/
def accept (s : KRecv) : KRecv :=
  if s.kState = sendType then s.handleSendPacket.atHead
  else if s.kState = breakType then
    s.sendAck.goto (.done (int32 (s.data.addr - s.binStartAddress)))
  else s.sendAck.atHead

/-- One character. -/
def step (s : KRecv) (c : Byte) : KRecv :=
  match s.place with
  | .done _ => s
  | .wait =>
      if c = startChar then s.goto .len
      else if c = etxChar then s.goto (.done 0)
      else s
  | place =>
      match place.next c with
      | none => s.packetError
      | some after => if place = .finish then s.accept else (s.act c).goto after

/-- Some characters. -/
def feed (s : KRecv) (chars : List Byte) : KRecv := chars.foldl step s

theorem feed_append (s : KRecv) (first rest : List Byte) :
    s.feed (first ++ rest) = (s.feed first).feed rest := List.foldl_append

@[simp] theorem feed_nil (s : KRecv) : s.feed [] = s := rfl

theorem feed_cons (s : KRecv) (c : Byte) (chars : List Byte) :
    s.feed (c :: chars) = (s.step c).feed chars := rfl

end KRecv

end K210Guard
