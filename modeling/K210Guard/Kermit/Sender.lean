/-
**A stop-and-wait Kermit sender.**

The sender this module describes is not part of the repository: it is any program that sends a file
to `k_recv` by the Kermit rules. It sends a packet as often as it likes and goes on to the next one
only after an intact transmission. What is on the line is cut into transmissions:

* an intact one is the packet between START and END, behind some noise that `k_recv` skips,
* a damaged one is anything behind a START that `k_recv` rejects at its last character, with the
  sequence character of the packet if `k_recv` gets past it. What follows the rejected character
  counts as noise of the next transmission.

A `Session` is a whole download: the send-init packet, the packets with the file, the break packet.
-/

import Mathlib.Data.List.Chain
import K210Guard.Kermit.Receiver

namespace K210Guard

/-! ### Packets -/

/-- A packet of printable characters that its length field can tell. -/
structure Packet where
  kind : Byte
  data : List Byte
  extended : Bool
  printable : ∀ c ∈ kind :: data, isControl c = false
  fits : data.length ≤ if extended then 9023 else 91

namespace Packet

/-- The characters before the data. -/
def header (packet : Packet) (number : Nat) : List Byte :=
  if packet.extended then
    let size := packet.data.length + 1
    let fields := [tochar 0, tochar number, packet.kind, tochar (size / 95), tochar (size % 95)]
    fields ++ [checkChar (charSum fields)]
  else
    [tochar (packet.data.length + 3), tochar number, packet.kind]

/-- The packet from its length character on. -/
def chars (packet : Packet) (number : Nat) : List Byte :=
  let summed := packet.header number ++ packet.data
  summed ++ [checkChar (charSum summed), endChar]

/-- The part of the file in a packet. -/
def carries (packet : Packet) : List Byte := if packet.kind = dataType then packet.data else []

/-- The quote character after a packet. -/
def announces (packet : Packet) (quote : Byte) : Byte :=
  if packet.kind = sendType then packet.data.getD 5 kEscape else quote

end Packet

/-! ### Transmissions -/

inductive Transmission
  | intact (noise : List Byte)
  | damaged (noise garbled : List Byte)

/-- Characters that `k_recv` skips between two packets. -/
def Quiet (noise : List Byte) : Prop := ∀ c ∈ noise, c ≠ startChar ∧ c ≠ etxChar

instance (noise : List Byte) : Decidable (Quiet noise) := List.decidableBAll _ noise

namespace Transmission

/-- What a transmission puts on the line. -/
def wire (chars : List Byte) : Transmission → List Byte
  | intact noise => noise ++ startChar :: chars
  | damaged noise garbled => noise ++ startChar :: garbled

/-- The damage the receiver can recognise. -/
def Detected (number : Nat) : Transmission → Prop
  | intact noise => Quiet noise
  | damaged noise garbled =>
      Quiet noise ∧ Place.len.rejects garbled = true ∧
        (3 ≤ garbled.length → garbled[1]? = some (tochar number))

instance (number : Nat) (sent : Transmission) : Decidable (sent.Detected number) := by
  cases sent <;> unfold Detected <;> infer_instance

def isIntact : Transmission → Bool
  | intact _ => true
  | damaged .. => false

/-- Rejected before the sequence number is known. -/
def isEarly : Transmission → Bool
  | intact _ => false
  | damaged _ garbled => garbled.length ≤ 2

end Transmission

/-! ### Exchanges -/

/-- A packet with its number and all its transmissions. -/
structure Exchange where
  packet : Packet
  number : Fin 64
  sent : List Transmission
  detected : ∀ transmission ∈ sent, transmission.Detected number
  acknowledged : ∃ transmission ∈ sent, transmission.isIntact = true

namespace Exchange

def wire (exchange : Exchange) : List Byte :=
  exchange.sent.flatMap (Transmission.wire (exchange.packet.chars exchange.number))

/-- The first transmission is rejected before its sequence number is known. -/
def opensEarly (exchange : Exchange) : Bool := exchange.sent.head?.any Transmission.isEarly

/-- The last transmission, sent after an acknowledgement was lost, is damaged. -/
def endsDamaged (exchange : Exchange) : Bool := !exchange.sent.getLast?.any Transmission.isIntact

/-- A rejected transmission at the border of two packets. -/
def undoneBy (exchange following : Exchange) : Bool :=
  exchange.endsDamaged || following.opensEarly

end Exchange

/-- The data of some packets. -/
def carriedBy (exchanges : List Exchange) : List Byte :=
  (exchanges.map fun exchange => exchange.packet.carries).flatten

theorem carriedBy_cons (exchange : Exchange) (rest : List Exchange) :
    carriedBy (exchange :: rest) = exchange.packet.carries ++ carriedBy rest := rfl

/-- The data of the packets that have no rejected transmission at their border to the next. -/
def kept : List Exchange → List Byte
  | exchange :: following :: rest =>
      (if exchange.undoneBy following then [] else exchange.packet.carries) ++
        kept (following :: rest)
  | _ => []

theorem exists_first (exchanges : List Exchange) (last : Exchange) :
    ∃ first rest, exchanges ++ [last] = first :: rest :=
  List.exists_cons_of_ne_nil
    (List.append_ne_nil_of_right_ne_nil exchanges (List.cons_ne_nil last []))

/-! ### Sessions -/

/-- A whole download. -/
structure Session where
  file : List Byte
  opening : Exchange
  /-- The file header, the data and the end of the file. -/
  packets : List Exchange
  closing : Exchange
  opens : opening.packet.kind = sendType
  closes : closing.packet.kind = breakType
  between : ∀ exchange ∈ packets,
    exchange.packet.kind ≠ sendType ∧ exchange.packet.kind ≠ breakType
  consecutive : (opening :: packets ++ [closing]).IsChain fun exchange following =>
    following.number = exchange.number + 1
  legal : LegalQuote (opening.packet.announces kEscape)
  carried : carriedBy packets = encode (opening.packet.announces kEscape) file

namespace Session

def wire (session : Session) : List Byte :=
  session.opening.wire ++ session.packets.flatMap Exchange.wire ++ session.closing.wire

/-- No packet with data has a rejected transmission at its border to the next. -/
def KeepsData (session : Session) : Prop :=
  (session.packets ++ [session.closing]).IsChain fun exchange following =>
    exchange.undoneBy following = true → exchange.packet.carries = []

end Session

end K210Guard
