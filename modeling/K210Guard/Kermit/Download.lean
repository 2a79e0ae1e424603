/-
**A Kermit download.**

* `Session.outcome` — what `k_recv` returns and leaves in memory, for every session: the unquoted
  data of the packets that no rejected transmission undoes.
* `Session.downloads_iff_arrived` — the download succeeds exactly if that is the file.
* `Session.downloads_of_keepsData` — **the file arrives** in every session in which no packet with
  data is undone; where one with two characters or more is, it does not.
* `borderDamage_loses` — a damaged end-of-file packet removes the data before it.

A packet is undone by a transmission that `k_recv` rejects at its border to the next packet: a
damaged repeat of the packet itself, or a damaged next packet whose number is not read. The error
goes back to the checkpoint, which was taken before the packet, although it has been acknowledged.
-/

import K210Guard.Kermit.ReceiverSpec

namespace K210Guard

/-! ### Runs -/

/-- The ledger of `kRecvStart`. -/
def Ledger.first : Ledger := ⟨kEscape, none, ([], false), ([], false)⟩

section Runs

variable {start number : Nat} {s : KRecv} {ledger : Ledger}

theorem kRecvStart_refines (start : Nat) (ram : Nat → Byte) :
    Refines start (kRecvStart start ram) Ledger.first :=
  ⟨rfl, rfl, rfl, rfl, rfl, rfl, rfl, rfl, rfl⟩

/-- One transmission of a packet that does not end the session. -/
theorem Refines.transmission (refines : Refines start s ledger) (packet : Packet)
    (small : number < 64) (goesOn : packet.kind ≠ breakType) {sent : Transmission}
    (detected : sent.Detected number) :
    Refines start (s.feed (sent.wire (packet.chars number)))
      (Ledger.receive packet number ledger sent) := by
  cases sent with
  | intact noise => exact refines.intact packet small detected goesOn
  | damaged noise garbled => exact refines.damaged packet _ small detected

theorem Refines.exchange (refines : Refines start s ledger) (exchange : Exchange)
    (goesOn : exchange.packet.kind ≠ breakType) :
    Refines start (s.feed exchange.wire) (ledger.exchange exchange) := by
  have detected := exchange.detected
  unfold Exchange.wire Ledger.exchange
  generalize exchange.sent = sent at detected
  induction sent generalizing s ledger with
  | nil => exact refines
  | cons first rest ih =>
      rw [List.flatMap_cons, KRecv.feed_append]
      refine ih ?_ fun transmission member => detected transmission (List.mem_cons_of_mem _ member)
      exact refines.transmission _ exchange.number.isLt goesOn (detected first List.mem_cons_self)

theorem Refines.exchanges (refines : Refines start s ledger) {exchanges : List Exchange}
    (goOn : ∀ exchange ∈ exchanges, exchange.packet.kind ≠ breakType) :
    Refines start (s.feed (exchanges.flatMap Exchange.wire))
      (exchanges.foldl Ledger.exchange ledger) := by
  induction exchanges generalizing s ledger with
  | nil => exact refines
  | cons first rest ih =>
      rw [List.flatMap_cons, KRecv.feed_append]
      refine ih ?_ fun exchange member => goOn exchange (List.mem_cons_of_mem _ member)
      exact refines.exchange first (goOn first List.mem_cons_self)

/-- Nothing is read any more when `k_recv` has returned. -/
theorem KRecv.feed_done {result : Int} (done : s.place = .done result) (chars : List Byte) :
    s.feed chars = s := by
  induction chars with
  | nil => rfl
  | cons c chars ih =>
      have stays : s.step c = s := by
        unfold step
        rw [done]
      rw [feed_cons, stays, ih]

/-- **The break packet**, up to its first intact transmission. -/
theorem Refines.closing (refines : Refines start s ledger) (exchange : Exchange)
    (ends : exchange.packet.kind = breakType) :
    (s.feed exchange.wire).place =
        .done (int32 (ledger.entry exchange.number exchange.sent).1.length) ∧
      Stored (s.feed exchange.wire).ram start
        (ledger.entry exchange.number exchange.sent).1 := by
  have detected := exchange.detected
  have acknowledged := exchange.acknowledged
  unfold Exchange.wire
  generalize exchange.sent = sent at detected acknowledged
  induction sent generalizing s ledger with
  | nil =>
      obtain ⟨transmission, member, _⟩ := acknowledged
      exact absurd member List.not_mem_nil
  | cons first rest ih =>
      have known := detected first List.mem_cons_self
      have later := fun transmission member =>
        detected transmission (List.mem_cons_of_mem first member)
      rw [List.flatMap_cons, KRecv.feed_append]
      cases first with
      | intact noise =>
          obtain ⟨done, stored⟩ := refines.breaks exchange.packet exchange.number.isLt known ends
          rw [KRecv.feed_done done]
          exact ⟨done, stored⟩
      | damaged noise garbled =>
          have received := refines.damaged exchange.packet (exchange.packet.chars exchange.number)
            exchange.number.isLt known
          obtain ⟨saved, next⟩ := Ledger.receive_base exchange.packet exchange.number ledger
            (.damaged noise garbled)
          have remains : ∃ transmission ∈ rest, transmission.isIntact = true := by
            obtain ⟨transmission, member, intact⟩ := acknowledged
            rcases List.mem_cons.mp member with rfl | member
            · exact absurd intact Bool.false_ne_true
            · exact ⟨transmission, member, intact⟩
          have entered : (Ledger.receive exchange.packet exchange.number ledger
              (.damaged noise garbled)).entry exchange.number rest =
                ledger.entry exchange.number (.damaged noise garbled :: rest) := by
            rw [Ledger.entry, saved, next, ite_self]
            rfl
          rw [← entered]
          exact ih received later remains

end Runs

/-! ### Sessions -/

namespace Session

variable (session : Session) (start : Nat) (ram : Nat → Byte)

/-- The quote character of a session. -/
def quote : Byte := session.opening.packet.announces kEscape

/-- What is left of the file. -/
def arrived : List Byte :=
  (unquote session.quote ([], false) (kept (session.packets ++ [session.closing]))).1

/-- `k_recv` at the end of a session. -/
def final : KRecv := (kRecvStart start ram).feed session.wire

/-- **What `k_recv` returns and leaves in memory.** -/
theorem outcome : (session.final start ram).place = .done (int32 session.arrived.length) ∧
    Stored (session.final start ram).ram start session.arrived := by
  have opened := (kRecvStart_refines start ram).exchange session.opening
    (by rw [session.opens]; decide)
  have middle := opened.exchanges fun exchange member => (session.between exchange member).2
  have closed := middle.closing session.closing session.closes
  have consecutive := session.consecutive
  obtain ⟨first, rest, listed⟩ := exists_first session.packets session.closing
  -- the send-init packet stores nothing and announces the quote
  have quote : (Ledger.first.exchange session.opening).quote = session.quote :=
    (Ledger.receive_acknowledged _ _ _ session.opening.acknowledged).2 session.opens
  have entry : (Ledger.first.exchange session.opening).entry first.number first.sent =
      ([], false) := by
    rw [List.cons_append, listed, List.isChain_cons_cons] at consecutive
    have empty : session.opening.packet.carries = [] := by
      rw [Packet.carries, session.opens, if_neg (by decide)]
    rw [Ledger.entry_exchange _ consecutive.1, empty, ite_self]
    show Ledger.entry _ _ _ = _
    rw [Ledger.entry, Ledger.base]
    split
    · rfl
    · split <;> rfl
  have left := Ledger.exchanges_entry (Ledger.first.exchange session.opening) listed
    (List.IsChain.of_cons consecutive) fun exchange member => (session.between exchange member).1
  rw [left, entry, quote, ← KRecv.feed_append, ← KRecv.feed_append, ← List.append_assoc] at closed
  exact closed

/-- The result is the length of the file, and the file is in memory. -/
def Downloads : Prop :=
  (session.final start ram).place = .done session.file.length ∧
    readRange (session.final start ram).ram start session.file.length = session.file

/-- The file is what the data of all packets unquotes to. -/
theorem unquote_carriedBy :
    unquote session.quote ([], false) (carriedBy session.packets) = (session.file, false) := by
  rw [session.carried]
  exact unquote_encode session.legal [] session.file

theorem stored_carriedBy :
    stored session.quote false (carriedBy session.packets) = session.file.length := by
  have length := unquote_length session.quote ([], false) (carriedBy session.packets)
  rw [unquote_carriedBy] at length
  exact (Nat.zero_add _).symm.trans length.symm

theorem arrived_length : session.arrived.length =
    stored session.quote false (kept (session.packets ++ [session.closing])) :=
  (unquote_length session.quote ([], false) _).trans (Nat.zero_add _)

theorem int32_of_small {value : Nat} (small : value < 2 ^ 31) : int32 value = value := by
  rw [int32, BitVec.toInt_ofNat', Int.bmod_eq_of_le]
  · omega
  · omega

theorem arrived_length_le : session.arrived.length ≤ session.file.length := by
  rw [arrived_length, ← stored_carriedBy]
  exact stored_kept_le _ _

/-- The file is there exactly if the data that is left still unquotes to it. -/
theorem downloads_iff_arrived : session.Downloads start ram ↔
    session.arrived = session.file ∧ session.file.length < 2 ^ 31 := by
  obtain ⟨place, stored⟩ := session.outcome start ram
  constructor
  · rintro ⟨result, file⟩
    have size : int32 session.arrived.length = session.file.length :=
      Place.done.inj (place.symm.trans result)
    have small : session.file.length < 2 ^ 31 := by
      have bound : int32 session.arrived.length < 2 ^ 31 := BitVec.toInt_lt
      omega
    rw [int32_of_small (Nat.lt_of_le_of_lt session.arrived_length_le small)] at size
    have same : session.arrived.length = session.file.length := Int.ofNat.inj size
    rw [Stored, same] at stored
    exact ⟨stored.symm.trans file, small⟩
  · rintro ⟨whole, small⟩
    rw [whole] at place stored
    exact ⟨place.trans (by rw [int32_of_small small]), stored⟩

/-- **The file arrives if no packet with data is undone**, and only if none with two characters or
more is. -/
theorem downloads_of_keepsData :
    (session.KeepsData ∧ session.file.length < 2 ^ 31 → session.Downloads start ram) ∧
      (session.Downloads start ram →
        (session.packets ++ [session.closing]).IsChain (fun exchange following =>
          exchange.undoneBy following = true → exchange.packet.carries.length ≤ 1) ∧
        session.file.length < 2 ^ 31) := by
  refine ⟨fun ⟨keeps, small⟩ => ?_, fun downloads => ?_⟩
  · have whole : session.arrived = session.file := by
      rw [arrived, kept_eq_of_chain keeps, unquote_carriedBy]
    exact (session.downloads_iff_arrived start ram).mpr ⟨whole, small⟩
  · obtain ⟨whole, small⟩ := (session.downloads_iff_arrived start ram).mp downloads
    refine ⟨chain_of_stored_le session.quote false ?_, small⟩
    rw [stored_carriedBy, ← arrived_length, whole]

/-- A packet of a type without data. -/
def bare (kind : Byte) (printable : isControl kind = false) : Packet where
  kind := kind
  data := []
  extended := false
  printable := fun c member => by rw [List.mem_singleton.mp member]; exact printable
  fits := Nat.zero_le _

/-- The letter A and NUL in two packets; errors and repeats everywhere but right behind the data. -/
def rough : Session where
  file := [0x41, 0x00]
  opening := ⟨bare sendType rfl, 63,
    [.damaged [0x0D] [0x23, 0x5F, 0x1F], .intact [], .damaged [] [0x10]], by decide, by decide⟩
  packets :=
    [⟨⟨dataType, [0x41, 0x23], false, by decide, by decide⟩, 0,
      [.damaged [] [0x10], .damaged [0x41] [0x25, 0x20, 0x44, 0x42, 0x42, 0x1F], .intact [0x0D],
        .damaged [] [0x1F], .intact []], by decide, by decide⟩,
    ⟨⟨dataType, [0x40], true, by decide, by decide⟩, 1,
      [.damaged [] [0x20, 0x21, 0x44, 0x10], .intact [], .intact []], by decide, by decide⟩,
    ⟨bare 0x5A rfl, 2, [.intact [], .damaged [] [0x23, 0x22, 0x42, 0x10]], by decide, by decide⟩]
  closing := ⟨bare breakType rfl, 3, [.damaged [] [0x10], .intact []], by decide, by decide⟩
  opens := rfl
  closes := rfl
  between := by decide
  consecutive := by decide
  legal := by decide
  carried := by decide

theorem rough_downloads : rough.Downloads 0x80000000 fun _ => 0 :=
  (rough.downloads_of_keepsData 0x80000000 fun _ => 0).1 ⟨by unfold KeepsData; decide, by decide⟩

/-- The letter A; the length character of the end-of-file packet is damaged once. -/
def borderDamage : Session where
  file := [0x41]
  opening := ⟨bare sendType rfl, 0, [.intact []], by decide, by decide⟩
  packets :=
    [⟨⟨dataType, [0x41], false, by decide, by decide⟩, 1, [.intact []], by decide, by decide⟩,
    ⟨bare 0x5A rfl, 2, [.damaged [] [0x1F], .intact []], by decide, by decide⟩]
  closing := ⟨bare breakType rfl, 3, [.intact []], by decide, by decide⟩
  opens := rfl
  closes := rfl
  between := by decide
  consecutive := by decide
  legal := by decide
  carried := by decide

/-- All packets are acknowledged, and the result is 0. -/
theorem borderDamage_loses :
    ¬ ∀ (session : Session) (start : Nat) (ram : Nat → Byte), session.Downloads start ram := by
  intro downloads
  have result := (downloads borderDamage 0x80000000 fun _ => 0).1
  have lost : (borderDamage.final 0x80000000 fun _ => 0).place = .done 0 := by decide
  exact absurd (lost.symm.trans result) (by decide)

end Session

end K210Guard
