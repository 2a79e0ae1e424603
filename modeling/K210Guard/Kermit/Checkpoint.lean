/-
**One checkpoint.**

What `k_recv` does, without characters: a `Ledger` holds the bytes stored so far and those of the
checkpoint, each with a pending quote. A transmission that gets to its sequence number goes on from
`Ledger.base`, and an error goes back to the checkpoint.

* `Ledger.exchange_saved`, `Ledger.exchange_now` — what all the transmissions of a packet leave,
  whatever their number and damage.
* `Ledger.exchanges_entry` — **what a list of packets leaves**: the unquoted data of those that have
  no rejected transmission at their border to the next.
* `kept_eq_of_chain`, `chain_of_stored_le` — no data undone leaves all of it, a packet with two
  characters undone leaves less.
-/

import K210Guard.Kermit.Sender

namespace K210Guard

/-! ### The ledger -/

structure Ledger where
  quote : Byte
  lastN : Option Nat
  now : Unquoted
  saved : Unquoted

namespace Ledger

/-- Where a packet with a readable number goes on from. -/
def base (ledger : Ledger) (number : Nat) : Unquoted :=
  if ledger.lastN = some number then ledger.saved else ledger.now

/-- One transmission. -/
def receive (packet : Packet) (number : Nat) (ledger : Ledger) (sent : Transmission) : Ledger :=
  if sent.isEarly then { ledger with now := ledger.saved }
  else if sent.isIntact then
    { quote := packet.announces ledger.quote
      lastN := some number
      now := unquote ledger.quote (ledger.base number) packet.carries
      saved := ledger.base number }
  else
    { ledger with
      lastN := some number
      now := ledger.base number
      saved := ledger.base number }

theorem receive_early (packet : Packet) (number : Nat) (ledger : Ledger) {sent : Transmission}
    (early : sent.isEarly = true) :
    receive packet number ledger sent = { ledger with now := ledger.saved } := if_pos early

theorem receive_late (packet : Packet) (number : Nat) (ledger : Ledger) {sent : Transmission}
    (late : sent.isEarly = false) (damaged : sent.isIntact = false) :
    receive packet number ledger sent =
      ⟨ledger.quote, some number, ledger.base number, ledger.base number⟩ := by
  rw [receive, late, damaged]
  rfl

theorem receive_intact (packet : Packet) (number : Nat) (ledger : Ledger) (noise : List Byte) :
    receive packet number ledger (.intact noise) =
      ⟨packet.announces ledger.quote, some number,
        unquote ledger.quote (ledger.base number) packet.carries, ledger.base number⟩ := rfl

/-- All transmissions of a packet. -/
def exchange (ledger : Ledger) (exchange : Exchange) : Ledger :=
  exchange.sent.foldl (receive exchange.packet exchange.number) ledger

/-- What the data of a packet is put behind, by its first transmission. -/
def entry (ledger : Ledger) (number : Nat) (sent : List Transmission) : Unquoted :=
  if sent.head?.any Transmission.isEarly then ledger.saved else ledger.base number

/-! ### One packet -/

section Packet

variable (packet : Packet) (number : Nat) (ledger : Ledger)

theorem isIntact_of_isEarly {sent : Transmission} (early : sent.isEarly = true) :
    sent.isIntact = false := by
  cases sent with
  | intact noise => exact absurd early Bool.false_ne_true
  | damaged noise garbled => rfl

/-- After a transmission the same packet always goes on from the checkpoint. -/
theorem receive_base (sent : Transmission) :
    (receive packet number ledger sent).saved = ledger.entry number [sent] ∧
      (receive packet number ledger sent).base number = ledger.entry number [sent] := by
  have entered : ledger.entry number [sent] =
      if sent.isEarly then ledger.saved else ledger.base number := by
    rw [entry, List.head?_cons, Option.any_some]
  rw [entered, receive]
  split
  · refine ⟨rfl, ?_⟩
    rw [base, ite_self]
  split
  · exact ⟨rfl, if_pos rfl⟩
  · exact ⟨rfl, if_pos rfl⟩

/-- … whatever follows. -/
theorem receive_steady (sent : List Transmission) {start : Unquoted}
    (saved : ledger.saved = start) (next : ledger.base number = start) :
    (sent.foldl (receive packet number) ledger).saved = start ∧
      (sent.foldl (receive packet number) ledger).base number = start := by
  induction sent generalizing ledger with
  | nil => exact ⟨saved, next⟩
  | cons first rest ih =>
      have entered : ledger.entry number [first] = start := by
        rw [entry, saved, next, ite_self]
      have received := receive_base packet number ledger first
      rw [entered] at received
      exact ih _ received.1 received.2

theorem receive_all (first : Transmission) (rest : List Transmission) :
    (List.foldl (receive packet number) ledger (first :: rest)).saved =
        ledger.entry number (first :: rest) ∧
      (List.foldl (receive packet number) ledger (first :: rest)).base number =
        ledger.entry number (first :: rest) := by
  obtain ⟨saved, next⟩ := receive_base packet number ledger first
  exact receive_steady packet number _ rest saved next

/-- The last transmission decides whether the data stays. -/
theorem receive_now (sent : Transmission) :
    (receive packet number ledger sent).now =
      if sent.isIntact then
        unquote ledger.quote (receive packet number ledger sent).saved packet.carries
      else (receive packet number ledger sent).saved := by
  rw [receive]
  split
  · next early => rw [isIntact_of_isEarly early, if_neg Bool.false_ne_true]
  split
  · rfl
  · rfl

theorem receive_quote (other : packet.kind ≠ sendType) (sent : List Transmission) :
    (sent.foldl (receive packet number) ledger).quote = ledger.quote := by
  induction sent generalizing ledger with
  | nil => rfl
  | cons first rest ih =>
      refine (ih _).trans ?_
      rw [receive]
      split
      · rfl
      split
      · exact if_neg other
      · rfl

/-- An intact transmission has been seen, and so is its number. -/
theorem receive_acknowledged {sent : List Transmission}
    (acknowledged : ∃ transmission ∈ sent, transmission.isIntact = true) :
    (sent.foldl (receive packet number) ledger).lastN = some number ∧
      (packet.kind = sendType →
        (sent.foldl (receive packet number) ledger).quote = packet.announces kEscape) := by
  induction sent using List.reverseRecOn with
  | nil =>
      obtain ⟨transmission, member, _⟩ := acknowledged
      exact absurd member List.not_mem_nil
  | append_singleton sent last ih =>
      rw [List.foldl_append, List.foldl_cons, List.foldl_nil]
      cases intact : last.isIntact with
      | true =>
          have late : last.isEarly = false := by
            by_contra early
            rw [isIntact_of_isEarly (Bool.not_eq_false _ ▸ early)] at intact
            exact Bool.false_ne_true intact
          rw [receive, late, intact]
          refine ⟨rfl, fun opens => ?_⟩
          show packet.announces _ = packet.announces _
          rw [Packet.announces, Packet.announces, if_pos opens, if_pos opens]
      | false =>
          have before : ∃ transmission ∈ sent, transmission.isIntact = true := by
            obtain ⟨transmission, member, isIntact⟩ := acknowledged
            rcases List.mem_append.mp member with earlier | same
            · exact ⟨transmission, earlier, isIntact⟩
            · rw [List.mem_singleton.mp same, intact] at isIntact
              exact absurd isIntact Bool.false_ne_true
          obtain ⟨number', quote⟩ := ih before
          rw [receive, intact]
          split
          · exact ⟨number', quote⟩
          · exact ⟨rfl, quote⟩

end Packet

/-! ### One exchange -/

section Exchange

variable (ledger : Ledger) (exchange : Exchange)

/-- **The checkpoint after an exchange** is what its packet went on from. -/
theorem exchange_saved :
    (ledger.exchange exchange).saved = ledger.entry exchange.number exchange.sent := by
  rw [Ledger.exchange]
  obtain ⟨transmission, member, _⟩ := exchange.acknowledged
  cases all : exchange.sent with
  | nil => rw [all] at member; exact absurd member List.not_mem_nil
  | cons first rest => exact (receive_all exchange.packet exchange.number ledger first rest).1

/-- **The bytes after an exchange** have its data if its last transmission was intact. -/
theorem exchange_now : (ledger.exchange exchange).now =
    if exchange.endsDamaged then (ledger.exchange exchange).saved
    else unquote ledger.quote (ledger.exchange exchange).saved exchange.packet.carries := by
  rw [Ledger.exchange, Exchange.endsDamaged]
  obtain ⟨transmission, member, _⟩ := exchange.acknowledged
  rcases List.eq_nil_or_concat' exchange.sent with none | ⟨before, last, all⟩
  · rw [none] at member
    exact absurd member List.not_mem_nil
  rw [all, List.foldl_append, List.foldl_cons, List.foldl_nil, List.getLast?_concat,
    Option.any_some, receive_now]
  cases last.isIntact with
  | false => rfl
  | true =>
      show unquote _ _ exchange.packet.carries = unquote _ _ exchange.packet.carries
      by_cases data : exchange.packet.kind = dataType
      · rw [receive_quote _ _ _ (by rw [data]; decide)]
      · rw [Packet.carries, if_neg data]
        rfl

theorem exchange_quote (other : exchange.packet.kind ≠ sendType) :
    (ledger.exchange exchange).quote = ledger.quote :=
  receive_quote _ _ _ other _

theorem exchange_lastN : (ledger.exchange exchange).lastN = some exchange.number.val :=
  (receive_acknowledged exchange.packet _ ledger exchange.acknowledged).1

end Exchange

/-! ### A list of packets -/

/-- What the next packet is put behind, when an exchange has just ended. -/
theorem entry_exchange (ledger : Ledger) {exchange following : Exchange}
    (consecutive : following.number = exchange.number + 1) :
    (ledger.exchange exchange).entry following.number following.sent =
      unquote ledger.quote (ledger.entry exchange.number exchange.sent)
        (if exchange.undoneBy following then [] else exchange.packet.carries) := by
  have differ : exchange.number.val ≠ following.number.val := by
    rw [consecutive]
    intro same
    have := exchange.number.isLt
    rw [Fin.val_add] at same
    simp only [Fin.isValue, Fin.val_one] at same
    omega
  have next :
      (ledger.exchange exchange).base following.number = (ledger.exchange exchange).now := by
    rw [base, exchange_lastN, if_neg fun same => differ (Option.some.inj same)]
  rw [entry, next, exchange_now, exchange_saved, Exchange.undoneBy, ← Exchange.opensEarly]
  cases exchange.endsDamaged <;> cases following.opensEarly <;> rfl

/-- **What a list of packets leaves** behind what was there. -/
theorem exchanges_entry (ledger : Ledger) {exchanges : List Exchange} {first last : Exchange}
    {rest : List Exchange} (listed : exchanges ++ [last] = first :: rest)
    (consecutive : (exchanges ++ [last]).IsChain fun exchange following =>
      following.number = exchange.number + 1)
    (others : ∀ exchange ∈ exchanges, exchange.packet.kind ≠ sendType) :
    (exchanges.foldl Ledger.exchange ledger).entry last.number last.sent =
      unquote ledger.quote (ledger.entry first.number first.sent) (kept (exchanges ++ [last])) := by
  induction exchanges generalizing ledger first rest with
  | nil =>
      obtain ⟨rfl, rfl⟩ := List.cons.inj listed
      rfl
  | cons head exchanges ih =>
      obtain ⟨rfl, _⟩ := List.cons.inj listed
      obtain ⟨following, tail, more⟩ := exists_first exchanges last
      rw [List.cons_append] at consecutive ⊢
      have step := consecutive
      rw [more, List.isChain_cons_cons] at step
      rw [List.foldl_cons, ih (ledger.exchange head) more (List.IsChain.of_cons consecutive)
        fun exchange member => others exchange (List.mem_cons_of_mem _ member), more, kept,
        unquote_append, exchange_quote _ _ (others head List.mem_cons_self),
        entry_exchange ledger step.1]

end Ledger

/-! ### What is kept -/

section Kept

variable {exchanges : List Exchange} {last : Exchange}

/-- **If no packet with data is undone, all data is kept.** -/
theorem kept_eq_of_chain
    (keeps : (exchanges ++ [last]).IsChain fun exchange following =>
      exchange.undoneBy following = true → exchange.packet.carries = []) :
    kept (exchanges ++ [last]) = carriedBy exchanges := by
  induction exchanges with
  | nil => rfl
  | cons head exchanges ih =>
      obtain ⟨following, tail, more⟩ := exists_first exchanges last
      have rest := ih (List.IsChain.of_cons keeps)
      rw [List.cons_append, more, List.isChain_cons_cons] at keeps
      rw [more] at rest
      rw [List.cons_append, more, kept, rest, carriedBy_cons]
      split
      · next undone => rw [keeps.1 undone]
      · rfl

theorem stored_kept_le (quote : Byte) (escape : Bool) :
    stored quote escape (kept (exchanges ++ [last])) ≤
      stored quote escape (carriedBy exchanges) := by
  induction exchanges generalizing escape with
  | nil => exact Nat.le_refl _
  | cons head exchanges ih =>
      obtain ⟨following, tail, more⟩ := exists_first exchanges last
      rw [more] at ih
      rw [List.cons_append, more, kept, carriedBy_cons]
      split
      · exact (ih escape).trans (stored_le_append quote escape _ _)
      · obtain ⟨count, pending, split⟩ := stored_append quote escape head.packet.carries
        rw [split, split]
        exact Nat.add_le_add_left (ih pending) count

/-- **If all bytes are there, no packet with two data characters or more is undone.** -/
theorem chain_of_stored_le (quote : Byte) (escape : Bool)
    (all : stored quote escape (carriedBy exchanges) ≤
      stored quote escape (kept (exchanges ++ [last]))) :
    (exchanges ++ [last]).IsChain fun exchange following =>
      exchange.undoneBy following = true → exchange.packet.carries.length ≤ 1 := by
  induction exchanges generalizing escape with
  | nil => exact List.isChain_singleton _
  | cons head exchanges ih =>
      obtain ⟨following, tail, more⟩ := exists_first exchanges last
      have fewer : ∀ pending, stored quote pending (kept (exchanges ++ [last])) ≤
          stored quote pending (carriedBy exchanges) := fun pending => stored_kept_le quote pending
      rw [more] at ih fewer
      rw [List.cons_append, more, kept, carriedBy_cons] at all
      rw [List.cons_append, more, List.isChain_cons_cons]
      by_cases undone : head.undoneBy following = true
      · rw [if_pos undone, List.nil_append] at all
        refine ⟨fun _ => ?_, ih escape ((stored_le_append quote escape _ _).trans all)⟩
        -- two characters in front would make the number larger
        match carried : head.packet.carries with
        | [] => exact Nat.zero_le _
        | [_] => exact Nat.le_refl _
        | first :: second :: others =>
            rw [carried] at all
            have more :=
              stored_lt_cons_cons quote escape first second (others ++ carriedBy exchanges)
            have least := stored_le_append quote escape others (carriedBy exchanges)
            exact absurd ((all.trans (fewer escape)).trans least) (Nat.not_le.mpr more)
      · rw [if_neg undone] at all
        obtain ⟨count, pending, split⟩ := stored_append quote escape head.packet.carries
        rw [split, split] at all
        exact ⟨fun is => absurd is undone, ih pending (Nat.le_of_add_le_add_left all)⟩

end Kept

end K210Guard
