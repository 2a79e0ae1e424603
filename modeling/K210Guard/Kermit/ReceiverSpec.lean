/-
**What `k_recv` does with a transmission.**

Between two transmissions the state of `k_recv` is described by a `Ledger`: both cursors, and the
bytes below them in memory (`Refines`).

* `Refines.damaged`, `Refines.intact` — **a transmission changes the state as `Ledger.receive`
  says**.
* `Refines.breaks` — an intact break packet ends `k_recv` with the number of bytes it has.
-/

import K210Guard.Kermit.Checkpoint

namespace K210Guard

/-! ### Characters -/

/-- A character that carries a number below 95 is printable. -/
theorem field_char : ∀ value : Fin 95,
    untochar (tochar value) = value ∧ isControl (tochar value) = false := by decide

theorem untochar_tochar {value : Nat} (small : value < 95) : untochar (tochar value) = value :=
  (field_char ⟨value, small⟩).1

theorem tochar_printable {value : Nat} (small : value < 95) : isControl (tochar value) = false :=
  (field_char ⟨value, small⟩).2

theorem checkChar_printable (sum : Nat) : isControl (checkChar sum) = false :=
  tochar_printable (Nat.lt_of_le_of_lt Nat.and_le_right (by decide))

theorem charSum_append (first second : List Byte) :
    charSum (first ++ second) = charSum first + charSum second := by
  rw [charSum, List.map_append, List.sum_append, ← charSum, ← charSum]

/-! ### Stored bytes -/

/-- Where the next byte goes. -/
def cursor (start : Nat) (data : Unquoted) : Cursor := ⟨start + data.1.length, data.2⟩

/-- The memory holds some bytes. -/
def Stored (ram : Nat → Byte) (start : Nat) (bytes : List Byte) : Prop :=
  readRange ram start bytes.length = bytes

namespace Stored

variable {ram : Nat → Byte} {start : Nat} {bytes : List Byte}

theorem frame {other : Nat → Byte} (stored : Stored ram start bytes)
    (agree : ∀ x < start + bytes.length, other x = ram x) : Stored other start bytes :=
  (readRange_congr fun x _ below => agree x below).trans stored

theorem update (stored : Stored ram start bytes) {addr : Nat} (ahead : start + bytes.length ≤ addr)
    (c : Byte) : Stored (Function.update ram addr c) start bytes :=
  stored.frame fun _ below =>
    Function.update_of_ne (Nat.ne_of_lt (Nat.lt_of_lt_of_le below ahead)) _ _

theorem concat (stored : Stored ram start bytes) (c : Byte) :
    Stored (Function.update ram (start + bytes.length) c) start (bytes ++ [c]) := by
  have before := stored.update (Nat.le_refl _) c
  rw [Stored, List.length_append, List.length_singleton, readRange_add, before, readRange_succ,
    Function.update_self, readRange_zero]

end Stored

/-! ### One step -/

namespace Place

/-- Neither between two packets nor at the end. -/
def Inside : Place → Prop
  | wait | done _ => False
  | _ => True

/-- Past the sequence number. -/
def PastSeq : Place → Prop
  | wait | done _ | len | seq .. => False
  | _ => True

theorem PastSeq.inside {place : Place} (past : place.PastSeq) : place.Inside := by
  cases place <;> first | exact past | trivial

end Place

namespace KRecv

variable {s : KRecv} {c : Byte}

theorem step_next {after : Place} (inside : s.place.Inside) (more : s.place ≠ .finish)
    (next : s.place.next c = some after) : s.step c = (s.act c).goto after := by
  unfold step
  split
  · next here => rw [here] at inside; exact inside.elim
  · next here => rw [here] at inside; exact inside.elim
  · rw [next]
    exact if_neg more

theorem step_error (inside : s.place.Inside) (error : s.place.next c = none) :
    s.step c = s.packetError := by
  unfold step
  split
  · next here => rw [here] at inside; exact inside.elim
  · next here => rw [here] at inside; exact inside.elim
  · rw [error]

theorem step_accept (here : s.place = .finish) : s.step endChar = s.accept := by
  unfold step
  rw [here]
  rfl

theorem step_start (here : s.place = .wait) : s.step startChar = s.goto .len := by
  unfold step
  rw [here]
  rfl

theorem step_len (s : KRecv) (printable : isControl c = false) :
    (s.goto .len).step c = s.goto (.seq c.toNat (untochar c)) :=
  step_next (s := s.goto .len) trivial Place.noConfusion
    (if_neg (by rw [printable]; exact Bool.false_ne_true))

theorem next_seq (sum : Nat) (length : Int) {number : Nat} (small : number < 64) :
    (Place.seq sum length).next (tochar number) =
      some (.type (sum + (tochar number).toNat) (length - 1)) := by
  have printable := tochar_printable (Nat.lt_of_lt_of_le small (show 64 ≤ 95 by decide))
  rw [Place.next, printable]
  rfl

theorem checkpoint_goto (s : KRecv) (place : Place) (number : Nat) :
    (s.goto place).checkpoint number = (s.checkpoint number).goto place := by
  unfold checkpoint goto
  split <;> rfl

/-- The length character, then the sequence character. -/
theorem feed_number (s : KRecv) (printable : isControl c = false) {number : Nat}
    (small : number < 64) : (s.goto .len).feed [c, tochar number] =
      (s.checkpoint number).goto
        (.type (c.toNat + (tochar number).toNat) (untochar c - 1)) := by
  rw [feed_cons, step_len s printable, feed_cons, feed_nil,
    step_next (s := s.goto (.seq _ _)) trivial Place.noConfusion (next_seq _ _ small)]
  show ((s.goto _).checkpoint (untochar (tochar number))).goto _ = _
  rw [untochar_tochar (Nat.lt_of_lt_of_le small (by decide)), checkpoint_goto]
  rfl

/-- Noise between two packets is skipped. -/
theorem feed_quiet (here : s.place = .wait) {noise : List Byte} (quiet : Quiet noise) :
    s.feed noise = s := by
  induction noise with
  | nil => rfl
  | cons c noise ih =>
      obtain ⟨notStart, notEtx⟩ := quiet c List.mem_cons_self
      have skipped : s.step c = s := by
        unfold step
        rw [here]
        show (if c = startChar then _ else if c = etxChar then _ else s) = s
        rw [if_neg notStart, if_neg notEtx]
      rw [feed_cons, skipped]
      exact ih fun c member => quiet c (List.mem_cons_of_mem _ member)

end KRecv

/-! ### States -/

/-- Between two transmissions the state is what a ledger says. -/
structure Refines (start : Nat) (s : KRecv) (ledger : Ledger) : Prop where
  place : s.place = .wait
  sendPtr : s.sendPtr = 0
  origin : s.binStartAddress = start
  quote : s.hisQuote = ledger.quote
  lastN : s.lastN = ledger.lastN
  now : s.data = cursor start ledger.now
  saved : s.dataSaved = cursor start ledger.saved
  nowStored : Stored s.ram start ledger.now.1
  savedStored : Stored s.ram start ledger.saved.1

/-- In a packet whose number has been read: the checkpoint is safe. -/
structure Entered (start : Nat) (quote : Byte) (number : Nat) (base : Unquoted) (s : KRecv) :
    Prop where
  origin : s.binStartAddress = start
  quote : s.hisQuote = quote
  lastN : s.lastN = some number
  saved : s.dataSaved = cursor start base
  stored : Stored s.ram start base.1
  ahead : start + base.1.length ≤ s.data.addr

/-- All data so far is in memory. -/
structure Filled (start : Nat) (out : Unquoted) (s : KRecv) : Prop where
  data : s.data = cursor start out
  stored : Stored s.ram start out.1

section States

variable {start number : Nat} {quote : Byte} {base out : Unquoted} {s : KRecv} {ledger : Ledger}

/-- The sequence number decides where the packet goes on from. -/
theorem Refines.checkpoint (refines : Refines start s ledger) (number : Nat) :
    Entered start ledger.quote number (ledger.base number) (s.checkpoint number) ∧
      Filled start (ledger.base number) (s.checkpoint number) := by
  unfold KRecv.checkpoint Ledger.base
  rw [refines.lastN]
  split
  · next again =>
      refine ⟨⟨refines.origin, refines.quote, again, refines.saved,
        refines.savedStored, ?_⟩, refines.saved, refines.savedStored⟩
      show _ ≤ s.dataSaved.addr
      rw [refines.saved]
      exact Nat.le_refl _
  · refine ⟨⟨refines.origin, refines.quote, rfl, refines.now, refines.nowStored, ?_⟩,
      refines.now, refines.nowStored⟩
    show _ ≤ s.data.addr
    rw [refines.now]
    exact Nat.le_refl _

theorem Entered.goto (entered : Entered start quote number base s) (place : Place) :
    Entered start quote number base (s.goto place) :=
  ⟨entered.origin, entered.quote, entered.lastN, entered.saved, entered.stored, entered.ahead⟩

/-- An error before the sequence number. -/
theorem Refines.early (refines : Refines start s ledger) (place : Place) :
    Refines start (s.goto place).packetError { ledger with now := ledger.saved } :=
  ⟨rfl, rfl, refines.origin, refines.quote, refines.lastN, refines.saved, refines.saved,
    refines.savedStored, refines.savedStored⟩

/-- An error behind the sequence number. -/
theorem Entered.late (entered : Entered start quote number base s) :
    Refines start s.packetError ⟨quote, some number, base, base⟩ :=
  ⟨rfl, rfl, entered.origin, entered.quote, entered.lastN, entered.saved, entered.saved,
    entered.stored, entered.stored⟩

/-! ### Data characters -/

theorem Entered.osDataChar (entered : Entered start quote number base s) (c : Byte) :
    Entered start quote number base (s.osDataChar c) :=
  ⟨entered.origin, entered.quote, entered.lastN, entered.saved,
    entered.stored.update entered.ahead c, Nat.le_succ_of_le entered.ahead⟩

theorem Entered.put (entered : Entered start quote number base s) (c : Byte) :
    Entered start quote number base (s.put c) := by
  have stores := fun c => entered.osDataChar c
  unfold KRecv.put KRecv.kDataChar KRecv.saveParm
  split
  · split
    · have := stores (ktrans c)
      exact ⟨this.origin, this.quote, this.lastN, this.saved, this.stored, this.ahead⟩
    split
    · exact ⟨entered.origin, entered.quote, entered.lastN, entered.saved, entered.stored,
        entered.ahead⟩
    · exact stores c
  split
  · exact ⟨entered.origin, entered.quote, entered.lastN, entered.saved, entered.stored,
      entered.ahead⟩
  · exact entered

/-- **A data character is unquoted into memory.** -/
theorem Filled.kDataChar (filled : Filled start out s) (c : Byte) :
    Filled start (unquoteChar s.hisQuote out c) (s.kDataChar c) := by
  obtain ⟨data, stored⟩ := filled
  have appends : ∀ c, Stored (s.osDataChar c).ram start (out.1 ++ [c]) := by
    intro c
    show Stored (Function.update s.ram s.data.addr c) _ _
    rw [data]
    exact stored.concat c
  have moves : ∀ c, (s.osDataChar c).data = ⟨start + (out.1 ++ [c]).length, out.2⟩ := by
    intro c
    show Cursor.mk (s.data.addr + 1) s.data.escape = _
    rw [data, List.length_append, List.length_singleton]
    rfl
  unfold KRecv.kDataChar unquoteChar
  rw [show s.data.escape = out.2 by rw [data]; rfl]
  split
  · refine ⟨?_, appends _⟩
    show Cursor.mk (s.osDataChar (ktrans c)).data.addr false = _
    rw [moves]
    rfl
  split
  · refine ⟨?_, stored⟩
    show Cursor.mk s.data.addr true = _
    rw [data]
    rfl
  · next noEscape _ =>
      refine ⟨?_, appends _⟩
      rw [moves, Bool.eq_false_of_not_eq_true noEscape]
      rfl

/-- What is done with a character behind the sequence number leaves the checkpoint alone. -/
theorem Entered.step_next (entered : Entered start quote number base s) (past : s.place.PastSeq)
    {c : Byte} {after : Place} (more : s.place ≠ .finish) (next : s.place.next c = some after) :
    Entered start quote number base (s.step c) := by
  have acted : Entered start quote number base (s.act c) := by
    unfold KRecv.act
    split
    · next here => rw [here] at past; exact past.elim
    · exact ⟨entered.origin, entered.quote, entered.lastN, entered.saved, entered.stored,
        entered.ahead⟩
    · exact entered.put c
    · exact entered
  rw [KRecv.step_next past.inside more next]
  exact acted.goto after

/-! ### Damaged transmissions -/

theorem Place.PastSeq.next {place after : Place} {c : Byte} (past : place.PastSeq)
    (more : place ≠ .finish) (next : place.next c = some after) : after.PastSeq := by
  have rest : ∀ sum length, (Place.rest sum length).PastSeq := by
    intro sum length
    unfold Place.rest
    split <;> trivial
  cases place with
  | wait | done | len | seq => exact past.elim
  | finish => exact absurd rfl more
  | _ =>
      simp only [Place.next] at next
      repeat' split at next
      all_goals first
        | exact absurd next (Option.some_ne_none _).symm
        | cases next; trivial
        | cases next; exact rest _ _

theorem rejects_wait (chars : List Byte) : Place.wait.rejects chars = false := by
  induction chars with
  | nil => rfl
  | cons c chars ih => exact ih

/-- **An error behind the sequence number goes back to the checkpoint**, whatever was stored. -/
theorem Entered.rejected (entered : Entered start quote number base s) (past : s.place.PastSeq)
    {chars : List Byte} (rejected : s.place.rejects chars = true) :
    Refines start (s.feed chars) ⟨quote, some number, base, base⟩ := by
  induction chars generalizing s with
  | nil => exact absurd rejected Bool.false_ne_true
  | cons c chars ih =>
      rw [Place.rejects] at rejected
      rw [KRecv.feed_cons]
      cases next : s.place.next c with
      | none =>
          rw [next] at rejected
          rw [List.isEmpty_iff.mp rejected, KRecv.step_error past.inside next]
          exact entered.late
      | some after =>
          rw [next] at rejected
          by_cases more : s.place = .finish
          · -- behind END there is no error
            rw [more, Place.next] at next
            split at next
            · exact absurd next (Option.some_ne_none _).symm
            · rw [← Option.some.inj next] at rejected
              exact absurd (rejects_wait chars ▸ rejected) Bool.false_ne_true
          · have stepped := KRecv.step_next past.inside more next
            refine ih (entered.step_next past more next) ?_ ?_
            · rw [stepped]
              exact past.next more next
            · rw [stepped]
              exact rejected

theorem rejects_len_cons_cons {c d : Byte} {rest : List Byte}
    (rejected : Place.len.rejects (c :: d :: rest) = true) :
    isControl c = false ∧ (Place.seq c.toNat (untochar c)).rejects (d :: rest) = true := by
  rw [Place.rejects, Place.next] at rejected
  cases printable : isControl c with
  | true => rw [printable, if_pos rfl] at rejected; exact absurd rejected Bool.false_ne_true
  | false => rw [printable, if_neg Bool.false_ne_true] at rejected; exact ⟨rfl, rejected⟩

/-- **A damaged transmission does what `Ledger.receive` says.** -/
theorem Refines.damaged (refines : Refines start s ledger) (packet : Packet) (chars : List Byte)
    (small : number < 64) {noise garbled : List Byte}
    (detected : (Transmission.damaged noise garbled).Detected number) :
    Refines start (s.feed ((Transmission.damaged noise garbled).wire chars))
      (Ledger.receive packet number ledger (.damaged noise garbled)) := by
  obtain ⟨quiet, rejected, numbered⟩ := detected
  show Refines start (s.feed (noise ++ startChar :: garbled)) _
  rw [KRecv.feed_append, KRecv.feed_quiet refines.place quiet, KRecv.feed_cons,
    KRecv.step_start refines.place]
  match garbled, rejected, numbered with
  | [c], rejected, _ =>
      rw [Ledger.receive_early _ _ _ rfl]
      rw [Place.rejects] at rejected
      cases next : Place.len.next c with
      | none =>
          rw [KRecv.feed_cons, KRecv.step_error (s := s.goto .len) trivial next]
          exact refines.early _
      | some after => rw [next] at rejected; exact absurd rejected Bool.false_ne_true
  | [c, d], rejected, _ =>
      rw [Ledger.receive_early _ _ _ rfl]
      obtain ⟨printable, rejected⟩ := rejects_len_cons_cons rejected
      rw [Place.rejects] at rejected
      rw [KRecv.feed_cons, KRecv.step_len s printable]
      cases next : (Place.seq c.toNat (untochar c)).next d with
      | none =>
          rw [KRecv.feed_cons, KRecv.step_error (s := s.goto (.seq _ _)) trivial next]
          exact refines.early _
      | some after => rw [next] at rejected; exact absurd rejected Bool.false_ne_true
  | c :: d :: e :: rest, rejected, numbered =>
      have late : (Transmission.damaged noise (c :: d :: e :: rest)).isEarly = false := by
        simp [Transmission.isEarly]
      rw [Ledger.receive_late _ _ _ late rfl]
      obtain ⟨printable, rejected⟩ := rejects_len_cons_cons rejected
      have same : d = tochar number := by
        simpa using numbered (by simp)
      rw [same, Place.rejects, KRecv.next_seq _ _ small] at rejected
      rw [same, show c :: tochar number :: e :: rest = [c, tochar number] ++ e :: rest from rfl,
        KRecv.feed_append, KRecv.feed_number s printable small]
      exact ((refines.checkpoint number).1.goto (.type _ _)).rejected trivial rejected

end States

/-! ### Intact transmissions -/

namespace KRecv

/-- A character that only moves on. -/
theorem step_plain (s : KRecv) {place after : Place} {c : Byte} (inside : place.Inside)
    (plain : (s.goto place).act c = s.goto place) (more : place ≠ .finish)
    (next : place.next c = some after) : (s.goto place).step c = s.goto after := by
  rw [step_next (s := s.goto place) inside more next, plain]
  rfl

theorem step_type (s : KRecv) {sum : Nat} {length : Int} {after : Place} {c : Byte}
    (next : (Place.type sum length).next c = some after) :
    (s.goto (.type sum length)).step c = { s with kState := c }.goto after := by
  rw [step_next (s := s.goto (.type sum length)) trivial Place.noConfusion next]
  rfl

theorem step_lenHi (s : KRecv) (sum : Nat) {value : Nat} (small : value < 95) :
    (s.goto (.lenHi sum)).step (tochar value) =
      s.goto (.lenLo (sum + (tochar value).toNat) value) := by
  refine step_plain s trivial rfl Place.noConfusion ?_
  rw [Place.next, tochar_printable small, untochar_tochar small]
  rfl

theorem step_lenLo (s : KRecv) (sum high : Nat) {value : Nat} (small : value < 95) :
    (s.goto (.lenLo sum high)).step (tochar value) =
      s.goto (.headerCheck (sum + (tochar value).toNat) (high * 95 + value : Nat)) := by
  refine step_plain s trivial rfl Place.noConfusion ?_
  rw [Place.next, tochar_printable small, untochar_tochar small]
  rfl

theorem step_headerCheck (s : KRecv) (sum : Nat) (length : Int) :
    (s.goto (.headerCheck sum length)).step (checkChar sum) =
      s.goto (.rest (sum + (checkChar sum).toNat) length) := by
  refine step_plain s trivial rfl Place.noConfusion ?_
  rw [Place.next, checkChar_printable, if_neg Bool.false_ne_true]
  exact if_neg fun differ => differ rfl

theorem step_check (s : KRecv) (sum : Nat) :
    (s.goto (.check sum)).step (checkChar sum) = s.goto .finish := by
  refine step_plain s trivial rfl Place.noConfusion ?_
  rw [Place.next, checkChar_printable, if_neg Bool.false_ne_true]
  exact if_neg fun differ => differ rfl

/-- The header of a short packet. -/
theorem feed_short (s : KRecv) {kind : Byte} (printable : isControl kind = false)
    {number size : Nat} (small : number < 64) (fits : size + 2 < 95) :
    (s.goto .len).feed [tochar (size + 2), tochar number, kind] =
      { s.checkpoint number with kState := kind }.goto
        (.rest (charSum [tochar (size + 2), tochar number, kind]) size) := by
  have next : ∀ sum, (Place.type sum (untochar (tochar (size + 2)) - 1)).next kind =
      some (.rest (sum + kind.toNat) size) := by
    intro sum
    rw [Place.next, printable, untochar_tochar fits, if_neg Bool.false_ne_true, if_neg (by omega)]
    congr 2
    omega
  show (s.goto .len).feed ([tochar (size + 2), tochar number] ++ [kind]) = _
  rw [feed_append, feed_number s (tochar_printable fits) small, feed_cons, feed_nil,
    step_type _ (next _)]
  congr 2
  simp [charSum, Nat.add_assoc]

/-- The header of an extended packet, with the check of its own. -/
theorem feed_extended (s : KRecv) {kind : Byte} (printable : isControl kind = false)
    {number size : Nat} (small : number < 64) (fits : size < 95 * 95) :
    let fields := [tochar 0, tochar number, kind, tochar (size / 95), tochar (size % 95)]
    (s.goto .len).feed (fields ++ [checkChar (charSum fields)]) =
      { s.checkpoint number with kState := kind }.goto
        (.rest (charSum (fields ++ [checkChar (charSum fields)])) size) := by
  have zero : isControl (tochar 0) = false := tochar_printable (by decide)
  have next : ∀ sum, (Place.type sum (untochar (tochar 0) - 1)).next kind =
      some (.lenHi (sum + kind.toNat)) := by
    intro sum
    rw [Place.next, printable]
    rfl
  have sums : ∀ a b c d e : Byte, charSum [a, b, c, d, e] =
      a.toNat + b.toNat + c.toNat + d.toNat + e.toNat := by
    intro a b c d e
    simp [charSum, Nat.add_assoc]
  show (s.goto .len).feed ([tochar 0, tochar number] ++ [kind, _, _, _]) = _
  rw [feed_append, feed_number s zero small, feed_cons, step_type _ (next _), feed_cons,
    step_lenHi _ _ (Nat.div_lt_of_lt_mul fits), feed_cons,
    step_lenLo _ _ _ (Nat.mod_lt size (by decide)), Nat.div_add_mod', feed_cons, feed_nil, sums,
    step_headerCheck, charSum_append, sums]
  rfl

/-- The characters before the data. -/
theorem feed_header (s : KRecv) (packet : Packet) {number : Nat} (small : number < 64) :
    (s.goto .len).feed (packet.header number) =
      { s.checkpoint number with kState := packet.kind }.goto
        (.rest (charSum (packet.header number)) (packet.data.length + 1 : Nat)) := by
  have fits := packet.fits
  have printable := packet.printable packet.kind List.mem_cons_self
  unfold Packet.header
  split
  · next extended =>
      rw [if_pos extended] at fits
      exact feed_extended s printable small (by omega)
  · next short =>
      rw [if_neg short] at fits
      exact feed_short s printable small (by omega)

theorem put_goto (s : KRecv) (place : Place) (c : Byte) :
    (s.goto place).put c = (s.put c).goto place := by
  have moved : (s.goto place).kDataChar c = (s.kDataChar c).goto place := by
    unfold kDataChar
    rw [apply_ite (fun s : KRecv => s.goto place), apply_ite (fun s : KRecv => s.goto place)]
    rfl
  unfold put
  rw [apply_ite (fun s : KRecv => s.goto place), apply_ite (fun s : KRecv => s.goto place), moved]
  rfl

/-- The data. -/
theorem feed_data (s : KRecv) (sum : Nat) {data : List Byte}
    (printable : ∀ c ∈ data, isControl c = false) :
    (s.goto (.rest sum (data.length + 1 : Nat))).feed data =
      (data.foldl put s).goto (.check (sum + charSum data)) := by
  induction data generalizing s sum with
  | nil => rfl
  | cons c data ih =>
      have here : Place.rest sum ((c :: data).length + 1 : Nat) =
          .body sum ((c :: data).length + 1 : Nat) := by
        rw [Place.rest, if_pos (by rw [List.length_cons]; omega)]
      have next : (Place.body sum ((c :: data).length + 1 : Nat)).next c =
          some (.rest (sum + c.toNat) (data.length + 1 : Nat)) := by
        rw [Place.next, printable c List.mem_cons_self, if_neg Bool.false_ne_true]
        congr 2
        rw [List.length_cons]
        omega
      rw [here, feed_cons, step_next (s := s.goto (.body sum _)) trivial Place.noConfusion next]
      show (((s.goto _).put c).goto _).feed data = _
      rw [put_goto]
      show ((s.put c).goto _).feed data = _
      rw [ih _ _ fun c member => printable c (List.mem_cons_of_mem _ member), List.foldl_cons]
      congr 2
      simp [charSum, Nat.add_assoc]

/-- **A whole packet** is accepted. -/
theorem feed_packet (s : KRecv) (packet : Packet) {number : Nat} (small : number < 64) :
    (s.goto .len).feed (packet.chars number) =
      ((packet.data.foldl put { s.checkpoint number with kState := packet.kind }).goto
        .finish).accept := by
  unfold Packet.chars
  rw [feed_append, feed_append, feed_header s packet small,
    feed_data _ _ fun c member => packet.printable c (List.mem_cons_of_mem _ member),
    ← charSum_append, feed_cons, step_check, feed_cons, feed_nil, step_accept rfl]

end KRecv

section Intact

variable {start number : Nat} {quote : Byte} {base out : Unquoted} {s : KRecv} {ledger : Ledger}

/-- A data character changes neither the type of the packet nor the quote. -/
theorem KRecv.put_frame (s : KRecv) (c : Byte) :
    (s.put c).kState = s.kState ∧ (s.put c).hisQuote = s.hisQuote := by
  unfold KRecv.put KRecv.kDataChar
  split
  · split
    · exact ⟨rfl, rfl⟩
    split <;> exact ⟨rfl, rfl⟩
  split <;> exact ⟨rfl, rfl⟩

theorem KRecv.foldl_put_kState (s : KRecv) (data : List Byte) :
    (data.foldl KRecv.put s).kState = s.kState := by
  induction data generalizing s with
  | nil => rfl
  | cons c data ih => exact (ih _).trans (s.put_frame c).1

theorem Entered.foldl_put (entered : Entered start quote number base s) (data : List Byte) :
    Entered start quote number base (data.foldl KRecv.put s) := by
  induction data generalizing s with
  | nil => exact entered
  | cons c data ih => exact ih (entered.put c)

/-- **The data of a packet is unquoted into memory.** -/
theorem Filled.foldl_put (filled : Filled start out s) (packet : Packet)
    (kind : s.kState = packet.kind) :
    Filled start (unquote s.hisQuote out packet.carries) (packet.data.foldl KRecv.put s) := by
  unfold Packet.carries
  rw [← kind]
  generalize packet.data = data
  split
  · next isData =>
      induction data generalizing s out with
      | nil => exact filled
      | cons c data ih =>
          have same := s.put_frame c
          have first : Filled start (unquoteChar s.hisQuote out c) (s.put c) := by
            rw [KRecv.put, if_pos isData]
            exact filled.kDataChar c
          have rest := ih first (same.1.trans kind) (same.1.trans isData)
          rw [same.2] at rest
          exact rest
  · next other =>
      show Filled start out _
      induction data generalizing s with
      | nil => exact filled
      | cons c data ih =>
          have first : Filled start out (s.put c) := by
            rw [KRecv.put, if_neg other]
            split <;> exact ⟨filled.data, filled.stored⟩
          have same := (s.put_frame c).1
          exact ih first (same.trans kind) (by rw [same]; exact other)

/-- The parameters of a send-init packet, as far as there is room. -/
theorem KRecv.foldl_put_parms (s : KRecv) (opens : s.kState = sendType) (empty : s.sendPtr = 0)
    (data : List Byte) :
    (data.foldl KRecv.put s).sendPtr = min data.length 19 ∧
      ∀ i < min data.length 19, (data.foldl KRecv.put s).sendParms i = data.getD i 0 := by
  induction data using List.reverseRecOn with
  | nil => exact ⟨empty, fun i bound => absurd bound (Nat.not_lt_zero i)⟩
  | append_singleton data c ih =>
      obtain ⟨ptr, parms⟩ := ih
      rw [List.foldl_append, List.foldl_cons, List.foldl_nil]
      have opens' := (s.foldl_put_kState data).trans opens
      rw [KRecv.put, opens', if_neg (by decide), if_pos rfl]
      rw [List.length_append, List.length_singleton]
      refine ⟨?_, fun i bound => ?_⟩
      · show (if (data.foldl KRecv.put s).sendPtr + 1 ≥ 20 then _ else _) = _
        rw [ptr]
        split <;> omega
      · show Function.update (data.foldl KRecv.put s).sendParms (data.foldl KRecv.put s).sendPtr c i
          = _
        rw [ptr]
        by_cases new : i = min data.length 19
        · rw [new, Function.update_self, List.getD_append_right _ _ _ _ (by omega)]
          rw [show min data.length 19 - data.length = 0 by omega]
          rfl
        · rw [Function.update_of_ne new, parms i (by omega), List.getD_append _ _ _ _ (by omega)]

/-- The quote that a send-init packet announces. -/
theorem KRecv.handleSendPacket_hisQuote (s : KRecv) (data : List Byte)
    (ptr : s.sendPtr = min data.length 19)
    (parms : ∀ i < min data.length 19, s.sendParms i = data.getD i 0) :
    s.handleSendPacket.hisQuote = data.getD 5 kEscape := by
  show (if 6 ≤ (if s.sendPtr = 19 then 18 else s.sendPtr) then s.sendParms 5 else kEscape) = _
  by_cases long : 6 ≤ data.length
  · rw [if_pos (by rw [ptr]; split <;> omega), parms 5 (by omega), List.getD_eq_getElem _ _ long,
      List.getD_eq_getElem _ _ long]
  · rw [if_neg (by rw [ptr]; split <;> omega), List.getD_eq_default _ _ (by omega)]

/-- The state when END has been read. -/
theorem Refines.packet (refines : Refines start s ledger) (packet : Packet) (small : number < 64)
    {noise : List Byte} (quiet : Quiet noise) :
    ∃ received : KRecv,
      s.feed ((Transmission.intact noise).wire (packet.chars number)) = received.accept ∧
      Entered start ledger.quote number (ledger.base number) received ∧
      Filled start (unquote ledger.quote (ledger.base number) packet.carries) received ∧
      received.kState = packet.kind ∧
      (packet.kind = sendType →
        received.handleSendPacket.hisQuote = packet.data.getD 5 kEscape) := by
  obtain ⟨entered, filled⟩ := refines.checkpoint number
  -- the packet has its type
  let typed : KRecv := { s.checkpoint number with kState := packet.kind }
  have entered' : Entered start ledger.quote number (ledger.base number) typed :=
    ⟨entered.origin, entered.quote, entered.lastN, entered.saved, entered.stored, entered.ahead⟩
  have filled' : Filled start (ledger.base number) typed := ⟨filled.data, filled.stored⟩
  have empty : typed.sendPtr = 0 := by
    show (s.checkpoint number).sendPtr = 0
    unfold KRecv.checkpoint
    split <;> exact refines.sendPtr
  refine ⟨(packet.data.foldl KRecv.put typed).goto .finish, ?_, (entered'.foldl_put _).goto _, ?_,
    typed.foldl_put_kState _, fun opens => ?_⟩
  · show s.feed (noise ++ startChar :: packet.chars number) = _
    rw [KRecv.feed_append, KRecv.feed_quiet refines.place quiet, KRecv.feed_cons,
      KRecv.step_start refines.place, KRecv.feed_packet s packet small]
  · have data := filled'.foldl_put packet rfl
    rw [entered'.quote] at data
    exact ⟨data.data, data.stored⟩
  · obtain ⟨ptr, parms⟩ := typed.foldl_put_parms opens empty packet.data
    exact KRecv.handleSendPacket_hisQuote _ _ ptr parms

/-- **An intact transmission does what `Ledger.receive` says.** -/
theorem Refines.intact (refines : Refines start s ledger) (packet : Packet) (small : number < 64)
    {noise : List Byte} (quiet : Quiet noise) (goesOn : packet.kind ≠ breakType) :
    Refines start (s.feed ((Transmission.intact noise).wire (packet.chars number)))
      (Ledger.receive packet number ledger (.intact noise)) := by
  obtain ⟨received, fed, entered, filled, kind, quote⟩ := refines.packet packet small quiet
  rw [fed, Ledger.receive_intact, KRecv.accept, kind, if_neg goesOn]
  split
  · next opens =>
      exact ⟨rfl, rfl, entered.origin, (quote opens).trans (if_pos opens).symm, entered.lastN,
        filled.data, entered.saved, filled.stored, entered.stored⟩
  · next other =>
      exact ⟨rfl, rfl, entered.origin, entered.quote.trans (if_neg other).symm, entered.lastN,
        filled.data, entered.saved, filled.stored, entered.stored⟩

/-- **An intact break packet ends `k_recv`** with the bytes it has. -/
theorem Refines.breaks (refines : Refines start s ledger) (packet : Packet) (small : number < 64)
    {noise : List Byte} (quiet : Quiet noise) (ends : packet.kind = breakType) :
    (s.feed ((Transmission.intact noise).wire (packet.chars number))).place =
        .done (int32 (ledger.base number).1.length) ∧
      Stored (s.feed ((Transmission.intact noise).wire (packet.chars number))).ram start
        (ledger.base number).1 := by
  obtain ⟨received, fed, entered, filled, kind, _⟩ := refines.packet packet small quiet
  rw [Packet.carries, ends, if_neg (by decide)] at filled
  rw [fed, KRecv.accept, kind, ends, if_neg (by decide), if_pos rfl]
  refine ⟨?_, filled.stored⟩
  show Place.done (int32 (received.data.addr - received.binStartAddress)) = _
  rw [filled.data, entered.origin]
  show Place.done (int32 (start + (ledger.base number).1.length - start)) = _
  rw [Nat.add_sub_cancel_left]

end Intact

end K210Guard
