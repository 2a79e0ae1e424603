/-
**Control quoting.**

A Kermit sender prefixes a control character with the quote character and sends it with bit 6
flipped; a character whose low seven bits are the quote itself is prefixed as it is. The receiver
removes the prefixes one character at a time.

* `unquote_encode` — unquoting an encoded file gives the file back, for every legal quote.
* `unquote_length` — how many bytes a stream unquotes to. Leaving characters out of it never makes
  the number larger (`stored_le_append`), leaving two out makes it smaller (`stored_lt_cons_cons`).
-/

import K210Guard.Memory.Range

namespace K210Guard

/-! ### The two directions -/

/-- `ktrans` of `cli/load.c` -/
def ktrans (c : Byte) : Byte :=
  if c &&& 0x60 = 0x40 then c &&& ~~~0x40
  else if c &&& 0x7F = 0x3F then c ||| 0x40
  else c

/-- The quote characters a sender may announce. -/
def LegalQuote (quote : Byte) : Prop :=
  (33 ≤ quote.toNat ∧ quote.toNat ≤ 62) ∨ (96 ≤ quote.toNat ∧ quote.toNat ≤ 126)

instance (quote : Byte) : Decidable (LegalQuote quote) := instDecidableOr

/-- The characters a byte is sent as. -/
def quoted (quote byte : Byte) : List Byte :=
  if (byte &&& 0x7F).toNat < 32 ∨ byte &&& 0x7F = 0x7F then [quote, byte ^^^ 0x40]
  else if byte &&& 0x7F = quote then [quote, byte]
  else [byte]

/-- The characters a file is sent as. -/
def encode (quote : Byte) (file : List Byte) : List Byte := file.flatMap (quoted quote)

/-- What the receiver has stored, and whether the last character was a quote. -/
abbrev Unquoted := List Byte × Bool

/-- One character. -/
def unquoteChar (quote : Byte) (data : Unquoted) (c : Byte) : Unquoted :=
  if data.2 then (data.1 ++ [ktrans c], false)
  else if c = quote then (data.1, true)
  else (data.1 ++ [c], false)

/-- A run of characters. -/
def unquote (quote : Byte) (data : Unquoted) (chars : List Byte) : Unquoted :=
  chars.foldl (unquoteChar quote) data

theorem unquote_append (quote : Byte) (data : Unquoted) (first rest : List Byte) :
    unquote quote data (first ++ rest) = unquote quote (unquote quote data first) rest :=
  List.foldl_append

/-! ### The round trip -/

theorem ktrans_control : ∀ byte : Byte, (byte &&& 0x7F).toNat < 32 ∨ byte &&& 0x7F = 0x7F →
    ktrans (byte ^^^ 0x40) = byte := by decide

theorem ktrans_legal : ∀ byte : Byte, LegalQuote (byte &&& 0x7F) → ktrans byte = byte := by decide

theorem legal_low : ∀ quote : Byte, LegalQuote quote → quote &&& 0x7F = quote := by decide

/-- One byte, sent and received. -/
theorem unquote_quoted {quote : Byte} (legal : LegalQuote quote) (out : List Byte) (byte : Byte) :
    unquote quote (out, false) (quoted quote byte) = (out ++ [byte], false) := by
  have opens : unquoteChar quote (out, false) quote = (out, true) := by
    rw [unquoteChar, if_neg Bool.false_ne_true, if_pos rfl]
  have closes : ∀ c, unquoteChar quote (out, true) c = (out ++ [ktrans c], false) := fun c => rfl
  unfold quoted
  split
  · next control =>
      show unquoteChar quote (unquoteChar quote (out, false) quote) _ = _
      rw [opens, closes, ktrans_control byte control]
  split
  · next same =>
      show unquoteChar quote (unquoteChar quote (out, false) quote) _ = _
      rw [opens, closes, ktrans_legal byte (by rw [same]; exact legal)]
  · next other =>
      show unquoteChar quote (out, false) byte = _
      have differ : byte ≠ quote := fun same => other (by rw [same]; exact legal_low quote legal)
      rw [unquoteChar, if_neg Bool.false_ne_true, if_neg differ]

/-- **Unquoting an encoded file gives the file back.** -/
theorem unquote_encode {quote : Byte} (legal : LegalQuote quote) (out file : List Byte) :
    unquote quote (out, false) (encode quote file) = (out ++ file, false) := by
  induction file generalizing out with
  | nil => rw [List.append_nil]; rfl
  | cons byte file ih =>
      rw [encode, List.flatMap_cons, unquote_append, unquote_quoted legal, ← encode, ih,
        List.append_assoc, List.singleton_append]

/-! ### Characters left out -/

/-- How many bytes a stream unquotes to. -/
def stored (quote : Byte) : Bool → List Byte → Nat
  | _, [] => 0
  | true, _ :: chars => stored quote false chars + 1
  | false, c :: chars => if c = quote then stored quote true chars else stored quote false chars + 1

theorem unquote_length (quote : Byte) (data : Unquoted) (chars : List Byte) :
    (unquote quote data chars).1.length = data.1.length + stored quote data.2 chars := by
  induction chars generalizing data with
  | nil => rfl
  | cons c chars ih =>
      rw [show unquote quote data (c :: chars) = unquote quote (unquoteChar quote data c) chars
        from rfl, ih]
      obtain ⟨out, escape⟩ := data
      cases escape with
      | true =>
          show (out ++ [ktrans c]).length + stored quote false chars = _
          rw [List.length_append, List.length_singleton, stored]
          dsimp only
          omega
      | false =>
          rw [unquoteChar, if_neg Bool.false_ne_true, stored]
          split
          · rfl
          · dsimp only
            rw [List.length_append, List.length_singleton]
            omega

/-- Characters in front only decide whether a quote is pending. -/
theorem stored_append (quote : Byte) (escape : Bool) (first : List Byte) :
    ∃ count pending, ∀ chars,
      stored quote escape (first ++ chars) = count + stored quote pending chars := by
  induction first generalizing escape with
  | nil => exact ⟨0, escape, fun chars => (Nat.zero_add _).symm⟩
  | cons c first ih =>
      cases escape with
      | true =>
          obtain ⟨count, pending, split⟩ := ih false
          refine ⟨count + 1, pending, fun chars => ?_⟩
          rw [List.cons_append, stored, split, Nat.add_right_comm]
      | false =>
          by_cases opens : c = quote
          · obtain ⟨count, pending, split⟩ := ih true
            refine ⟨count, pending, fun chars => ?_⟩
            rw [List.cons_append, stored, if_pos opens, split]
          · obtain ⟨count, pending, split⟩ := ih false
            refine ⟨count + 1, pending, fun chars => ?_⟩
            rw [List.cons_append, stored, if_neg opens, split, Nat.add_right_comm]

/-- A pending quote changes the number by at most one. -/
theorem stored_pending (quote : Byte) (chars : List Byte) :
    stored quote false chars ≤ stored quote true chars ∧
      stored quote true chars ≤ stored quote false chars + 1 := by
  induction chars with
  | nil => exact ⟨Nat.le_refl _, Nat.zero_le _⟩
  | cons c chars ih =>
      rw [stored, stored]
      split <;> omega

/-- One character left out never makes the number larger. -/
theorem stored_le_cons (quote : Byte) (escape : Bool) (c : Byte) (chars : List Byte) :
    stored quote escape chars ≤ stored quote escape (c :: chars) := by
  have pending := stored_pending quote chars
  cases escape with
  | true => rw [stored]; omega
  | false =>
      rw [stored]
      split <;> omega

theorem stored_le_append (quote : Byte) (escape : Bool) (first chars : List Byte) :
    stored quote escape chars ≤ stored quote escape (first ++ chars) := by
  induction first with
  | nil => exact Nat.le_refl _
  | cons c first ih => exact ih.trans (stored_le_cons quote escape c (first ++ chars))

/-- Two characters left out make it smaller. -/
theorem stored_lt_cons_cons (quote : Byte) (escape : Bool) (c d : Byte) (chars : List Byte) :
    stored quote escape chars < stored quote escape (c :: d :: chars) := by
  have pending := stored_pending quote chars
  have one := stored_le_cons quote false d chars
  cases escape with
  | true =>
      rw [stored, stored]
      split <;> omega
  | false =>
      rw [stored]
      split
      · rw [stored]
        omega
      · omega

end K210Guard
