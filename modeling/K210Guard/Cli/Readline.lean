/-
**Line editing** (`delete_char` and `cli_readline_into_buffer`, `cli/cli.c`; `_ctype`,
`bsp/ctype.c`).

The pointer, the character count and the column are separate variables of the code, and the buffer
is memory around `console_buffer`, whose first byte is at address 0. The bytes stored and the calls
that print are recorded.

* `editStep` — what a byte does to the characters held.
* `handle_spec` — the code does that, keeps its variables in step and prints what `echo` says.
* `cliReadline_edits` — the line returned is the fold over the bytes typed, and nothing is written
  outside the buffer.
-/

import K210Guard.Memory.Range
import Mathlib.Data.List.Basic
import Mathlib.Data.List.Induction
import Mathlib.Logic.Function.Basic

namespace K210Guard

/-! ### `_ctype` -/

/-- The table, in runs of equal entries: `_U` 1, `_L` 2, `_D` 4, `_C` 8, `_P` 0x10, `_S` 0x20,
`_X` 0x40, `_SP` 0x80. -/
def ctypeRuns : List (Nat × Nat) :=
  [(9, 0x08), (5, 0x28), (18, 0x08), (1, 0xA0), (15, 0x10), (10, 0x04), (7, 0x10), (6, 0x41),
    (20, 0x01), (6, 0x10), (6, 0x42), (20, 0x02), (4, 0x10), (1, 0x08), (32, 0), (1, 0xA0),
    (31, 0x10), (23, 0x01), (1, 0x10), (7, 0x01), (24, 0x02), (1, 0x10), (8, 0x02)]

/-- `_ctype` -/
def ctype : List Nat := ctypeRuns.flatMap fun run => List.replicate run.1 run.2

def isprint (c : Byte) : Bool := ctype.getD c.toNat 0 &&& 0x97 ≠ 0

def iscntrl (c : Byte) : Bool := ctype.getD c.toNat 0 &&& 0x08 ≠ 0

theorem ctype_length : ctype.length = 2 ^ 8 := by decide +kernel

/-- The entry of a byte is that of some run. -/
theorem ctype_runs (c : Byte) : ∃ run ∈ ctypeRuns, ctype.getD c.toNat 0 = run.2 := by
  have inside : c.toNat < ctype.length := ctype_length ▸ c.isLt
  obtain ⟨run, listed, member⟩ := List.mem_flatMap.mp (List.getElem_mem inside)
  exact ⟨run, listed, (List.getD_eq_getElem _ _ inside).trans (List.eq_of_mem_replicate member)⟩

theorem isprint_iff (c : Byte) :
    isprint c = true ↔ 0x20 ≤ c.toNat ∧ c.toNat ≤ 0x7E ∨ 0xA0 ≤ c.toNat := by
  have table : ctype.map (fun entry => decide (entry &&& 0x97 ≠ 0)) =
      (List.range 256).map fun n => decide (0x20 ≤ n ∧ n ≤ 0x7E ∨ 0xA0 ≤ n) := by decide +kernel
  have inside : c.toNat < ctype.length := ctype_length ▸ c.isLt
  have entry : (ctype.map fun entry => decide (entry &&& 0x97 ≠ 0))[c.toNat]? =
      some (decide (0x20 ≤ c.toNat ∧ c.toNat ≤ 0x7E ∨ 0xA0 ≤ c.toNat)) := by
    rw [table, List.getElem?_map, List.getElem?_range c.isLt, Option.map_some]
  rw [List.getElem?_map, List.getElem?_eq_getElem inside, Option.map_some,
    Option.some.injEq] at entry
  rw [isprint, List.getD_eq_getElem _ _ inside, entry, decide_eq_true_iff]

/-- No entry is both. -/
theorem iscntrl_of_isprint {c : Byte} (printable : isprint c = true) : iscntrl c = false := by
  have apart : ∀ run ∈ ctypeRuns, decide (run.2 &&& 0x97 ≠ 0) = true →
      decide (run.2 &&& 0x08 ≠ 0) = false := by decide
  obtain ⟨run, listed, entry⟩ := ctype_runs c
  rw [isprint, entry] at printable
  rw [iscntrl, entry]
  exact apart run listed printable

/-- The control characters that the editor knows, and the tab. -/
theorem isprint_editing :
    ∀ c ∈ ([0x00, 0x15, 0x17, 0x08, 0x7F, 0x09] : List Byte), isprint c = false := by
  exact List.forall_iff_forall_mem.mp (by decide +kernel)

/-! ### The code -/

/-- `CONFIG_SYS_CBSIZE`; `console_buffer` has one byte more. -/
def cbSize : Nat := 64

/-- A call that prints. -/
inductive Print
  | printk (format : List Byte)
  | putchar (c : Byte)
  deriving DecidableEq

/-- `erase_seq` -/
def eraseSeq : Print := .printk [0x08, 0x20, 0x08]

/-- `tab_seq + (col & 07)` -/
def tabSeq (col : Int) : Print := .printk (List.replicate (8 - (col % 8).toNat) 0x20)

/-- The local variables and the buffer, with the addresses written and the calls made. -/
structure Readline where
  buffer : Int → Byte
  p : Int
  n : Nat
  col : Int
  writes : List Int
  prints : List Print

namespace Readline

/-- `*p = c` -/
def store (s : Readline) (address : Int) (c : Byte) : Readline :=
  { s with buffer := Function.update s.buffer address c, writes := s.writes ++ [address] }

def print (s : Readline) (call : Print) : Readline := { s with prints := s.prints ++ [call] }

/-- `while (col > plen)`, which ends after `col - plen` turns. -/
def eraseColumns (plen : Int) : (turns : Nat) → Readline → Readline
  | 0, s => s
  | turns + 1, s =>
      if s.col > plen then
        eraseColumns plen turns { s.print eraseSeq with col := s.col - 1 }
      else s

/-- `for (s = buffer; s < p; ++s)`, of `delete_char`. -/
def retype : (turns : Nat) → (address : Int) → Readline → Readline
  | 0, _, s => s
  | turns + 1, address, s =>
      retype turns (address + 1)
        (if s.buffer address = 0x09 then
          { s.print (tabSeq s.col) with col := s.col + (8 - s.col % 8) }
        else { s.print (.putchar (s.buffer address)) with col := s.col + 1 })

/-- `delete_char` -/
def deleteChar (plen : Int) (s : Readline) : Readline :=
  if s.n = 0 then s
  else
    let s := { s with p := s.p - 1 }
    let s :=
      if s.buffer s.p = 0x09 then
        retype s.p.toNat 0 (eraseColumns plen (s.col - plen).toNat s)
      else { s.print eraseSeq with col := s.col - 1 }
    { s with n := s.n - 1 }

/-- `while ((n > 0) && (*p != ' '))`, which ends after `n` turns. -/
def eraseWord (plen : Int) : (turns : Nat) → Readline → Readline
  | 0, s => s
  | turns + 1, s =>
      if s.n > 0 ∧ s.buffer s.p ≠ 0x20 then eraseWord plen turns (s.deleteChar plen) else s

/-- The cases of the `switch` after which the loop goes on. -/
def handle (plen : Int) (s : Readline) (c : Byte) : Readline :=
  if c = 0x00 then s
  else if c = 0x15 then { s.eraseColumns plen (s.col - plen).toNat with p := 0, n := 0 }
  else if c = 0x17 then
    let s := s.deleteChar plen
    s.eraseWord plen s.n
  else if c = 0x08 ∨ c = 0x7F then s.deleteChar plen
  else if isprint c = false then s
  else if s.n < cbSize - 2 then
    let s :=
      if c = 0x09 then { s.print (tabSeq s.col) with col := s.col + (8 - s.col % 8) }
      else { s with col := s.col + 1 }.print (.printk [c])
    let s := s.store s.p c
    { s with p := s.p + 1, n := s.n + 1 }
  else s.print (.putchar 0x07)

/-- The loop, up to its return: `none` while it waits for input. -/
def loop (plen : Int) : Readline → (input : List Byte) → Option (Int × Readline)
  | _, [] => none
  | s, c :: input =>
      if c = 0x0D ∨ c = 0x0A then some (s.p, (s.store s.p 0).print (.printk [0x0D, 0x0A]))
      else if c = 0x03 then some (-1, s.store 0 0)
      else loop plen (s.handle plen c) input

/-- The state in which the loop begins; `prompt` may be NULL. -/
def start (prompt : Option (List Byte)) (buffer : Int → Byte) : Readline :=
  match prompt with
  | none => ⟨buffer, 0, 0, 0, [], []⟩
  | some text => ⟨buffer, 0, 0, text.length, [], [.printk text]⟩

end Readline

/-- `plen` -/
def promptLength (prompt : Option (List Byte)) : Int :=
  match prompt with
  | none => 0
  | some text => text.length

/-- `cli_readline_into_buffer` on `console_buffer`: what it returns and leaves. -/
def cliReadlineIntoBuffer (prompt : Option (List Byte)) (buffer : Int → Byte)
    (input : List Byte) : Option (Int × Readline) :=
  (Readline.start prompt buffer).loop (promptLength prompt) input

/-! ### What a byte should do -/

/-- The shortest suffix that begins with a space is dropped, or everything without a space. -/
def dropWord (held : List Byte) : List Byte :=
  (held.reverse.dropWhile (· ≠ 0x20)).tail.reverse

@[simp] theorem dropWord_nil : dropWord [] = [] := rfl

theorem dropWord_concat (held : List Byte) (last : Byte) :
    dropWord (held ++ [last]) = if last = 0x20 then held else dropWord held := by
  rw [dropWord, List.reverse_append, List.reverse_singleton, List.singleton_append]
  by_cases space : last = 0x20
  · rw [List.dropWhile_cons_of_neg (by simpa using space), if_pos space, List.tail_cons,
      List.reverse_reverse]
  · rw [List.dropWhile_cons_of_pos (by simpa using space), if_neg space, dropWord]

/-- What is dropped. -/
theorem dropWord_shortest (held : List Byte) :
    0x20 ∉ held ∧ dropWord held = [] ∨
      ∃ word, 0x20 ∉ word ∧ held = dropWord held ++ 0x20 :: word := by
  induction held using List.reverseRecOn with
  | nil => exact Or.inl ⟨List.not_mem_nil, rfl⟩
  | append_singleton held last ih =>
      rw [dropWord_concat]
      by_cases space : last = 0x20
      · rw [if_pos space, space]
        exact Or.inr ⟨[], List.not_mem_nil, rfl⟩
      · rw [if_neg space]
        rcases ih with ⟨noSpace, empty⟩ | ⟨word, noSpace, whole⟩
        · refine Or.inl ⟨fun member => ?_, empty⟩
          rcases List.mem_append.mp member with before | here
          · exact noSpace before
          · exact space (List.mem_singleton.mp here).symm
        · refine Or.inr ⟨word ++ [last], fun member => ?_, ?_⟩
          · rcases List.mem_append.mp member with before | here
            · exact noSpace before
            · exact space (List.mem_singleton.mp here).symm
          · rw [← List.cons_append, ← List.append_assoc, ← whole]

theorem dropWord_length_le (held : List Byte) : (dropWord held).length ≤ held.length := by
  rcases dropWord_shortest held with ⟨-, empty⟩ | ⟨word, -, whole⟩
  · rw [empty]
    exact Nat.zero_le _
  · conv_rhs => rw [whole, List.length_append]
    exact Nat.le_add_right _ _

/-- What a byte that does not end the line does to the characters held. -/
def editStep (held : List Byte) (c : Byte) : List Byte :=
  if c = 0x08 ∨ c = 0x7F then held.dropLast
  else if c = 0x15 then []
  else if c = 0x17 then dropWord held
  else if isprint c ∧ held.length < 62 then held ++ [c]
  else held

/-- What it prints. -/
def echo (held : List Byte) (c : Byte) : List Print :=
  if isprint c then [if held.length < 62 then .printk [c] else .putchar 0x07]
  else List.replicate (held.length - (editStep held c).length) eraseSeq

namespace Readline

/-- The state that holds a text. -/
structure Holds (s : Readline) (plen : Int) (text : List Byte) : Prop where
  buffer : ∀ (i : Nat) (inside : i < text.length), s.buffer i = text[i]
  p : s.p = text.length
  n : s.n = text.length
  col : s.col = plen + text.length
  short : text.length ≤ 62
  printable : ∀ c ∈ text, isprint c = true
  writes : ∀ address ∈ s.writes, 0 ≤ address ∧ address < 65

variable {s : Readline} {plen : Int} {text : List Byte} {c last : Byte}

theorem eraseColumns_eq (turns : Nat) (s : Readline) (enough : plen + turns ≤ s.col) :
    s.eraseColumns plen turns = { s with
      prints := s.prints ++ List.replicate turns eraseSeq, col := s.col - turns } := by
  induction turns generalizing s with
  | zero => simp [eraseColumns]
  | succ turns ih =>
      rw [eraseColumns, if_pos (by omega), ih _ (by dsimp only; omega), print]
      dsimp only
      rw [List.append_assoc, List.singleton_append, ← List.replicate_succ, Int.sub_sub,
        Int.add_comm 1, ← Int.natCast_succ]

/-- A character is erased. -/
theorem Holds.deleteChar (holds : s.Holds plen (text ++ [last])) :
    (s.deleteChar plen).Holds plen text ∧ (s.deleteChar plen).prints = s.prints ++ [eraseSeq] ∧
      (s.deleteChar plen).buffer (s.deleteChar plen).p = last := by
  have size : (text ++ [last]).length = text.length + 1 := by simp
  have count := holds.n
  have pointer := holds.p
  have column := holds.col
  have short := holds.short
  rw [size] at count pointer column short
  have before : s.p - 1 = text.length := by omega
  have under : s.buffer text.length = last := by
    rw [holds.buffer text.length (by omega)]
    simp
  have notTab : last ≠ 0x09 := by
    rintro rfl
    have printable := holds.printable 0x09 (List.mem_append_right _ (List.mem_singleton_self _))
    rw [isprint_editing 0x09 (by simp)] at printable
    exact Bool.false_ne_true printable
  have step : s.deleteChar plen =
      { s with p := text.length, n := text.length, col := s.col - 1,
               prints := s.prints ++ [eraseSeq] } := by
    rw [Readline.deleteChar, if_neg (by omega)]
    dsimp only
    rw [before, under, if_neg notTab, count]
    rfl
  rw [step]
  refine ⟨⟨fun i inside => ?_, rfl, rfl, ?_, by omega, fun c member => ?_, holds.writes⟩, rfl,
    under⟩
  · have cell := holds.buffer i (by omega)
    rwa [List.getElem_append_left inside] at cell
  · dsimp only
    omega
  · exact holds.printable c (List.mem_append_left _ member)

theorem Holds.deleteChar_nil (holds : s.Holds plen []) : s.deleteChar plen = s :=
  if_pos holds.n

/-- Characters are erased up to a space, the last one erased. -/
theorem Holds.eraseWord (holds : s.Holds plen text) (under : s.buffer s.p = last) :
    (s.eraseWord plen text.length).Holds plen (if last = 0x20 then text else dropWord text) ∧
      (s.eraseWord plen text.length).prints = s.prints ++
        List.replicate (text.length - (if last = 0x20 then text else dropWord text).length)
          eraseSeq := by
  induction text using List.reverseRecOn generalizing s last with
  | nil =>
      rw [dropWord_nil, ite_self]
      exact ⟨holds, (List.append_nil _).symm⟩
  | append_singleton text c ih =>
      rw [List.length_append, List.length_singleton, Readline.eraseWord, under]
      have some' : s.n > 0 := by
        rw [holds.n, List.length_append]
        exact Nat.succ_pos _
      by_cases space : last = 0x20
      · rw [if_neg (fun goesOn => goesOn.2 space), if_pos space]
        refine ⟨holds, ?_⟩
        simp
      · obtain ⟨erased, prints, under'⟩ := holds.deleteChar
        obtain ⟨rest, restPrints⟩ := ih erased under'
        rw [if_pos ⟨some', space⟩, if_neg space, dropWord_concat]
        refine ⟨rest, ?_⟩
        have fewer : (if c = 0x20 then text else dropWord text).length ≤ text.length := by
          split
          · exact Nat.le_refl _
          · exact dropWord_length_le text
        rw [restPrints, prints, List.append_assoc, List.singleton_append, ← List.replicate_succ,
          Nat.succ_sub fewer]

/-- A byte that is neither printable nor known to the editor. -/
theorem editStep_other (held : List Byte) (plain : isprint c = false)
    (others : c ≠ 0x15 ∧ c ≠ 0x17 ∧ c ≠ 0x08 ∧ c ≠ 0x7F) :
    editStep held c = held ∧ echo held c = [] := by
  obtain ⟨notLine, notWord, notBack, notDelete⟩ := others
  have same : editStep held c = held := by
    rw [editStep, if_neg (not_or.mpr ⟨notBack, notDelete⟩), if_neg notLine, if_neg notWord, plain,
      if_neg (fun accepted => Bool.false_ne_true accepted.1)]
  refine ⟨same, ?_⟩
  rw [echo, plain, if_neg Bool.false_ne_true, same, Nat.sub_self, List.replicate_zero]

/-- A printable byte. -/
theorem editStep_printable (held : List Byte) (printable : isprint c = true) :
    editStep held c = if held.length < 62 then held ++ [c] else held := by
  have known : ∀ b, isprint b = false → c ≠ b := by
    rintro b plain rfl
    exact Bool.false_ne_true (plain.symm.trans printable)
  have editing := fun b member => known b (isprint_editing b member)
  rw [editStep, if_neg (not_or.mpr ⟨editing 0x08 (by simp), editing 0x7F (by simp)⟩),
    if_neg (editing 0x15 (by simp)), if_neg (editing 0x17 (by simp)), printable]
  simp

/-- A character is stored. -/
theorem Holds.append (holds : s.Holds plen text) (room : text.length < 62)
    (printable : isprint c = true) (prints : List Print) :
    Holds ⟨Function.update s.buffer s.p c, s.p + 1, s.n + 1, s.col + 1, s.writes ++ [s.p], prints⟩
      plen (text ++ [c]) := by
  have size : (text ++ [c]).length = text.length + 1 := by simp
  refine ⟨fun i inside => ?_, ?_, ?_, ?_, ?_, fun b member => ?_, fun address member => ?_⟩
  · rw [size] at inside
    dsimp only
    rw [holds.p]
    by_cases here : i = text.length
    · subst here
      simp
    · rw [Function.update_of_ne (by omega), holds.buffer i (by omega),
        List.getElem_append_left (by omega)]
  · rw [size, holds.p]
    rfl
  · rw [size, holds.n]
  · rw [size, holds.col]
    dsimp only
    omega
  · omega
  · rcases List.mem_append.mp member with before | here
    · exact holds.printable b before
    · rw [List.mem_singleton.mp here]
      exact printable
  · rcases List.mem_append.mp member with before | here
    · exact holds.writes address before
    · rw [List.mem_singleton.mp here, holds.p]
      omega

/-- ^U -/
theorem Holds.eraseLine (holds : s.Holds plen text) :
    Holds { s.eraseColumns plen (s.col - plen).toNat with p := 0, n := 0 } plen [] ∧
      (s.eraseColumns plen (s.col - plen).toNat).prints =
        s.prints ++ List.replicate text.length eraseSeq := by
  have turns : (s.col - plen).toNat = text.length := by
    rw [holds.col]
    omega
  rw [turns, eraseColumns_eq text.length s (by rw [holds.col])]
  refine ⟨⟨fun i inside => absurd inside (Nat.not_lt_zero i), rfl, rfl, ?_, Nat.zero_le _,
    fun b none => absurd none List.not_mem_nil, holds.writes⟩, rfl⟩
  dsimp only
  rw [holds.col]
  simp

/-- ^W -/
theorem Holds.dropWord (holds : s.Holds plen text) :
    ((s.deleteChar plen).eraseWord plen (s.deleteChar plen).n).Holds plen
        (K210Guard.dropWord text) ∧
      ((s.deleteChar plen).eraseWord plen (s.deleteChar plen).n).prints = s.prints ++
        List.replicate (text.length - (K210Guard.dropWord text).length) eraseSeq := by
  cases text using List.reverseRecOn with
  | nil =>
      rw [holds.deleteChar_nil, holds.n]
      exact ⟨holds, (List.append_nil _).symm⟩
  | append_singleton text last =>
      obtain ⟨erased, prints, under⟩ := holds.deleteChar
      obtain ⟨rest, restPrints⟩ := erased.eraseWord under
      have fewer : (K210Guard.dropWord (text ++ [last])).length ≤ text.length := by
        rw [dropWord_concat]
        split
        · exact Nat.le_refl _
        · exact dropWord_length_le text
      rw [erased.n]
      rw [dropWord_concat] at fewer ⊢
      refine ⟨rest, ?_⟩
      rw [restPrints, prints, List.append_assoc, List.singleton_append, ← List.replicate_succ,
        List.length_append, List.length_singleton, Nat.sub_add_comm fewer]

/-- BS and DEL -/
theorem Holds.dropLast (holds : s.Holds plen text) :
    (s.deleteChar plen).Holds plen text.dropLast ∧
      (s.deleteChar plen).prints = s.prints ++
        List.replicate (text.length - text.dropLast.length) eraseSeq := by
  cases text using List.reverseRecOn with
  | nil =>
      rw [holds.deleteChar_nil]
      exact ⟨holds, (List.append_nil _).symm⟩
  | append_singleton text last =>
      obtain ⟨erased, prints, -⟩ := holds.deleteChar
      rw [List.dropLast_concat, prints]
      refine ⟨erased, ?_⟩
      simp

/-- **One byte**: the variables stay in step, the text is edited and the echo printed. -/
theorem Holds.handle (holds : s.Holds plen text) (c : Byte) :
    (s.handle plen c).Holds plen (editStep text c) ∧
      (s.handle plen c).prints = s.prints ++ echo text c := by
  have editing : ∀ b ∈ ([0x00, 0x15, 0x17, 0x08, 0x7F, 0x09] : List Byte), c = b →
      isprint c = false := by
    rintro b member rfl
    exact isprint_editing c member
  rw [Readline.handle]
  by_cases isNul : c = 0x00
  · have other := editStep_other text (editing 0x00 (by simp) isNul)
      (by rw [isNul]; decide)
    rw [if_pos isNul, other.1, other.2]
    exact ⟨holds, (List.append_nil _).symm⟩
  rw [if_neg isNul]
  by_cases isLine : c = 0x15
  · have edit : editStep text c = [] := by
      rw [editStep, isLine]
      rfl
    rw [if_pos isLine, echo, edit, editing 0x15 (by simp) isLine]
    exact holds.eraseLine
  rw [if_neg isLine]
  by_cases isWord : c = 0x17
  · have edit : editStep text c = K210Guard.dropWord text := by
      rw [editStep, isWord]
      rfl
    rw [if_pos isWord, echo, edit, editing 0x17 (by simp) isWord]
    exact holds.dropWord
  rw [if_neg isWord]
  by_cases isBack : c = 0x08 ∨ c = 0x7F
  · have plain : isprint c = false :=
      isBack.elim (editing 0x08 (by simp)) (editing 0x7F (by simp))
    rw [if_pos isBack, echo, plain, editStep, if_pos isBack]
    exact holds.dropLast
  rw [if_neg isBack]
  cases printable : isprint c with
  | false =>
      have other := editStep_other text printable
        ⟨isLine, isWord, (not_or.mp isBack).1, (not_or.mp isBack).2⟩
      rw [if_pos rfl, other.1, other.2]
      exact ⟨holds, (List.append_nil _).symm⟩
  | true =>
      have notTab : c ≠ 0x09 := fun isTab =>
        Bool.false_ne_true ((editing 0x09 (by simp) isTab).symm.trans printable)
      rw [if_neg Bool.noConfusion, editStep_printable text printable, echo, printable, if_pos rfl,
        holds.n, cbSize]
      by_cases room : text.length < 62
      · rw [if_pos room, if_pos room, if_pos room, if_neg notTab]
        exact ⟨holds.n ▸ holds.append room printable _, rfl⟩
      · rw [if_neg room, if_neg room, if_neg room]
        exact ⟨⟨holds.buffer, holds.p, holds.n, holds.col, holds.short, holds.printable,
          holds.writes⟩, rfl⟩

/-- The beginning. -/
theorem holds_start (prompt : Option (List Byte)) (buffer : Int → Byte) :
    (start prompt buffer).Holds (promptLength prompt) [] := by
  have nothing : ∀ address ∈ ([] : List Int), 0 ≤ address ∧ address < 65 :=
    fun _ none => absurd none List.not_mem_nil
  cases prompt with
  | none =>
      exact ⟨fun i inside => absurd inside (Nat.not_lt_zero i), rfl, rfl, rfl, Nat.zero_le _,
        fun _ none => absurd none List.not_mem_nil, nothing⟩
  | some text =>
      exact ⟨fun i inside => absurd inside (Nat.not_lt_zero i), rfl, rfl, (Int.add_zero _).symm,
        Nat.zero_le _, fun _ none => absurd none List.not_mem_nil, nothing⟩

/-- Many bytes. -/
theorem Holds.foldl (holds : s.Holds plen text) (typed : List Byte) :
    (typed.foldl (Readline.handle plen) s).Holds plen (typed.foldl editStep text) := by
  induction typed generalizing s text with
  | nil => exact holds
  | cons c typed ih => exact ih (holds.handle c).1

/-- The loop goes through the bytes that do not end it. -/
theorem loop_append (plen : Int) (s : Readline) {typed : List Byte}
    (goesOn : ∀ c ∈ typed, c ≠ 0x0D ∧ c ≠ 0x0A ∧ c ≠ 0x03) (input : List Byte) :
    s.loop plen (typed ++ input) = (typed.foldl (Readline.handle plen) s).loop plen input := by
  induction typed generalizing s with
  | nil => rfl
  | cons c typed ih =>
      obtain ⟨notReturn, notNewline, notBreak⟩ := goesOn c List.mem_cons_self
      rw [List.cons_append, loop, if_neg (not_or.mpr ⟨notReturn, notNewline⟩), if_neg notBreak,
        ih _ fun b member => goesOn b (List.mem_cons_of_mem c member)]
      rfl

end Readline

/-- A line has been read: its length is returned, it is a C string in the buffer, and nothing else
has been written than `console_buffer`. -/
structure LineRead (rc : Int) (done : Readline) (text : List Byte) : Prop where
  length : rc = text.length
  chars : ∀ (i : Nat) (inside : i < text.length), done.buffer i = text[i]
  notNul : ∀ c ∈ text, c ≠ 0x00
  terminated : done.buffer text.length = 0x00
  inside : ∀ address ∈ done.writes, 0 ≤ address ∧ address < cbSize + 1

/-- **Line editing.** What is typed up to Enter is folded with `editStep`. -/
theorem cliReadline_edits (prompt : Option (List Byte)) (buffer : Int → Byte) (typed : List Byte)
    (goesOn : ∀ c ∈ typed, c ≠ 0x0D ∧ c ≠ 0x0A ∧ c ≠ 0x03) (enter : Byte)
    (isEnter : enter = 0x0D ∨ enter = 0x0A) (rest : List Byte) :
    ∃ rc done, cliReadlineIntoBuffer prompt buffer (typed ++ enter :: rest) = some (rc, done) ∧
      LineRead rc done (typed.foldl editStep []) := by
  have holds := (Readline.holds_start prompt buffer).foldl typed
  rw [cliReadlineIntoBuffer, Readline.loop_append _ _ goesOn, Readline.loop, if_pos isEnter]
  refine ⟨_, _, rfl, holds.p, fun i inside => ?_, ?_, ?_, fun address member => ?_⟩
  · show Function.update _ _ _ _ = _
    rw [Function.update_of_ne, holds.buffer i inside]
    rw [holds.p]
    omega
  · rintro c member rfl
    exact Bool.false_ne_true
      ((isprint_editing 0x00 (by simp)).symm.trans (holds.printable 0x00 member))
  · rw [← holds.p]
    exact Function.update_self _ _ _
  · rcases List.mem_append.mp member with before | last
    · exact holds.writes address before
    · rw [List.mem_singleton.mp last, holds.p]
      have short := holds.short
      refine ⟨by omega, ?_⟩
      rw [cbSize]
      omega

/-- Two words, the second one erased and typed again. -/
theorem cliReadline_edits_md :
    ∃ rc done, cliReadlineIntoBuffer none (fun _ => 0xFF)
        ([0x6D, 0x64, 0x20, 0x38, 0x17, 0x20, 0x39, 0x7F, 0x00] ++ 0x0D :: []) = some (rc, done) ∧
      LineRead rc done [0x6D, 0x64, 0x20] := by
  have folded : [0x6D, 0x64, 0x20, 0x38, 0x17, 0x20, 0x39, 0x7F, 0x00].foldl editStep [] =
      [0x6D, 0x64, 0x20] := by decide +kernel
  rw [← folded]
  exact cliReadline_edits none (fun _ => 0xFF) _ (by simp) 0x0D (Or.inl rfl) []

end K210Guard
