/-
**What the terminal shows of the line editor** (`tfp_format`, `bsp/printf.c`).

The editor echoes through `printk`, with the byte typed as its format. A terminal line has cells and
a cursor; the terminal has no access to the buffer.

* `tfpFormat_plain` — a format without `%` prints itself.
* `Shows.handle` — after each byte that is not a `%` stored, the line shows the prompt and the text.
* `screen_showsBuffer_iff` — so it does all the time exactly if no `%` is stored.
-/

import K210Guard.Cli.Readline

namespace K210Guard

/-! ### `tfp_format` without arguments -/

/-- The loop of `a2u` for base 10, which takes an `a` for a digit. -/
def isA2uDigit (c : Byte) : Bool := (0x30 ≤ c && c ≤ 0x39) || c = 0x61 || c = 0x41

/-- A width, or a precision behind its point: `none` if it is an argument. -/
def skipNumber : List Byte → Option (List Byte)
  | [] => some []
  | c :: fmt =>
      if c = 0x2A then none
      else if 0x30 ≤ c ∧ c ≤ 0x39 then some ((c :: fmt).dropWhile isA2uDigit)
      else some (c :: fmt)

/-- A precision. -/
def skipPrecision : List Byte → Option (List Byte)
  | [] => some []
  | c :: fmt => if c = 0x2E then skipNumber fmt else some (c :: fmt)

/-- `z`, `l` or `ll`. -/
def skipLength : List Byte → List Byte
  | [] => []
  | c :: fmt =>
      if c = 0x7A then fmt
      else if c = 0x6C then (if fmt.head? = some 0x6C then fmt.tail else fmt)
      else c :: fmt

/-- What follows a `%` up to the conversion: flags, width, precision and length. -/
def conversionAt (fmt : List Byte) : Option (List Byte) := do
  let fmt ← skipNumber (fmt.dropWhile fun c => c = 0x2D || c = 0x30 || c = 0x23)
  let fmt ← skipPrecision fmt
  pure (skipLength fmt)

/-- The conversions that take an argument: `u d i p x X o c s`. -/
def takesArgument (c : Byte) : Bool :=
  c ∈ ([0x75, 0x64, 0x69, 0x70, 0x78, 0x58, 0x6F, 0x63, 0x73] : List Byte)

theorem skipNumber_length {fmt rest : List Byte} (skips : skipNumber fmt = some rest) :
    rest.length ≤ fmt.length := by
  cases fmt with
  | nil =>
      obtain rfl := Option.some.inj skips
      exact Nat.le_refl _
  | cons c fmt =>
      rw [skipNumber] at skips
      split at skips
      · cases skips
      split at skips
      · obtain rfl := Option.some.inj skips
        exact (List.dropWhile_sublist _).length_le
      · obtain rfl := Option.some.inj skips
        exact Nat.le_refl _

theorem skipPrecision_length {fmt rest : List Byte} (skips : skipPrecision fmt = some rest) :
    rest.length ≤ fmt.length := by
  cases fmt with
  | nil =>
      obtain rfl := Option.some.inj skips
      exact Nat.le_refl _
  | cons c fmt =>
      rw [skipPrecision] at skips
      split at skips
      · exact Nat.le_succ_of_le (skipNumber_length skips)
      · obtain rfl := Option.some.inj skips
        exact Nat.le_refl _

theorem skipLength_length (fmt : List Byte) : (skipLength fmt).length ≤ fmt.length := by
  cases fmt with
  | nil => exact Nat.le_refl _
  | cons c fmt =>
      rw [skipLength]
      split
      · exact Nat.le_succ _
      split
      · split
        · rw [List.length_tail, List.length_cons]
          omega
        · exact Nat.le_succ _
      · exact Nat.le_refl _

theorem conversionAt_length {fmt rest : List Byte} (found : conversionAt fmt = some rest) :
    rest.length ≤ fmt.length := by
  rw [conversionAt, Option.bind_eq_bind, Option.bind_eq_some_iff] at found
  obtain ⟨number, skips, found⟩ := found
  rw [Option.bind_eq_some_iff] at found
  obtain ⟨precision, skipsMore, found⟩ := found
  obtain rfl := Option.some.inj found
  calc (skipLength precision).length ≤ precision.length := skipLength_length precision
    _ ≤ number.length := skipPrecision_length skipsMore
    _ ≤ (fmt.dropWhile _).length := skipNumber_length skips
    _ ≤ fmt.length := (List.dropWhile_sublist _).length_le

/-- `tfp_format` without arguments: what it prints, or `none` if it asks for an argument. -/
def tfpFormat : List Byte → Option (List Byte)
  | [] => some []
  | c :: fmt =>
      if c ≠ 0x25 then (tfpFormat fmt).map (c :: ·)
      else
        match _found : conversionAt fmt with
        | none => none
        | some [] => some []
        | some (conversion :: fmt) =>
            if conversion = 0x25 then (tfpFormat fmt).map (0x25 :: ·)
            else if takesArgument conversion then none
            else tfpFormat fmt
termination_by fmt => fmt.length
decreasing_by
  · exact Nat.lt_succ_self _
  · exact Nat.lt_succ_of_lt (conversionAt_length _found)
  · exact Nat.lt_succ_of_lt (conversionAt_length _found)

/-- A format without `%` prints itself. -/
theorem tfpFormat_plain {fmt : List Byte} (plain : 0x25 ∉ fmt) : tfpFormat fmt = some fmt := by
  induction fmt with
  | nil => rw [tfpFormat]
  | cons c fmt ih =>
      rw [List.mem_cons, not_or] at plain
      rw [tfpFormat, if_pos (Ne.symm plain.1), ih plain.2]
      rfl

/-- A single `%` prints nothing. -/
theorem tfpFormat_percent : tfpFormat [0x25] = some [] := by
  rw [tfpFormat, if_neg (not_not.mpr rfl)]
  rfl

/-! ### A terminal line -/

/-- The cells of a line and the cursor. -/
@[ext] structure TermLine where
  cells : Nat → Byte
  cursor : Nat

namespace TermLine

/-- A blank line. -/
def blank : TermLine := ⟨fun _ => 0x20, 0⟩

/-- A byte arrives: a backspace moves left, and other control characters take no cell. -/
def put (line : TermLine) (c : Byte) : TermLine :=
  if c = 0x08 then { line with cursor := line.cursor - 1 }
  else if iscntrl c then line
  else ⟨Function.update line.cells line.cursor c, line.cursor + 1⟩

/-- Bytes arrive. -/
def puts (line : TermLine) (bytes : List Byte) : TermLine := bytes.foldl put line

/-- Behind a prompt, as it stood after it had been printed, there is exactly a text, with the cursor
after its last character. -/
structure Shows (line prompt : TermLine) (text : List Byte) : Prop where
  cursor : line.cursor = prompt.cursor + text.length
  front : ∀ i < prompt.cursor, line.cells i = prompt.cells i
  text : ∀ (i : Nat) (inside : i < text.length), line.cells (prompt.cursor + i) = text[i]
  behind : ∀ i, line.cursor ≤ i → line.cells i = 0x20 ∨ line.cells i = prompt.cells i

variable {line prompt : TermLine} {text : List Byte} {c last : Byte}

/-- A printable byte takes a cell. -/
theorem put_printable (printable : isprint c = true) (line : TermLine) :
    line.put c = ⟨Function.update line.cells line.cursor c, line.cursor + 1⟩ := by
  have notBack : c ≠ 0x08 := by
    rintro rfl
    exact Bool.false_ne_true ((isprint_editing 0x08 (by simp)).symm.trans printable)
  rw [put, if_neg notBack, iscntrl_of_isprint printable, if_neg Bool.false_ne_true]

theorem Shows.refl (prompt : TermLine) : prompt.Shows prompt [] where
  cursor := rfl
  front _ _ := rfl
  text i inside := absurd inside (Nat.not_lt_zero i)
  behind _ _ := Or.inr rfl

/-- A character is typed. -/
theorem Shows.put (shows' : line.Shows prompt text) (printable : isprint c = true) :
    (line.put c).Shows prompt (text ++ [c]) := by
  rw [put_printable printable]
  refine ⟨?_, fun i inside => ?_, fun i inside => ?_, fun i outside => ?_⟩
  · rw [shows'.cursor, List.length_append]
    rfl
  · rw [← shows'.front i inside]
    refine Function.update_of_ne ?_ _ _
    rw [shows'.cursor]
    omega
  · rw [List.length_append, List.length_singleton] at inside
    dsimp only
    rw [shows'.cursor]
    by_cases here : i = text.length
    · subst here
      simp
    · rw [Function.update_of_ne (by omega), shows'.text i (by omega),
        List.getElem_append_left (by omega)]
  · dsimp only at outside ⊢
    rw [Function.update_of_ne (by omega)]
    exact shows'.behind i (by omega)

/-- The last character is erased. -/
theorem Shows.erase (shows' : line.Shows prompt (text ++ [last])) :
    (line.puts [0x08, 0x20, 0x08]).Shows prompt text := by
  have cursor := shows'.cursor
  rw [List.length_append, List.length_singleton] at cursor
  have erased : line.puts [0x08, 0x20, 0x08] =
      ⟨Function.update line.cells (line.cursor - 1) 0x20, line.cursor - 1⟩ := by
    have space : isprint 0x20 = true := (isprint_iff 0x20).mpr (by decide)
    show TermLine.put (TermLine.put (TermLine.put line 0x08) 0x20) 0x08 = _
    rw [put_printable space]
    rfl
  rw [erased]
  refine ⟨by dsimp only; omega, fun i inside => ?_, fun i inside => ?_, fun i outside => ?_⟩
  · rw [← shows'.front i inside]
    exact Function.update_of_ne (by omega) _ _
  · dsimp only
    rw [Function.update_of_ne (by omega), shows'.text i (by simp; omega),
      List.getElem_append_left inside]
  · dsimp only at outside ⊢
    by_cases here : i = line.cursor - 1
    · rw [here, Function.update_self]
      exact Or.inl rfl
    · rw [Function.update_of_ne here]
      exact shows'.behind i (by omega)

/-- The line with a text and nothing else on it. -/
def ofText (text : List Byte) : TermLine := ⟨fun i => text.getD i 0x20, text.length⟩

/-- Bytes that are not control characters stand on a blank line one after the other. -/
theorem puts_ofText (text more : List Byte) (plain : ∀ c ∈ more, iscntrl c = false) :
    (ofText text).puts more = ofText (text ++ more) := by
  induction more generalizing text with
  | nil => rw [List.append_nil, puts, List.foldl_nil]
  | cons c more ih =>
      have noControl := plain c List.mem_cons_self
      have notBack : c ≠ 0x08 := by
        rintro rfl
        exact absurd noControl (by decide +kernel)
      have one : (ofText text).put c = ofText (text ++ [c]) := by
        rw [put, if_neg notBack, noControl, if_neg Bool.false_ne_true, ofText, ofText]
        refine TermLine.ext (funext fun i => ?_) (by simp)
        dsimp only
        rcases Nat.lt_trichotomy i text.length with inside | rfl | behind
        · rw [Function.update_of_ne (Nat.ne_of_lt inside), List.getD_append _ _ _ _ inside]
        · simp
        · rw [Function.update_of_ne (Nat.ne_of_gt behind), List.getD_eq_default _ _ behind.le,
            List.getD_eq_default]
          rw [List.length_append]
          exact behind
      show puts ((ofText text).put c) more = _
      rw [one, ih _ fun b member => plain b (List.mem_cons_of_mem c member), List.append_assoc,
        List.singleton_append]

/-- **Behind a prompt without control characters** the line is the prompt and the text. -/
theorem Shows.eq_ofText {shown : List Byte} (shows' : line.Shows (ofText shown) text) :
    line = ofText (shown ++ text) := by
  have cursor : line.cursor = (shown ++ text).length := by
    rw [shows'.cursor, List.length_append]
    rfl
  refine TermLine.ext (funext fun i => ?_) cursor
  show line.cells i = (shown ++ text).getD i 0x20
  rcases Nat.lt_or_ge i shown.length with inFront | behind
  · rw [List.getD_append _ _ _ _ inFront]
    exact shows'.front i inFront
  rcases Nat.lt_or_ge i (shown ++ text).length with inside | outside
  · rw [List.length_append] at inside
    have cell := shows'.text (i - shown.length) (by omega)
    rw [show (ofText shown).cursor + (i - shown.length) = i from Nat.add_sub_cancel' behind] at cell
    rw [cell, List.getD_append_right _ _ _ _ behind, List.getD_eq_getElem]
  · rw [List.getD_eq_default _ _ outside]
    rcases shows'.behind i (cursor ▸ outside) with isBlank | same
    · exact isBlank
    · exact same.trans (List.getD_eq_default _ _ behind)

end TermLine

/-! ### What the editor shows -/

/-- The bytes a call sends. -/
def Print.emits : Print → Option (List Byte)
  | .printk format => tfpFormat format
  | .putchar c => some [c]

/-- The line after a call. -/
def Print.show (line : TermLine) (call : Print) : Option TermLine := call.emits.map line.puts

/-- The line after all calls. -/
def screen (calls : List Print) : Option TermLine := calls.foldlM Print.show TermLine.blank

/-- The line after the prompt. -/
def promptLine (prompt : Option (List Byte)) : TermLine := TermLine.blank.puts (prompt.getD [])

/-- The characters in the buffer. -/
def Readline.held (s : Readline) : List Byte := (List.range s.n).map fun i : Nat => s.buffer i

/-- The line shows the prompt and the characters in the buffer. -/
def ShowsBuffer (prompt : Option (List Byte)) (s : Readline) : Prop :=
  ∃ line, screen s.prints = some line ∧ line.Shows (promptLine prompt) s.held

/-- The state after bytes before Enter and ^C. -/
def handled (prompt : Option (List Byte)) (buffer : Int → Byte) (typed : List Byte) : Readline :=
  typed.foldl (Readline.handle (promptLength prompt)) (Readline.start prompt buffer)

section Screen

variable {s : Readline} {plen : Int} {text : List Byte} {c : Byte} {line line' prompt : TermLine}

theorem Readline.Holds.held (holds : s.Holds plen text) : s.held = text := by
  rw [Readline.held, holds.n]
  refine List.ext_getElem (by simp) fun i inside _ => ?_
  rw [List.length_map, List.length_range] at inside
  rw [List.getElem_map, List.getElem_range, holds.buffer i inside]

theorem eraseSeq_show (line : TermLine) :
    Print.show line eraseSeq = some (line.puts [0x08, 0x20, 0x08]) := by
  rw [Print.show, eraseSeq, Print.emits, tfpFormat_plain (by decide)]
  rfl

/-- Some characters are erased. -/
theorem TermLine.Shows.erases (front dropped : List Byte)
    (shows' : line.Shows prompt (front ++ dropped)) :
    ∃ line', (List.replicate dropped.length eraseSeq).foldlM Print.show line = some line' ∧
      line'.Shows prompt front := by
  induction dropped using List.reverseRecOn generalizing line with
  | nil =>
      rw [List.append_nil] at shows'
      exact ⟨line, rfl, shows'⟩
  | append_singleton dropped last ih =>
      rw [← List.append_assoc] at shows'
      obtain ⟨line', runs, rest⟩ := ih shows'.erase
      refine ⟨line', ?_, rest⟩
      rw [List.length_append, List.length_singleton, List.replicate_succ, List.foldlM_cons,
        eraseSeq_show]
      exact runs

/-- A byte that is not printable leaves a part of the text. -/
theorem editStep_prefix (text : List Byte) (plain : isprint c = false) :
    ∃ dropped, text = editStep text c ++ dropped := by
  rw [editStep, plain]
  split
  · obtain rfl | ⟨front, last, rfl⟩ := text.eq_nil_or_concat
    · exact ⟨[], rfl⟩
    · rw [List.concat_eq_append, List.dropLast_concat]
      exact ⟨[last], rfl⟩
  split
  · exact ⟨text, rfl⟩
  split
  · rcases dropWord_shortest text with ⟨-, empty⟩ | ⟨word, -, whole⟩
    · rw [empty]
      exact ⟨text, rfl⟩
    · exact ⟨_, whole⟩
  · rw [if_neg fun accepted => Bool.false_ne_true accepted.1]
    exact ⟨[], (List.append_nil text).symm⟩

/-- **One byte**: the screen follows the buffer unless a `%` is stored. -/
theorem Readline.Holds.screen_handle (holds : s.Holds plen text)
    (shown : screen s.prints = some line) (shows' : line.Shows prompt text)
    (noPercent : c = 0x25 → 62 ≤ text.length) :
    ∃ line', screen (s.handle plen c).prints = some line' ∧
      line'.Shows prompt (editStep text c) := by
  rw [(holds.handle c).2, screen, List.foldlM_append, ← screen, shown, Option.bind_eq_bind,
    Option.bind_some, echo]
  cases printable : isprint c with
  | false =>
      obtain ⟨dropped, whole⟩ := editStep_prefix text printable
      have count : text.length - (editStep text c).length = dropped.length := by
        conv_lhs => rw [whole, List.length_append]
        rw [← whole]
        omega
      rw [if_neg Bool.false_ne_true, count]
      exact (whole ▸ shows' : line.Shows prompt (editStep text c ++ dropped)).erases _ _
  | true =>
      rw [if_pos rfl, editStep_printable text printable]
      by_cases room : text.length < 62
      · have single : tfpFormat [c] = some [c] := by
          refine tfpFormat_plain fun member => ?_
          have full := noPercent (List.mem_singleton.mp member).symm
          omega
        rw [if_pos room, if_pos room]
        refine ⟨line.put c, ?_, shows'.put printable⟩
        show Print.show line (.printk [c]) >>= pure = _
        rw [Print.show, Print.emits, single]
        rfl
      · rw [if_neg room, if_neg room]
        exact ⟨line, rfl, shows'⟩

/-- **A `%` that is stored is not echoed**, and the cursor falls behind. -/
theorem Readline.Holds.screen_percent (holds : s.Holds plen text) (room : text.length < 62)
    (shown : screen s.prints = some line) (shows' : line.Shows prompt text) :
    screen (s.handle plen 0x25).prints = some line ∧
      ¬ line.Shows prompt (editStep text 0x25) := by
  have printable : isprint 0x25 = true := (isprint_iff 0x25).mpr (by decide)
  refine ⟨?_, fun longer => ?_⟩
  · rw [(holds.handle 0x25).2, screen, List.foldlM_append, ← screen, shown, Option.bind_eq_bind,
      Option.bind_some, echo, printable, if_pos rfl, if_pos room]
    show Print.show line (.printk [0x25]) >>= pure = _
    rw [Print.show, Print.emits, tfpFormat_percent]
    rfl
  · have cursor := longer.cursor
    rw [shows'.cursor, editStep_printable text printable, if_pos room, List.length_append,
      List.length_singleton] at cursor
    omega

end Screen

section Prompt

variable {prompt : Option (List Byte)} (plain : 0x25 ∉ prompt.getD []) (buffer : Int → Byte)

theorem handled_holds (prompt : Option (List Byte)) (typed : List Byte) :
    (handled prompt buffer typed).Holds (promptLength prompt) (typed.foldl editStep []) :=
  (Readline.holds_start prompt buffer).foldl typed

theorem handled_append (prompt : Option (List Byte)) (front : List Byte) (c : Byte) :
    handled prompt buffer (front ++ [c]) =
      (handled prompt buffer front).handle (promptLength prompt) c := List.foldl_append

/-- With a prompt that has no control characters, the line is the prompt and the buffer. -/
theorem ShowsBuffer.exact {s : Readline} (noControl : ∀ c ∈ prompt.getD [], iscntrl c = false)
    (shown : ShowsBuffer prompt s) :
    screen s.prints = some (.ofText (prompt.getD [] ++ s.held)) := by
  obtain ⟨line, onScreen, shows'⟩ := shown
  have alone : promptLine prompt = .ofText (prompt.getD []) :=
    TermLine.puts_ofText [] _ noControl
  rw [alone] at shows'
  rw [onScreen, shows'.eq_ofText]

include plain

/-- The prompt stands on the line. -/
theorem screen_start :
    screen (Readline.start prompt buffer).prints = some (promptLine prompt) := by
  cases prompt with
  | none => rfl
  | some text =>
      show Print.show TermLine.blank (.printk text) >>= pure = _
      rw [Print.show, Print.emits, tfpFormat_plain (show 0x25 ∉ text from plain)]
      rfl

/-- **The screen shows the buffer** as long as no `%` is stored. -/
theorem screen_shows (typed : List Byte)
    (noPercent : ∀ front, front ++ [0x25] <+: typed → 62 ≤ (handled prompt buffer front).n) :
    ShowsBuffer prompt (handled prompt buffer typed) := by
  induction typed using List.reverseRecOn with
  | nil =>
      have holds := handled_holds buffer prompt []
      refine ⟨promptLine prompt, screen_start plain buffer, ?_⟩
      rw [holds.held]
      exact .refl _
  | append_singleton typed c ih =>
      obtain ⟨line, shown, shows'⟩ := ih fun front before =>
        noPercent front (before.trans (List.prefix_append _ _))
      have holds := handled_holds buffer prompt typed
      rw [holds.held] at shows'
      obtain ⟨line', shown', rest⟩ := holds.screen_handle shown shows' fun isPercent => by
        rw [← holds.n]
        exact noPercent typed (isPercent ▸ List.prefix_rfl)
      refine ⟨line', ?_, ?_⟩
      · rw [handled_append, shown']
      · rw [(handled_holds buffer prompt (typed ++ [c])).held, List.foldl_append]
        exact rest

/-- **The screen shows the buffer after each byte exactly if no `%` is stored**: if none comes
while fewer than 62 characters are held. -/
theorem screen_showsBuffer_iff (typed : List Byte) :
    (∀ front, front <+: typed → ShowsBuffer prompt (handled prompt buffer front)) ↔
      ∀ front, front ++ [0x25] <+: typed → 62 ≤ (handled prompt buffer front).n := by
  constructor
  · intro always front before
    by_contra room
    have holds := handled_holds buffer prompt front
    obtain ⟨line, shown, shows'⟩ := always front ((List.prefix_append _ _).trans before)
    obtain ⟨line', shown', rest⟩ := always (front ++ [0x25]) before
    rw [holds.n, Nat.not_le] at room
    rw [holds.held] at shows'
    obtain ⟨same, hidden⟩ := holds.screen_percent room shown shows'
    rw [handled_append, same] at shown'
    rw [(handled_holds buffer prompt (front ++ [0x25])).held, List.foldl_append,
      ← Option.some.inj shown'] at rest
    exact hidden rest
  · intro noPercent front before
    exact screen_shows plain buffer front fun part within => noPercent part (within.trans before)

end Prompt

/-- The prompt `=> `, a word and a backspace. -/
theorem screen_showsBuffer_word :
    ShowsBuffer (some [0x3D, 0x3E, 0x20])
      (handled (some [0x3D, 0x3E, 0x20]) (fun _ => 0) [0x6D, 0x64, 0x7F]) := by
  refine (screen_showsBuffer_iff (by decide) (fun _ => 0) [0x6D, 0x64, 0x7F]).mpr ?_ _
    List.prefix_rfl
  intro front before
  have member : (0x25 : Byte) ∈ ([0x6D, 0x64, 0x7F] : List Byte) :=
    before.subset (List.mem_append_right _ (List.mem_singleton_self _))
  exact absurd member (by decide)

/-- A single `%` is in the buffer and not on the screen. -/
theorem percent_hidden :
    (handled (some [0x3D, 0x3E, 0x20]) (fun _ => 0) [0x25]).held = [0x25] ∧
      ¬ ShowsBuffer (some [0x3D, 0x3E, 0x20])
        (handled (some [0x3D, 0x3E, 0x20]) (fun _ => 0) [0x25]) := by
  have start := Readline.holds_start (some [0x3D, 0x3E, 0x20]) fun _ => 0
  have holds := handled_holds (fun _ => 0) (some [0x3D, 0x3E, 0x20]) [0x25]
  have stored : [0x25].foldl editStep [] = [0x25] := by decide +kernel
  refine ⟨holds.held.trans stored, ?_⟩
  rintro ⟨line, shown, rest⟩
  obtain ⟨same, hidden⟩ := start.screen_percent (Nat.zero_lt_succ 61)
    (screen_start (by decide) fun _ => 0) (.refl _)
  rw [holds.held] at rest
  obtain rfl := Option.some.inj (same.symm.trans shown)
  exact hidden rest

end K210Guard
