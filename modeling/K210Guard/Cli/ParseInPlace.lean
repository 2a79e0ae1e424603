/-
**The word splitter in its buffer** (`cli_simple_parse_line`, `cli/cli.c`).

Here a line is a C string in memory: the splitter walks it with a pointer, stores pointers in `argv`
and ends each word with a NUL. `parseArgs` is what that amounts to (`parseArgsAt_agrees`).

* `parseLineAt_splits_iff` — when it does what it should: `argv` is closed with NULL and the message
  about too many arguments comes for more than eight words only, unless the line has eight words
  and a blank at its end, or more words and no NULL behind them from before.
-/

import K210Guard.Cli.ParseLine

namespace K210Guard

/-! ### Strings in memory -/

/-- Characters by address. -/
abbrev Bytes := Int → Char

/-- The end of a C string. -/
def nul : Char := '\x00'

/-- The address behind a string, from its second character. -/
theorem address_succ (address : Int) (c : Char) (rest : List Char) :
    address + 1 + (rest.length : Int) = address + ((c :: rest).length : Int) := by
  rw [List.length_cons]
  omega

/-- A C string begins at an address. -/
def StringAt (memory : Bytes) : (address : Int) → (text : List Char) → Prop
  | address, [] => memory address = nul
  | address, c :: rest => memory address = c ∧ c ≠ nul ∧ StringAt memory (address + 1) rest

/-- `strcpy` -/
def strcpy (dest : Int) (text : List Char) (memory : Bytes) : Bytes := fun x =>
  if dest ≤ x ∧ x ≤ dest + text.length then text.getD (x - dest).toNat nul else memory x

theorem strcpy_inside (dest : Int) (text : List Char) (memory : Bytes) {i : Nat}
    (inside : i ≤ text.length) : strcpy dest text memory (dest + i) = text.getD i nul := by
  have offset : (dest + i - dest).toNat = i := by omega
  rw [strcpy, if_pos ⟨by omega, by omega⟩, offset]

/-- The string at an address, of fewer than `fuel` characters. -/
def readString (memory : Bytes) : (fuel : Nat) → (address : Int) → List Char
  | 0, _ => []
  | fuel + 1, address =>
      if memory address = nul then []
      else memory address :: readString memory fuel (address + 1)

namespace StringAt

variable {memory other : Bytes} {address : Int} {first rest text : List Char}

theorem read (string : StringAt memory address text) {fuel : Nat} (enough : text.length < fuel) :
    readString memory fuel address = text := by
  induction text generalizing address fuel with
  | nil =>
      cases fuel with
      | zero => rfl
      | succ fuel => exact if_pos string
  | cons c text ih =>
      obtain ⟨here, notNul, later⟩ := string
      cases fuel with
      | zero => exact absurd enough (Nat.not_lt_zero _)
      | succ fuel =>
          rw [readString, here, if_neg notNul, ih later (Nat.lt_of_succ_lt_succ enough)]

/-- Only the characters and the NUL matter. -/
theorem frame (string : StringAt memory address text)
    (agree : ∀ x, address ≤ x → x ≤ address + text.length → other x = memory x) :
    StringAt other address text := by
  induction text generalizing address with
  | nil => exact (agree address (Int.le_refl _) (by simp)).trans string
  | cons c text ih =>
      obtain ⟨here, notNul, later⟩ := string
      refine ⟨(agree address (Int.le_refl _) (by omega)).trans here, notNul, ih later ?_⟩
      intro x above below
      exact agree x (by omega) (by rw [List.length_cons]; omega)

/-- The tail of a string is a string. -/
theorem drop (string : StringAt memory address (first ++ rest)) :
    StringAt memory (address + first.length) rest := by
  induction first generalizing address with
  | nil => simpa using string
  | cons c first ih =>
      rw [← address_succ]
      exact ih string.2.2

/-- A NUL over one of its characters cuts a string. -/
theorem cut (string : StringAt memory address (first ++ rest)) :
    StringAt (Function.update memory (address + first.length) nul) address first := by
  induction first generalizing address with
  | nil => simp [StringAt]
  | cons c first ih =>
      obtain ⟨here, notNul, later⟩ := string
      have next := ih later
      rw [address_succ] at next
      refine ⟨?_, notNul, next⟩
      rw [Function.update_of_ne (by rw [List.length_cons]; omega), here]

/-- The character under the pointer. -/
theorem head (string : StringAt memory address text) : memory address = text.headD nul := by
  cases text with
  | nil => exact string
  | cons c text => exact string.1

theorem notNul (string : StringAt memory address text) : ∀ c ∈ text, c ≠ nul := by
  induction text generalizing address with
  | nil => exact fun c none => absurd none List.not_mem_nil
  | cons first text ih =>
      intro c member
      rcases List.mem_cons.mp member with rfl | later
      · exact string.2.1
      · exact ih string.2.2 c later

theorem strcpy (noNul : ∀ c ∈ text, c ≠ nul) (address : Int) (memory : Bytes) :
    StringAt (strcpy address text memory) address text := by
  have copied : ∀ front text : List Char, (∀ c ∈ text, c ≠ nul) →
      StringAt (K210Guard.strcpy address (front ++ text) memory) (address + front.length) text := by
    intro front text noNul
    induction text generalizing front with
    | nil =>
        refine (strcpy_inside _ _ memory (by simp)).trans ?_
        simp
    | cons c text ih =>
        have later := ih (front ++ [c]) fun c member => noNul c (List.mem_cons_of_mem _ member)
        rw [List.append_assoc, List.singleton_append, List.length_append, List.length_singleton,
          Int.natCast_add, ← Int.add_assoc] at later
        refine ⟨(strcpy_inside _ _ memory (by simp)).trans ?_, noNul c List.mem_cons_self, later⟩
        simp
  simpa using copied [] text noNul

end StringAt

/-! ### The code -/

/-- `while (p(*line)) ++line;` -/
def skipWhile (p : Char → Bool) (memory : Bytes) : (fuel : Nat) → (line : Int) → Option Int
  | 0, _ => none
  | fuel + 1, line =>
      if p (memory line) then skipWhile p memory fuel (line + 1) else some line

/-- A slot of `argv` as it is: a pointer, once it has been written. -/
inductive ArgPtr
  | unset
  | null
  | pointer (address : Int)
  deriving DecidableEq

/-- What `cli_simple_parse_line` leaves. -/
structure ParsedInPlace where
  nargs : Nat
  argv : Nat → ArgPtr
  memory : Bytes
  tooManyArgs : Bool

/-- The loop of `cli_simple_parse_line`; `fuel` bounds the turns of each inner loop. -/
def parseArgsAt (fuel : Nat) :
    (room : Nat) → Bytes → (line : Int) → (nargs : Nat) → (Nat → ArgPtr) → Option ParsedInPlace
  | 0, memory, _, nargs, argv => some ⟨nargs, argv, memory, true⟩
  | room + 1, memory, line, nargs, argv => do
      let line ← skipWhile isblank memory fuel line
      if memory line = nul then
        some ⟨nargs, Function.update argv nargs .null, memory, false⟩
      else
        let argv := Function.update argv nargs (.pointer line)
        let line ← skipWhile (fun c => c ≠ nul && !isblank c) memory fuel line
        if memory line = nul then
          some ⟨nargs + 1, Function.update argv (nargs + 1) .null, memory, false⟩
        else
          parseArgsAt fuel room (Function.update memory line nul) (line + 1) (nargs + 1) argv

/-- `cli_simple_parse_line` -/
def parseLineAt (fuel : Nat) (memory : Bytes) (line : Int) (argv : Nat → ArgPtr) :
    Option ParsedInPlace := parseArgsAt fuel 8 memory line 0 argv

/-! ### One turn -/

/-- A loop over a run of characters stops behind it. -/
theorem skipWhile_run {p : Char → Bool} {memory : Bytes} {line : Int} {run rest : List Char}
    (string : StringAt memory line (run ++ rest)) (runs : ∀ c ∈ run, p c = true)
    (stops : p (rest.headD nul) = false) {fuel : Nat} (enough : run.length < fuel) :
    skipWhile p memory fuel line = some (line + run.length) := by
  induction run generalizing line fuel with
  | nil =>
      obtain ⟨fuel, rfl⟩ := Nat.exists_eq_succ_of_ne_zero (Nat.ne_of_gt enough)
      rw [skipWhile, string.head, List.nil_append, stops, if_neg Bool.false_ne_true]
      simp
  | cons c run ih =>
      obtain ⟨fuel, rfl⟩ := Nat.exists_eq_succ_of_ne_zero (Nat.ne_of_gt (Nat.zero_lt_of_lt enough))
      obtain ⟨here, -, later⟩ := string
      rw [skipWhile, here, if_pos (runs c List.mem_cons_self),
        ih later (fun c member => runs c (List.mem_cons_of_mem _ member))
          (Nat.lt_of_succ_lt_succ enough), address_succ]

section Turn

variable {blanks word : List Char} (areBlanks : ∀ c ∈ blanks, isblank c = true) {memory : Bytes}
  {line : Int} {fuel : Nat}
include areBlanks

theorem parseArgsAt_blank (string : StringAt memory line blanks) (enough : blanks.length < fuel)
    (room nargs : Nat) (argv : Nat → ArgPtr) :
    parseArgsAt fuel (room + 1) memory line nargs argv =
      some ⟨nargs, Function.update argv nargs .null, memory, false⟩ := by
  rw [← List.append_nil blanks] at string
  rw [parseArgsAt, skipWhile_run string areBlanks rfl enough]
  exact if_pos string.drop

variable (others : ∀ c ∈ word, isblank c = false) (nonempty : word ≠ [])
include others nonempty

/-- The two inner loops, over the blanks and over the word. -/
theorem skipWhile_word {rest : List Char} (string : StringAt memory line (blanks ++ word ++ rest))
    (stops : isblank (rest.headD nul) = true ∨ rest = [])
    (enough : (blanks ++ word).length < fuel) :
    skipWhile isblank memory fuel line = some (line + blanks.length) ∧
      memory (line + blanks.length) ≠ nul ∧
      skipWhile (fun c => c ≠ nul && !isblank c) memory fuel (line + blanks.length) =
        some (line + (blanks ++ word).length) ∧
      StringAt memory (line + (blanks ++ word).length) rest := by
  rw [List.append_assoc] at string
  have atWord := string.drop
  have behind := atWord.drop
  rw [List.length_append] at enough
  rw [List.length_append, Int.natCast_add, ← Int.add_assoc]
  have notNul : ∀ c ∈ word, c ≠ nul := fun c member =>
    atWord.notNul c (List.mem_append_left _ member)
  refine ⟨?_, ?_, ?_, behind⟩
  · refine skipWhile_run string areBlanks ?_ (by omega)
    obtain ⟨c, word, rfl⟩ := List.exists_cons_of_ne_nil nonempty
    exact others c List.mem_cons_self
  · obtain ⟨c, word, rfl⟩ := List.exists_cons_of_ne_nil nonempty
    rw [atWord.head]
    exact notNul c List.mem_cons_self
  · refine skipWhile_run atWord ?_ ?_ (by omega)
    · intro c member
      simp [notNul c member, others c member]
    · rcases stops with blank | rfl
      · rw [blank, Bool.not_true, Bool.and_false]
      · rfl

theorem parseArgsAt_last (string : StringAt memory line (blanks ++ word))
    (enough : (blanks ++ word).length < fuel) (room nargs : Nat) (argv : Nat → ArgPtr) :
    parseArgsAt fuel (room + 1) memory line nargs argv =
      some ⟨nargs + 1, Function.update (Function.update argv nargs
        (.pointer (line + blanks.length))) (nargs + 1) .null, memory, false⟩ := by
  rw [← List.append_nil (blanks ++ word)] at string
  obtain ⟨blanksEnd, notNul, wordEnd, behind⟩ :=
    skipWhile_word areBlanks others nonempty string (Or.inr rfl) enough
  rw [parseArgsAt, blanksEnd, Option.bind_eq_bind, Option.bind_some, if_neg notNul]
  dsimp only
  rw [wordEnd, Option.bind_some]
  exact if_pos behind

theorem parseArgsAt_more {blank : Char} (isBlank : isblank blank = true) {rest : List Char}
    (string : StringAt memory line (blanks ++ word ++ blank :: rest))
    (enough : (blanks ++ word).length < fuel) (room nargs : Nat) (argv : Nat → ArgPtr) :
    parseArgsAt fuel (room + 1) memory line nargs argv =
      parseArgsAt fuel room
        (Function.update memory (line + (blanks ++ word).length) nul)
        (line + (blanks ++ word).length + 1) (nargs + 1)
        (Function.update argv nargs (.pointer (line + blanks.length))) := by
  obtain ⟨blanksEnd, notNul, wordEnd, behind⟩ :=
    skipWhile_word areBlanks others nonempty string (Or.inl isBlank) enough
  have more : memory (line + (blanks ++ word).length) ≠ nul := by
    rw [behind.head]
    exact behind.2.1
  rw [parseArgsAt, blanksEnd, Option.bind_eq_bind, Option.bind_some, if_neg notNul]
  dsimp only
  rw [wordEnd, Option.bind_some, if_neg more]

end Turn

/-! ### The whole line -/

/-- A slot points to the word that has `count` others in front of it, with a NUL behind it. -/
structure PointsToWord (memory : Bytes) (line : Int) (text : List Char) (count : Nat)
    (slot : ArgPtr) (word : List Char) : Prop where
  place : ∃ before after, text = before ++ word ++ after ∧
    words before = (words text).take count ∧ slot = .pointer (line + before.length) ∧
    StringAt memory (line + before.length) word

/-- What has become of a slot, in place and on the list: nothing, NULL, or the next word. -/
inductive SlotAgrees (parsed : ParsedInPlace) (line : Int) (text : List Char) (nargs i : Nat)
    (argv : Nat → ArgPtr) (spec specAfter : Argv) : Prop
  | kept (same : parsed.argv i = argv i) (specSame : specAfter i = spec i)
  | null (isNull : parsed.argv i = .null) (specNull : specAfter i = .null)
  | word (word : List Char) (late : nargs ≤ i)
      (points : PointsToWord parsed.memory line text (i - nargs) (parsed.argv i) word)
      (specWord : specAfter i = .word word)

/-- Behind the first word of a line the others are further on. -/
theorem PointsToWord.behind {memory : Bytes} {line : Int} {blanks first rest word : List Char}
    {blank : Char} {count : Nat} {slot : ArgPtr} (areBlanks : ∀ c ∈ blanks, isblank c = true)
    (others : ∀ c ∈ first, isblank c = false) (nonempty : first ≠ [])
    (isBlank : isblank blank = true)
    (points : PointsToWord memory (line + (blanks ++ first).length + 1) rest count slot word) :
    PointsToWord memory line (blanks ++ first ++ blank :: rest) (count + 1) slot word := by
  obtain ⟨before, after, rfl, inFront, isPointer, string⟩ := points
  have shifted : line + (blanks ++ first).length + 1 + (before.length : Int) =
      line + ((blanks ++ first ++ blank :: before).length : Int) := by
    simp only [List.length_append, List.length_cons]
    omega
  have wordsOf : ∀ tail, words (blanks ++ first ++ blank :: tail) = first :: words tail := by
    intro tail
    rw [List.append_assoc, words_append_blanks areBlanks, words_run_blank others nonempty isBlank]
  rw [shifted] at isPointer string
  refine ⟨blanks ++ first ++ blank :: before, after, ?_, ?_, isPointer, string⟩
  · simp only [List.append_assoc, List.cons_append]
  · rw [wordsOf, wordsOf, inFront, List.take_succ_cons]

section Behind

variable {memory : Bytes} {line : Int} {blanks word rest : List Char} {blank : Char}

/-- A word and what is behind it, with a NUL in place of the blank between them. -/
theorem StringAt.endWord (string : StringAt memory line (blanks ++ word ++ blank :: rest))
    {ended : Bytes}
    (isEnded : Function.update memory (line + (blanks ++ word).length) nul = ended) :
    StringAt ended (line + blanks.length) word ∧
      StringAt ended (line + (blanks ++ word).length + 1) rest := by
  constructor
  · have cut := (List.append_assoc blanks word (blank :: rest) ▸ string).drop.cut
    rwa [Int.add_assoc, ← Int.natCast_add, ← List.length_append, isEnded] at cut
  · rw [← isEnded]
    exact string.drop.2.2.frame fun x above _ => Function.update_of_ne (by omega) _ _

/-- What has become of the slots for the rest of a line is what has become of them for the line. -/
theorem SlotAgrees.behind {parsed : ParsedInPlace} {nargs i : Nat} {argv : Nat → ArgPtr}
    {spec specAfter : Argv} (areBlanks : ∀ c ∈ blanks, isblank c = true)
    (others : ∀ c ∈ word, isblank c = false) (nonempty : word ≠ [])
    (isBlank : isblank blank = true)
    (string : StringAt parsed.memory (line + blanks.length) word)
    (slot : SlotAgrees parsed (line + (blanks ++ word).length + 1) rest (nargs + 1) i
      (Function.update argv nargs (.pointer (line + blanks.length)))
      (Function.update spec nargs (.word word)) specAfter) :
    SlotAgrees parsed line (blanks ++ word ++ blank :: rest) nargs i argv spec specAfter := by
  cases slot with
  | null isNull specNull => exact .null isNull specNull
  | word later late points specWord =>
      have behind := points.behind areBlanks others nonempty isBlank
      rw [show i - (nargs + 1) + 1 = i - nargs by omega] at behind
      exact .word later (Nat.le_of_succ_le late) behind specWord
  | kept same specSame =>
      by_cases here : i = nargs
      · subst here
        rw [Function.update_self] at same specSame
        refine .word word (Nat.le_refl _) ⟨blanks, blank :: rest, rfl, ?_, same, string⟩ specSame
        rw [Nat.sub_self, List.take_zero, words_blanks areBlanks]
      · rw [Function.update_of_ne here] at same specSame
        exact .kept same specSame

end Behind

/-- **The splitter in its buffer does what `parseArgs` does**, and changes only its line. -/
theorem parseArgsAt_agrees (room : Nat) {fuel : Nat} {memory : Bytes} {line : Int}
    {text : List Char} (string : StringAt memory line text) (enough : text.length < fuel)
    (nargs : Nat) (argv : Nat → ArgPtr) (spec : Argv) :
    ∃ parsed, parseArgsAt fuel room memory line nargs argv = some parsed ∧
      parsed.nargs = (parseArgs room text nargs spec).nargs ∧
      parsed.tooManyArgs = (parseArgs room text nargs spec).tooManyArgs ∧
      (∀ x, x < line ∨ line + text.length ≤ x → parsed.memory x = memory x) ∧
      ∀ i, SlotAgrees parsed line text nargs i argv spec
        (parseArgs room text nargs spec).argv := by
  induction room generalizing memory line text nargs argv spec with
  | zero =>
      exact ⟨⟨nargs, argv, memory, true⟩, rfl, rfl, rfl, fun _ _ => rfl, fun i => .kept rfl rfl⟩
  | succ room ih =>
      cases lineShape text with
      | blank _ areBlanks =>
          rw [parseArgs_blank areBlanks]
          refine ⟨_, parseArgsAt_blank areBlanks string enough room nargs argv, rfl, rfl,
            fun _ _ => rfl, fun i => ?_⟩
          by_cases here : i = nargs
          · subst here
            exact .null (Function.update_self _ _ _) (Function.update_self _ _ _)
          · exact .kept (Function.update_of_ne here _ _) (Function.update_of_ne here _ _)
      | last blanks word areBlanks others nonempty =>
          rw [parseArgs_last areBlanks others nonempty]
          refine ⟨_, parseArgsAt_last areBlanks others nonempty string enough room nargs argv, rfl,
            rfl, fun _ _ => rfl, fun i => ?_⟩
          by_cases behind : i = nargs + 1
          · subst behind
            exact .null (Function.update_self _ _ _) (Function.update_self _ _ _)
          by_cases here : i = nargs
          · subst here
            have slot : ∀ {α : Type} (f : Nat → α) (value other : α),
                Function.update (Function.update f i value) (i + 1) other i = value := by
              intro α f value other
              rw [Function.update_of_ne behind, Function.update_self]
            refine .word word (Nat.le_refl _)
              ⟨blanks, [], (List.append_nil _).symm, ?_, slot _ _ _, string.drop⟩ (slot _ _ _)
            rw [Nat.sub_self, List.take_zero, words_blanks areBlanks]
          · refine .kept ?_ ?_
            · exact (Function.update_of_ne behind _ _).trans (Function.update_of_ne here _ _)
            · exact (Function.update_of_ne behind _ _).trans (Function.update_of_ne here _ _)
      | more blanks word blank rest areBlanks others nonempty isBlank =>
          have sizes : (blanks ++ word ++ blank :: rest).length =
              (blanks ++ word).length + (rest.length + 1) := by
            rw [List.length_append, List.length_cons]
          rw [parseArgs_more areBlanks others nonempty isBlank]
          -- the blank behind the word becomes a NUL
          generalize ended : Function.update memory (line + (blanks ++ word).length) nul = memory'
          obtain ⟨stringWord, stringRest⟩ := string.endWord ended
          obtain ⟨parsed, runs, nargsSame, messageSame, frame, slots⟩ :=
            ih stringRest (by omega) (nargs + 1)
              (Function.update argv nargs (.pointer (line + blanks.length)))
              (Function.update spec nargs (.word word))
          refine ⟨parsed, ?_, nargsSame, messageSame, fun x outside => ?_, fun i => ?_⟩
          · rw [parseArgsAt_more areBlanks others nonempty isBlank string (by omega), ended, runs]
          · rw [frame x (by omega), ← ended]
            exact Function.update_of_ne (by omega) _ _
          · refine (slots i).behind areBlanks others nonempty isBlank ?_
            refine stringWord.frame fun x _ below => frame x (Or.inl ?_)
            rw [List.length_append]
            omega

/-! ### What the splitter should do -/

/-- `argv` holds the first eight words and NULL, and the message comes with more of them. -/
structure SplitsLine (line : Int) (text : List Char) (parsed : ParsedInPlace) : Prop where
  argc : parsed.nargs = min 8 (words text).length
  argv : ∀ i word, i < parsed.nargs → (words text)[i]? = some word →
    PointsToWord parsed.memory line text i (parsed.argv i) word
  closed : parsed.argv parsed.nargs = .null
  message : parsed.tooManyArgs = true ↔ 8 < (words text).length

/-- What the splitter leaves: the words are always there, the slot behind them is NULL if there was
no message and `argv[8]` is as before if there was one. -/
structure LineSplit (line : Int) (text : List Char) (argv : Nat → ArgPtr)
    (parsed : ParsedInPlace) : Prop where
  argc : parsed.nargs = min 8 (words text).length
  stored : ∀ i word, i < parsed.nargs → (words text)[i]? = some word →
    PointsToWord parsed.memory line text i (parsed.argv i) word
  closed : parsed.tooManyArgs = false → parsed.argv parsed.nargs = .null
  kept : parsed.tooManyArgs = true → parsed.argv 8 = argv 8
  message : parsed.tooManyArgs = true ↔
    8 < (words text).length ∨ 8 = (words text).length ∧ endsInBlank text = true

theorem parseLineAt_run {memory : Bytes} {line : Int} {text : List Char}
    (string : StringAt memory line text) {fuel : Nat} (enough : text.length < fuel)
    (argv : Nat → ArgPtr) :
    ∃ parsed, parseLineAt fuel memory line argv = some parsed ∧
      LineSplit line text argv parsed := by
  obtain ⟨parsed, runs, nargs, message, -, slots⟩ :=
    parseArgsAt_agrees 8 string enough 0 argv fun _ => .unset
  have count := cliSimpleParseLine_nargs text fun _ => .unset
  rw [cliSimpleParseLine, ← nargs] at count
  refine ⟨parsed, runs, count, fun i word bound found => ?_, fun complete => ?_,
    fun stopped => ?_, ?_⟩
  · have spec := cliSimpleParseLine_word text (fun _ => .unset) (by omega) found
    rw [cliSimpleParseLine] at spec
    cases slots i with
    | kept _ specSame => exact absurd (specSame.symm.trans spec) ArgSlot.noConfusion
    | null _ specNull => exact absurd (specNull.symm.trans spec) ArgSlot.noConfusion
    | word other _ points specWord =>
        rw [ArgSlot.word.inj (specWord.symm.trans spec)] at points
        exact points
  · have spec := parseArgs_null 8 text 0 (fun _ => .unset) (message.symm.trans complete)
    rw [← nargs] at spec
    cases slots parsed.nargs with
    | kept _ specSame => exact absurd (specSame.symm.trans spec) ArgSlot.noConfusion
    | null isNull _ => exact isNull
    | word _ _ _ specWord => exact absurd (specWord.symm.trans spec) ArgSlot.noConfusion
  · have spec := parseArgs_argv_behind 8 text 0 (fun _ => .unset) (message.symm.trans stopped)
      (Nat.le_refl 8)
    cases slots 8 with
    | kept same _ => exact same
    | null _ specNull => exact absurd (specNull.symm.trans spec) ArgSlot.noConfusion
    | word _ _ _ specWord => exact absurd (specWord.symm.trans spec) ArgSlot.noConfusion
  · have givesUp := parseArgs_tooManyArgs 8 text 0 fun _ => .unset
    rw [← message] at givesUp
    rw [givesUp]
    constructor
    · rintro (larger | ⟨eight, zero | blankEnd⟩)
      · exact Or.inl larger
      · omega
      · exact Or.inr ⟨eight, blankEnd⟩
    · rintro (larger | ⟨eight, blankEnd⟩)
      · exact Or.inl larger
      · exact Or.inr ⟨eight, Or.inr blankEnd⟩

/-- **The splitter does what it should** with fewer than eight words, with eight up to the end of
the line, and with more if there is a NULL behind them already. -/
theorem parseLineAt_splits_iff {memory : Bytes} {line : Int} {text : List Char}
    (string : StringAt memory line text) {fuel : Nat} (enough : text.length < fuel)
    (argv : Nat → ArgPtr) :
    ∃ parsed, parseLineAt fuel memory line argv = some parsed ∧
      (SplitsLine line text parsed ↔ (words text).length < 8 ∨
        (words text).length = 8 ∧ endsInBlank text = false ∨
        8 < (words text).length ∧ argv 8 = .null) := by
  obtain ⟨parsed, runs, split⟩ := parseLineAt_run string enough argv
  refine ⟨parsed, runs, ?_⟩
  constructor
  · intro splits
    rcases Nat.lt_trichotomy (words text).length 8 with fewer | eight | more
    · exact Or.inl fewer
    · refine Or.inr (Or.inl ⟨eight, ?_⟩)
      rw [← Bool.not_eq_true]
      intro blankEnd
      have told := splits.message.mp (split.message.mpr (Or.inr ⟨eight.symm, blankEnd⟩))
      omega
    · refine Or.inr (Or.inr ⟨more, ?_⟩)
      have closed := splits.closed
      rw [split.argc, Nat.min_eq_left more.le] at closed
      exact (split.kept (split.message.mpr (Or.inl more))).symm.trans closed
  · rintro (fewer | ⟨eight, wordEnd⟩ | ⟨more, isNull⟩)
    · have quiet : parsed.tooManyArgs = false := by
        rw [← Bool.not_eq_true, split.message]
        omega
      exact ⟨split.argc, split.stored, split.closed quiet,
        iff_of_false (by simp [quiet]) (by omega)⟩
    · have quiet : parsed.tooManyArgs = false := by
        rw [← Bool.not_eq_true, split.message, wordEnd]
        rintro (larger | ⟨-, blankEnd⟩)
        · omega
        · exact Bool.false_ne_true blankEnd
      exact ⟨split.argc, split.stored, split.closed quiet,
        iff_of_false (by simp [quiet]) (by omega)⟩
    · have told := split.message.mpr (Or.inl more)
      refine ⟨split.argc, split.stored, ?_, iff_of_true told more⟩
      rw [split.argc, Nat.min_eq_left more.le, split.kept told, isNull]

/-- Three words. -/
theorem parseLineAt_splits_md :
    ∃ parsed, parseLineAt 64 (strcpy 0 ['m', 'd', ' ', '8', '0', ' ', '4'] fun _ => 'x') 0
        (fun _ => .unset) = some parsed ∧
      SplitsLine 0 ['m', 'd', ' ', '8', '0', ' ', '4'] parsed := by
  have string : StringAt (strcpy 0 ['m', 'd', ' ', '8', '0', ' ', '4'] fun _ => 'x') 0
      ['m', 'd', ' ', '8', '0', ' ', '4'] := StringAt.strcpy (by simp [nul]) 0 _
  obtain ⟨parsed, runs, splits⟩ :=
    parseLineAt_splits_iff string (show 7 < 64 by decide) fun _ => .unset
  exact ⟨parsed, runs, splits.mpr (Or.inl (by decide))⟩

/-- Eight words and a blank. -/
def eightWordsBlank : List Char :=
  ['a', ' ', 'b', ' ', 'c', ' ', 'd', ' ', 'e', ' ', 'f', ' ', 'g', ' ', 'h', ' ']

/-- The message comes although there are not more than eight words, and `argv[8]` is as before. -/
theorem eightWordsBlank_unclosed :
    ∃ parsed, parseLineAt 64 (strcpy 0 eightWordsBlank fun _ => 'x') 0 (fun _ => .unset) =
        some parsed ∧
      (words eightWordsBlank).length = 8 ∧ parsed.tooManyArgs = true ∧
      ¬ SplitsLine 0 eightWordsBlank parsed := by
  have string : StringAt (strcpy 0 eightWordsBlank fun _ => 'x') 0 eightWordsBlank :=
    StringAt.strcpy (by simp [eightWordsBlank, nul]) 0 _
  obtain ⟨parsed, runs, split⟩ :=
    parseLineAt_run string (show eightWordsBlank.length < 64 by decide) fun _ => .unset
  have count : (words eightWordsBlank).length = 8 := by decide
  have told : parsed.tooManyArgs = true :=
    split.message.mpr (Or.inr ⟨count.symm, by decide⟩)
  refine ⟨parsed, runs, count, told, fun splits => ?_⟩
  have more := splits.message.mp told
  omega

end K210Guard
