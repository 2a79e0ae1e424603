/-
**A command line in its buffer** (`cli_simple_run_command`, `cli/cli.c`).

Here the line is copied to `cmdbuf` on the stack, and the separator scan walks the copy with a
pointer, looks one character back and overwrites separators with NULs, as the word splitter
overwrites blanks. The addresses the scan reads are recorded; address 0 is `cmdbuf`.

* `runPiecesAt_eq` — the loop does what `runPieces` does on the list of characters, and where the
  scan reads: within the copy, and one below it if the line begins with a quote.
* `splitsCommand_iff` — so the pieces are those of the line, and what is dispatched depends on it
  alone, unless it begins with a quote.
-/

import K210Guard.Cli.ParseInPlace
import K210Guard.Cli.Pieces
import K210Guard.Cli.RunCommand

namespace K210Guard

/-! ### The code -/

/-- The inner loop of `cli_simple_run_command`: where it stops, and the addresses it has read. -/
def scanSeparatorAt (memory : Bytes) (str : Int) :
    (fuel : Nat) → (sep : Int) → (inquotes : Bool) → Option (Int × List Int)
  | 0, _, _ => none
  | fuel + 1, sep, inquotes =>
      if memory sep = nul then some (sep, [sep])
      else
        let inquotes :=
          if memory sep = '\x27' ∧ memory (sep - 1) ≠ '\\' then !inquotes else inquotes
        let candidate := inquotes = false ∧ memory sep = ';' ∧ sep ≠ str
        -- `*(sep - 1)` is read for a quote, and for a semicolon past the start of the piece
        let reads := if memory sep = '\x27' ∨ candidate then [sep, sep - 1] else [sep]
        if candidate ∧ memory (sep - 1) ≠ '\\' then some (sep, reads)
        else
          (scanSeparatorAt memory str fuel (sep + 1) inquotes).map fun scanned =>
            (scanned.1, reads ++ scanned.2)

/-- What the slot of `argv` shows to a command. -/
def ArgPtr.shown (memory : Bytes) (fuel : Nat) : ArgPtr → ArgSlot
  | .unset => .unset
  | .null => .null
  | .pointer address => .word (readString memory fuel address)

/-- The words as the command functions find them. -/
def ParsedInPlace.shown (parsed : ParsedInPlace) (fuel : Nat) : ParsedLine :=
  ⟨parsed.nargs, fun i => (parsed.argv i).shown parsed.memory fuel, parsed.tooManyArgs⟩

/-- What `cli_simple_run_command` leaves, with the addresses its scan has read. -/
structure RanInPlace where
  rc : Int
  array : CmdArray
  reads : List Int

/-- The loop of `cli_simple_run_command`. -/
def runPiecesAt (fuel : Nat) : (turns : Nat) → Bytes → (str : Int) → CmdArray →
    (argv : Nat → ArgPtr) → (rc : Int) → (reads : List Int) → CliProgram RanInPlace
  | 0, _, _, _, _, _, _ => .spin
  | turns + 1, memory, str, array, argv, rc, reads =>
      if memory str = nul then pure ⟨rc, array, reads⟩
      else
        match scanSeparatorAt memory str fuel str false with
        | none => .spin
        | some (sep, scanned) =>
            let token := str
            let str := if memory sep ≠ nul then sep + 1 else sep
            let memory := if memory sep ≠ nul then Function.update memory sep nul else memory
            match parseLineAt fuel memory token argv with
            | none => .spin
            | some parsed => do
                if parsed.tooManyArgs then
                  inCli (printk "** Too many args (max. %d) **\n" [.num 8])
                let ran ← dispatchPiece array (parsed.shown fuel) rc
                runPiecesAt fuel turns parsed.memory str ran.2.1 parsed.argv ran.1
                  (reads ++ scanned)

/-- `cmdbuf` has 64 characters; `stack` is the memory around it before the copy. -/
def cliSimpleRunCommandAt (stack : Bytes) (array : CmdArray) (cmd : List Char) :
    CliProgram RanInPlace :=
  if cmd = [] then pure ⟨-1, array, []⟩
  else if cmd.length ≥ 64 then do
    inCli (printk "## Command too long!\n" [])
    pure ⟨-1, array, []⟩
  else
    runPiecesAt 64 64 (strcpy 0 cmd stack) 0 array (fun _ => .unset) 0 []

/-! ### What it should do -/

/-- A piece is split into words and dispatched: `none` if it has no word, or the result of
`cmd_process`. -/
def dispatchWords (array : CmdArray) (piece : List Char) (argv : Argv) :
    CliProgram (Option Int × CmdArray) := do
  let parsed := cliSimpleParseLine piece argv
  if parsed.tooManyArgs then
    inCli (printk "** Too many args (max. %d) **\n" [.num 8])
  if words piece = [] then pure (none, array)
  else do
    let processed ← cmdProcess array parsed.nargs parsed.argv
    pure (some processed.1, processed.2)

/-- Each piece once, in order; the words of a piece go into the slots the earlier ones have left. -/
def dispatchEach (array : CmdArray) (argv : Argv) :
    List (List Char) → CliProgram (List (Option Int) × CmdArray)
  | [] => pure ([], array)
  | piece :: later => do
      let outcome ← dispatchWords array piece argv
      let rest ← dispatchEach outcome.2 (cliSimpleParseLine piece argv).argv later
      pure (outcome.1 :: rest.1, rest.2)

/-- The result of a line. -/
def lineResult (outcomes : List (Option Int)) : Int :=
  if ∀ outcome ∈ outcomes, outcome = some 0 then 0 else -1

/-- The scan reads only the copy, and each piece of the line is dispatched once, in order. -/
structure SplitsCommand (cmd : List Char) : Prop where
  reads : ∀ stack array ran, (cliSimpleRunCommandAt stack array cmd).Returns ran →
    ∀ address ∈ ran.reads, 0 ≤ address ∧ address ≤ cmd.length
  dispatches : ∀ stack array,
    (cliSimpleRunCommandAt stack array cmd >>= fun ran => pure (ran.rc, ran.array)) =
      dispatchEach array (fun _ => .unset) (cutPieces cmd) >>= fun done =>
        pure (lineResult done.1, done.2)

/-! ### The scan -/

/-- What a scan over the text at `sep` reads: its characters and its NUL, and the character in front
if the text begins with a quote, or when it is not the start of the piece. -/
def ReadsText (sep : Int) (start : Bool) (text : List Char) (reads : List Int) : Prop :=
  (∀ address ∈ reads, sep ≤ address ∧ address ≤ sep + text.length ∨
    address = sep - 1 ∧ (start = false ∨ text.head? = some '\x27')) ∧
  (text.head? = some '\x27' → sep - 1 ∈ reads)

section Reads

variable {str sep : Int} {c : Char} {text : List Char} {start : Bool} {reads : List Int}

/-- The reads of one turn of the scan. -/
theorem readsText_turn (quoted : Bool) (first : start = false ↔ sep ≠ str) :
    ReadsText sep start (c :: text)
      (if c = '\x27' ∨ quoted = false ∧ c = ';' ∧ sep ≠ str then [sep, sep - 1] else [sep]) := by
  have isHead : (c :: text).head? = some '\x27' ↔ c = '\x27' := by simp
  rw [ReadsText, isHead]
  split
  · next back =>
      refine ⟨fun address member => ?_, fun _ => by simp⟩
      rcases List.mem_cons.mp member with rfl | member
      · exact Or.inl ⟨Int.le_refl _, by omega⟩
      · rw [List.mem_singleton.mp member]
        refine Or.inr ⟨rfl, ?_⟩
        rcases back with quote | separator
        · exact Or.inr quote
        · exact Or.inl (first.mpr separator.2.2)
  · next plain =>
      refine ⟨fun address member => ?_, fun quote => absurd (Or.inl quote) plain⟩
      rw [List.mem_singleton.mp member]
      exact Or.inl ⟨Int.le_refl _, by omega⟩

/-- The reads of one turn, then those of a scan that goes on behind its character. -/
theorem ReadsText.append {later : List Int} (turn : ReadsText sep start (c :: text) reads)
    (rest : ReadsText (sep + 1) false text later) :
    ReadsText sep start (c :: text) (reads ++ later) := by
  refine ⟨fun address member => ?_, fun quote => List.mem_append_left _ (turn.2 quote)⟩
  rcases List.mem_append.mp member with now | next
  · exact turn.1 address now
  · have size : ((c :: text).length : Int) = text.length + 1 := by simp
    rw [size]
    rcases rest.1 address next with inside | ⟨back, -⟩
    · exact Or.inl (by omega)
    · exact Or.inl (by omega)

end Reads

/-- **The scan in the buffer** stops where the scan of the list does. -/
theorem scanSeparatorAt_run {memory : Bytes} {str sep : Int} {text piece : List Char}
    {previous : Char} {start inquotes : Bool} {remainder : Option (List Char)}
    (string : StringAt memory sep text) (before : memory (sep - 1) = previous)
    (first : start = false ↔ sep ≠ str) (behind : str ≤ sep)
    (scanned : scanSeparator previous start inquotes text = (piece, remainder)) {fuel : Nat}
    (enough : text.length < fuel) :
    ∃ reads, scanSeparatorAt memory str fuel sep inquotes = some (sep + piece.length, reads) ∧
      ReadsText sep start text reads := by
  induction text generalizing sep previous start inquotes piece fuel with
  | nil =>
      obtain ⟨fuel, rfl⟩ := Nat.exists_eq_succ_of_ne_zero (Nat.ne_of_gt enough)
      obtain rfl : [] = piece := congrArg Prod.fst scanned
      refine ⟨[sep], ?_, fun address member => ?_, fun quote => absurd quote (by simp)⟩
      · rw [scanSeparatorAt]
        exact (if_pos string).trans (by simp)
      · rw [List.mem_singleton.mp member]
        exact Or.inl ⟨Int.le_refl _, by simp⟩
  | cons c text ih =>
      obtain ⟨fuel, rfl⟩ := Nat.exists_eq_succ_of_ne_zero (Nat.ne_of_gt (Nat.zero_lt_of_lt enough))
      obtain ⟨here, notNul, later⟩ := string
      rw [scanSeparatorAt, here, if_neg notNul, before]
      rw [scanSeparator] at scanned
      dsimp only at scanned ⊢
      generalize (if c = '\x27' ∧ previous ≠ '\\' then !inquotes else inquotes) = quoted
        at scanned ⊢
      have stops : ((quoted = false ∧ c = ';' ∧ sep ≠ str) ∧ previous ≠ '\\') ↔
          quoted = false ∧ c = ';' ∧ start = false ∧ previous ≠ '\\' := by
        rw [first, and_assoc, and_assoc]
      have turn : ReadsText sep start (c :: text) _ := readsText_turn quoted first
      by_cases stop : quoted = false ∧ c = ';' ∧ start = false ∧ previous ≠ '\\'
      · rw [if_pos stop] at scanned
        obtain ⟨rfl, -⟩ := Prod.mk.inj scanned
        rw [if_pos (stops.mpr stop)]
        exact ⟨_, by simp, turn⟩
      · rw [if_neg stop] at scanned
        obtain ⟨rfl, same⟩ := Prod.mk.inj scanned
        rw [if_neg (mt stops.mp stop)]
        obtain ⟨reads, runs, rest⟩ := ih later (by rw [Int.add_sub_cancel, here])
          (iff_of_true rfl (by omega)) (by omega) (Prod.ext rfl same)
          (Nat.lt_of_succ_lt_succ enough)
        refine ⟨_ ++ reads, ?_, turn.append rest⟩
        rw [runs, Option.map_some, ← address_succ]

/-! ### The words of a piece, in place -/

/-- A slot of `argv` holds what it should, below an address: later pieces leave it alone. -/
inductive SlotHolds (memory : Bytes) (fuel : Nat) (bound : Int) : ArgPtr → ArgSlot → Prop
  | unset : SlotHolds memory fuel bound .unset .unset
  | null : SlotHolds memory fuel bound .null .null
  | word {address : Int} {text : List Char} (string : StringAt memory address text)
      (short : text.length < fuel) (below : address + text.length < bound) :
      SlotHolds memory fuel bound (.pointer address) (.word text)

section Slots

variable {memory other : Bytes} {fuel : Nat} {bound further line : Int} {text : List Char}

theorem SlotHolds.shown {ptr : ArgPtr} {slot : ArgSlot}
    (holds : SlotHolds memory fuel bound ptr slot) : ptr.shown memory fuel = slot := by
  cases holds with
  | unset => rfl
  | null => rfl
  | word string short _ => exact congrArg ArgSlot.word (string.read short)

/-- Only what is below the bound matters. -/
theorem SlotHolds.frame {ptr : ArgPtr} {slot : ArgSlot}
    (holds : SlotHolds memory fuel bound ptr slot) (agree : ∀ x < bound, other x = memory x)
    (above : bound ≤ further) : SlotHolds other fuel further ptr slot := by
  cases holds with
  | unset => exact .unset
  | null => exact .null
  | word string short below =>
      refine .word (string.frame fun x _ inside => agree x ?_) short ?_
      · exact Int.lt_of_le_of_lt inside below
      · exact Int.lt_of_lt_of_le below above

/-- **The words of a piece** are in place what they are on the list. -/
theorem parseLineAt_shown (string : StringAt memory line text) (enough : text.length < fuel)
    {ptrs : Nat → ArgPtr} {argv : Argv}
    (slots : ∀ i, SlotHolds memory fuel line (ptrs i) (argv i)) :
    ∃ parsed, parseLineAt fuel memory line ptrs = some parsed ∧
      parsed.shown fuel = cliSimpleParseLine text argv ∧
      (∀ x, x < line ∨ line + text.length ≤ x → parsed.memory x = memory x) ∧
      ∀ i, SlotHolds parsed.memory fuel (line + text.length + 1) (parsed.argv i)
        ((cliSimpleParseLine text argv).argv i) := by
  obtain ⟨parsed, runs, nargs, message, frame, agree⟩ :=
    parseArgsAt_agrees 8 string enough 0 ptrs argv
  have holds : ∀ i, SlotHolds parsed.memory fuel (line + text.length + 1) (parsed.argv i)
      ((cliSimpleParseLine text argv).argv i) := by
    intro i
    rw [cliSimpleParseLine]
    cases agree i with
    | kept same specSame =>
        rw [same, specSame]
        exact (slots i).frame (fun x below => frame x (Or.inl below)) (by omega)
    | null isNull specNull =>
        rw [isNull, specNull]
        exact .null
    | word word _ points specWord =>
        obtain ⟨before, after, whole, -, isPointer, stored⟩ := points
        rw [isPointer, specWord]
        have size := congrArg List.length whole
        rw [List.length_append, List.length_append] at size
        exact .word stored (by omega) (by omega)
  refine ⟨parsed, runs, ?_, frame, holds⟩
  have argvSame : (fun i => (parsed.argv i).shown parsed.memory fuel) =
      (cliSimpleParseLine text argv).argv := funext fun i => (holds i).shown
  rw [ParsedInPlace.shown, argvSame, nargs, message]
  rfl

end Slots

/-! ### The loop -/

/-- The dispatch of a piece hands its `argv` on. -/
theorem dispatchPiece_bind {α : Type} (array : CmdArray) (parsed : ParsedLine) (rc : Int)
    (next : Int × CmdArray × Argv → CliProgram α) :
    dispatchPiece array parsed rc >>= next =
      dispatchPiece array parsed rc >>= fun ran => next (ran.1, ran.2.1, parsed.argv) := by
  unfold dispatchPiece
  split
  · rfl
  · rw [Prog.bind_assoc, Prog.bind_assoc]
    rfl

/-- So does a piece. -/
theorem runPiece_bind {α : Type} (array : CmdArray) (token : List Char) (argv : Argv) (rc : Int)
    (next : Int × CmdArray × Argv → CliProgram α) :
    runPiece array token argv rc >>= next =
      runPiece array token argv rc >>= fun ran =>
        next (ran.1, ran.2.1, (cliSimpleParseLine token argv).argv) := by
  unfold runPiece
  dsimp only
  split
  · rw [Prog.bind_assoc, Prog.bind_assoc]
    exact congrArg _ (funext fun _ => dispatchPiece_bind array _ rc next)
  · exact dispatchPiece_bind array _ rc next

section Loop

variable {memory : Bytes} {str : Int} {previous : Char} {text token : List Char} {fuel turns : Nat}
  {ptrs : Nat → ArgPtr} {argv : Argv}

theorem runPiecesAt_nil (ended : memory str = nul) (array : CmdArray) (rc : Int)
    (reads : List Int) :
    runPiecesAt fuel (turns + 1) memory str array ptrs rc reads = pure ⟨rc, array, reads⟩ := by
  rw [runPiecesAt, if_pos ended]

/-- A turn of the loop. -/
theorem runPiecesAt_turn {sep : Int} {scan : List Int} {parsed : ParsedInPlace}
    (more : memory str ≠ nul)
    (scanned : scanSeparatorAt memory str fuel str false = some (sep, scan))
    (parses : parseLineAt fuel
      (if memory sep ≠ nul then Function.update memory sep nul else memory) str ptrs = some parsed)
    (shown : parsed.shown fuel = cliSimpleParseLine token argv)
    (array : CmdArray) (rc : Int) (reads : List Int) :
    runPiecesAt fuel (turns + 1) memory str array ptrs rc reads =
      runPiece array token argv rc >>= fun ran =>
        runPiecesAt fuel turns parsed.memory (if memory sep ≠ nul then sep + 1 else sep) ran.2.1
          parsed.argv ran.1 (reads ++ scan) := by
  have message : parsed.tooManyArgs = (cliSimpleParseLine token argv).tooManyArgs :=
    congrArg ParsedLine.tooManyArgs shown
  rw [runPiecesAt, if_neg more, scanned]
  dsimp only
  rw [parses]
  dsimp only
  rw [shown, message, runPiece]
  dsimp only
  split
  · rw [Prog.bind_assoc]
  · rfl

/-- The turn for the last piece. -/
theorem runPiecesAt_last (string : StringAt memory str text) (before : memory (str - 1) = previous)
    (slots : ∀ i, SlotHolds memory fuel str (ptrs i) (argv i)) (enough : text.length < fuel)
    (more : text ≠ []) (scanned : scanSeparator previous true false text = (token, none)) :
    ∃ scan, ReadsText str true text scan ∧ ∀ array rc reads,
      runPiecesAt fuel (turns + 2) memory str array ptrs rc reads =
        runPiece array token argv rc >>= fun ran => pure ⟨ran.1, ran.2.1, reads ++ scan⟩ := by
  obtain ⟨scan, stops, readsText⟩ := scanSeparatorAt_run string before
    (iff_of_false Bool.noConfusion (not_not.mpr rfl)) (Int.le_refl str) scanned enough
  obtain rfl : text = token := (scanSeparator_whole scanned).trans (List.append_nil _)
  have ended : memory (str + text.length) = nul := by
    rw [← List.append_nil text] at string
    exact string.drop
  have begins : memory str ≠ nul := by
    obtain ⟨c, rest, rfl⟩ := List.exists_cons_of_ne_nil more
    exact string.1 ▸ string.2.1
  obtain ⟨parsed, parses, shown, frame, -⟩ := parseLineAt_shown string enough slots
  refine ⟨scan, readsText, fun array rc reads => ?_⟩
  rw [runPiecesAt_turn begins stops (by rw [if_neg (not_not.mpr ended), parses]) shown,
    if_neg (not_not.mpr ended)]
  refine congrArg _ (funext fun ran => runPiecesAt_nil ?_ _ _ _)
  rw [frame _ (Or.inr (Int.le_refl _)), ended]

/-- The turn for another piece. -/
theorem runPiecesAt_more (string : StringAt memory str text) (before : memory (str - 1) = previous)
    (slots : ∀ i, SlotHolds memory fuel str (ptrs i) (argv i)) (enough : text.length < fuel)
    (more : text ≠ []) {later : List Char}
    (scanned : scanSeparator previous true false text = (token, some later)) :
    ∃ scan, ∃ parsed : ParsedInPlace, ReadsText str true text scan ∧
      (∀ array rc reads, runPiecesAt fuel (turns + 1) memory str array ptrs rc reads =
        runPiece array token argv rc >>= fun ran =>
          runPiecesAt fuel turns parsed.memory (str + token.length + 1) ran.2.1 parsed.argv ran.1
            (reads ++ scan)) ∧
      StringAt parsed.memory (str + token.length + 1) later ∧
      parsed.memory (str + token.length) = nul ∧
      ∀ i, SlotHolds parsed.memory fuel (str + token.length + 1) (parsed.argv i)
        ((cliSimpleParseLine token argv).argv i) := by
  obtain ⟨scan, stops, readsText⟩ := scanSeparatorAt_run string before
    (iff_of_false Bool.noConfusion (not_not.mpr rfl)) (Int.le_refl str) scanned enough
  obtain rfl : text = token ++ ';' :: later := scanSeparator_whole scanned
  have separator : memory (str + token.length) ≠ nul := by
    rw [string.drop.1]
    decide
  have begins : memory str ≠ nul := by
    rw [string.head]
    cases token with
    | nil =>
        show (';' : Char) ≠ nul
        decide
    | cons c token => exact string.2.1
  have behind : StringAt (Function.update memory (str + token.length) nul)
      (str + token.length + 1) later :=
    string.drop.2.2.frame fun x above _ => Function.update_of_ne (by omega) _ _
  have short : token.length < fuel := by
    rw [List.length_append] at enough
    omega
  obtain ⟨parsed, parses, shown, frame, holds⟩ := parseLineAt_shown string.cut short fun i =>
    (slots i).frame (fun x below => Function.update_of_ne (by omega) _ _) (Int.le_refl str)
  refine ⟨scan, parsed, readsText, fun array rc reads => ?_, ?_, ?_, holds⟩
  · rw [runPiecesAt_turn begins stops (by rw [if_pos separator, parses]) shown, if_pos separator]
  · exact behind.frame fun x above _ => frame x (Or.inr (by omega))
  · rw [frame _ (Or.inr (Int.le_refl _)), Function.update_self]

/-- **The loop in the buffer** does what `runPieces` does on the list, and reads only the text, and
the character in front if it begins with a quote. -/
theorem runPiecesAt_eq (string : StringAt memory str text) (before : memory (str - 1) = previous)
    (slots : ∀ i, SlotHolds memory fuel str (ptrs i) (argv i)) (enough : text.length < fuel)
    (enoughTurns : text.length < turns) :
    ∃ scan, ReadsText str true text scan ∧ ∀ array rc reads,
      runPiecesAt fuel turns memory str array ptrs rc reads =
        runPieces previous text array argv rc >>= fun ran =>
          pure ⟨ran.1, ran.2, reads ++ scan⟩ := by
  induction previous, text using pieces.induct generalizing memory str ptrs argv turns with
  | case1 previous =>
      obtain ⟨turns, rfl⟩ := Nat.exists_eq_succ_of_ne_zero (Nat.ne_of_gt enoughTurns)
      refine ⟨[], ⟨fun _ member => absurd member List.not_mem_nil, fun quote => ?_⟩,
        fun array rc reads => ?_⟩
      · exact absurd quote (by simp)
      rw [runPiecesAt_nil string, runPieces, if_pos rfl, List.append_nil]
      rfl
  | case2 previous text more token scanned =>
      obtain ⟨turns, rfl⟩ := Nat.exists_eq_add_of_le' (show 2 ≤ turns by
        have := List.length_pos_of_ne_nil more
        omega)
      obtain ⟨scan, readsText, turn⟩ :=
        runPiecesAt_last string before slots enough more scanned
      refine ⟨scan, readsText, fun array rc reads => ?_⟩
      rw [turn, runPieces_last more scanned, Prog.bind_assoc]
      rfl
  | case3 previous text more token later scanned ih =>
      obtain ⟨turns, rfl⟩ := Nat.exists_eq_succ_of_ne_zero
        (Nat.ne_of_gt (Nat.zero_lt_of_lt enoughTurns))
      have size := congrArg List.length (scanSeparator_whole scanned)
      rw [Option.elim_some, List.length_append, List.length_cons] at size
      obtain ⟨scan, parsed, readsText, turn, stringLater, nulBefore, slotsLater⟩ :=
        runPiecesAt_more string before slots enough more scanned
      have shorter : later.length < turns := by omega
      obtain ⟨scanLater, readsLater, runs⟩ := ih stringLater
        (by rw [Int.add_sub_cancel]; exact nulBefore) slotsLater (by omega) shorter
      refine ⟨scan ++ scanLater, ⟨fun address member => ?_, fun quote => ?_⟩,
        fun array rc reads => ?_⟩
      · rcases List.mem_append.mp member with now | next
        · exact readsText.1 address now
        · rcases readsLater.1 address next with inside | ⟨back, -⟩
          · exact Or.inl (by omega)
          · exact Or.inl (by omega)
      · exact List.mem_append_left _ (readsText.2 quote)
      · rw [turn, runPieces_more more scanned, Prog.bind_assoc]
        refine Eq.trans ?_ (runPiece_bind array token argv rc _).symm
        refine congrArg _ (funext fun ran => ?_)
        rw [runs, List.append_assoc]

end Loop

/-! ### What is dispatched -/

theorem runPiece_eq (array : CmdArray) (token : List Char) (argv : Argv) (rc : Int) :
    runPiece array token argv rc = dispatchWords array token argv >>= fun outcome =>
      pure (if outcome.1 = some 0 then rc else -1, outcome.2,
        (cliSimpleParseLine token argv).argv) := by
  have dispatched : dispatchPiece array (cliSimpleParseLine token argv) rc =
      (if words token = [] then pure (none, array)
        else do
          let processed ← cmdProcess array (cliSimpleParseLine token argv).nargs
            (cliSimpleParseLine token argv).argv
          pure (some processed.1, processed.2)) >>= fun outcome =>
        pure (if outcome.1 = some 0 then rc else -1, outcome.2,
          (cliSimpleParseLine token argv).argv) := by
    have noWord : (cliSimpleParseLine token argv).nargs = 0 ↔ words token = [] := by
      rw [cliSimpleParseLine_nargs, ← List.length_eq_zero_iff]
      omega
    rw [dispatchPiece, if_congr noWord rfl rfl]
    split
    · rfl
    · rw [Prog.bind_assoc]
      refine congrArg _ (funext fun processed => ?_)
      show pure _ = pure _
      by_cases zero : processed.1 = 0
      · simp [zero]
      · simp [zero]
  rw [runPiece, dispatchWords]
  dsimp only
  split
  · rw [Prog.bind_assoc, dispatched]
  · exact dispatched

theorem result_nil (rc : Int) :
    (if ∀ done ∈ ([] : List (Option Int)), done = some 0 then rc else -1) = rc :=
  if_pos (List.forall_mem_nil _)

/-- Whether all went well, from the first piece and the others. -/
theorem result_cons (rc : Int) (outcome : Option Int) (later : List (Option Int)) :
    (if ∀ done ∈ outcome :: later, done = some 0 then rc else -1) =
      if ∀ done ∈ later, done = some 0 then (if outcome = some 0 then rc else -1) else -1 := by
  rw [if_congr List.forall_mem_cons rfl rfl]
  by_cases first : outcome = some 0
  · simp [first]
  · simp [first]

/-- **The loop dispatches the pieces**, each once and in order, and remembers whether one failed. -/
theorem runPieces_eq (previous : Char) (str : List Char) (array : CmdArray) (argv : Argv)
    (rc : Int) :
    runPieces previous str array argv rc =
      dispatchEach array argv (pieces previous str) >>= fun done =>
        pure (if ∀ outcome ∈ done.1, outcome = some 0 then rc else -1, done.2) := by
  induction previous, str using pieces.induct generalizing array argv rc with
  | case1 previous =>
      rw [runPieces, pieces, if_pos rfl, if_pos rfl]
      exact congrArg Prog.pure (Prod.ext (result_nil rc).symm rfl)
  | case2 previous str more token scanned =>
      rw [runPieces_last more scanned, pieces_last more scanned, runPiece_eq, dispatchEach,
        Prog.bind_assoc, Prog.bind_assoc]
      refine congrArg _ (funext fun outcome => congrArg Prog.pure (Prod.ext ?_ rfl))
      exact ((result_cons rc outcome.1 []).trans (result_nil _)).symm
  | case3 previous str more token rest scanned ih =>
      rw [runPieces_more more scanned, pieces_more more scanned, runPiece_eq, dispatchEach,
        Prog.bind_assoc, Prog.bind_assoc]
      refine congrArg _ (funext fun outcome => (ih _ _ _).trans ?_)
      dsimp only
      rw [Prog.bind_assoc]
      refine congrArg _ (funext fun done => congrArg Prog.pure (Prod.ext ?_ rfl))
      exact (result_cons rc outcome.1 done.1).symm

/-- A line can come to its end. -/
theorem runPieces_returns (previous : Char) (str : List Char) (array : CmdArray) (argv : Argv)
    (rc : Int) : ∃ ran, (runPieces previous str array argv rc).Returns ran := by
  induction previous, str using pieces.induct generalizing array argv rc with
  | case1 previous =>
      rw [runPieces, if_pos rfl]
      exact ⟨_, .pure⟩
  | case2 previous str more token scanned =>
      rw [runPieces_last more scanned]
      obtain ⟨ran, returns⟩ := runPiece_returns array token argv rc
      exact ⟨_, returns.bind .pure⟩
  | case3 previous str more token rest scanned ih =>
      rw [runPieces_more more scanned]
      obtain ⟨ran, returns⟩ := runPiece_returns array token argv rc
      obtain ⟨result, later⟩ := ih ran.2.1 ran.2.2 ran.1
      exact ⟨result, returns.bind later⟩

section Line

variable {cmd : List Char} (more : cmd ≠ []) (short : cmd.length < 64) (noNul : ∀ c ∈ cmd, c ≠ nul)
include more short noNul

/-- A whole line, with what the scan reads. -/
theorem cliSimpleRunCommandAt_eq (stack : Bytes) :
    ∃ scan, ReadsText 0 true cmd scan ∧ ∀ array,
      cliSimpleRunCommandAt stack array cmd =
        runPieces (stack (-1)) cmd array (fun _ => .unset) 0 >>= fun ran =>
          pure ⟨ran.1, ran.2, scan⟩ := by
  have below : strcpy 0 cmd stack (0 - 1) = stack (-1) := if_neg (by omega)
  obtain ⟨scan, readsText, runs⟩ := runPiecesAt_eq (StringAt.strcpy noNul 0 stack) below
    (fun _ => .unset) short short
  refine ⟨scan, readsText, fun array => ?_⟩
  rw [cliSimpleRunCommandAt, if_neg more, if_neg (Nat.not_le_of_lt short), runs]
  rfl

/-- A line that begins with a quote makes the scan look at the byte below its copy. -/
theorem reads_below (quote : cmd.head? = some '\x27') (stack : Bytes) (array : CmdArray) :
    ∃ ran, (cliSimpleRunCommandAt stack array cmd).Returns ran ∧ -1 ∈ ran.reads := by
  obtain ⟨scan, readsText, runs⟩ := cliSimpleRunCommandAt_eq more short noNul stack
  obtain ⟨ran, returns⟩ := runPieces_returns (stack (-1)) cmd array (fun _ => .unset) 0
  refine ⟨⟨ran.1, ran.2, scan⟩, ?_, readsText.2 quote⟩
  rw [runs]
  exact returns.bind .pure

/-- What a line that does not begin with a quote makes it read. -/
theorem reads_within (noQuote : cmd.head? ≠ some '\x27') {stack : Bytes} {array : CmdArray}
    {ran : RanInPlace} (returns : (cliSimpleRunCommandAt stack array cmd).Returns ran) :
    ∀ address ∈ ran.reads, 0 ≤ address ∧ address ≤ cmd.length := by
  obtain ⟨scan, readsText, runs⟩ := cliSimpleRunCommandAt_eq more short noNul stack
  rw [runs] at returns
  obtain ⟨done, -, last⟩ := returns.of_bind
  obtain rfl : ran = ⟨done.1, done.2, scan⟩ := by
    cases last
    rfl
  intro address member
  rcases readsText.1 address member with inside | ⟨-, impossible | quote⟩
  · exact ⟨inside.1, by omega⟩
  · exact absurd impossible.symm Bool.false_ne_true
  · exact absurd quote noQuote

/-- What is dispatched. -/
theorem cliSimpleRunCommandAt_dispatches (stack : Bytes) (array : CmdArray) :
    (cliSimpleRunCommandAt stack array cmd >>= fun ran => pure (ran.rc, ran.array)) =
      dispatchEach array (fun _ => .unset) (pieces (stack (-1)) cmd) >>= fun done =>
        pure (lineResult done.1, done.2) := by
  obtain ⟨scan, -, runs⟩ := cliSimpleRunCommandAt_eq more short noNul stack
  rw [runs, Prog.bind_assoc, runPieces_eq, Prog.bind_assoc]
  rfl

/-- **A line is split and dispatched as it should be** unless it begins with a quote: then the scan
looks at the byte below its copy. -/
theorem splitsCommand_iff : SplitsCommand cmd ↔ cmd.head? ≠ some '\x27' := by
  constructor
  · intro splits quote
    obtain ⟨ran, returns, below⟩ :=
      reads_below more short noNul quote (fun _ => nul) CmdArray.init
    have inside := (splits.reads _ _ ran returns (-1) below).1
    omega
  · intro noQuote
    refine ⟨fun stack array ran returns => reads_within more short noNul noQuote returns,
      fun stack array => ?_⟩
    rw [cliSimpleRunCommandAt_dispatches more short noNul, pieces_eq_cutPieces _ noQuote]

end Line

/-- Two commands and an escaped semicolon. -/
theorem splitsCommand_twoCommands :
    SplitsCommand ['m', 'd', ' ', '\\', ';', ';', 'h', 'e', 'l', 'p'] :=
  (splitsCommand_iff (by decide) (by decide) (by simp [nul])).mpr (by decide)

/-- A quote, a semicolon and a command. -/
def quoteFirst : List Char := ['\x27', ';', 'h', 'e', 'l', 'p']

theorem quoteFirst_whole : pieces nul quoteFirst = [quoteFirst] := by
  rw [pieces_last (by decide) (by decide : _ = (quoteFirst, none))]

theorem quoteFirst_cut : pieces '\\' quoteFirst = [['\x27'], ['h', 'e', 'l', 'p']] := by
  rw [pieces_more (by decide) (by decide : _ = (['\x27'], some ['h', 'e', 'l', 'p'])),
    pieces_last (by decide) (by decide : _ = (['h', 'e', 'l', 'p'], none))]

/-- The answer to a line whose first piece is no command. -/
theorem dispatchEach_unknown (piece : List Char) (pieces : List (List Char))
    (asks : ∃ next, dispatchEach .init (fun _ => .unset) pieces =
      .ask (.cmd (.printk "## Unknown command '%s' - try 'help'\n" [.str piece])) next) :
    ∃ next, (dispatchEach .init (fun _ => .unset) pieces >>= fun done =>
        pure (lineResult done.1, done.2)) =
      .ask (.cmd (.printk "## Unknown command '%s' - try 'help'\n" [.str piece])) next := by
  obtain ⟨next, same⟩ := asks
  rw [same]
  exact ⟨_, rfl⟩

/-- The byte below the copy is read, and decides whether there are two commands or one. -/
theorem quoteFirst_dependsOnStack :
    (∃ ran, (cliSimpleRunCommandAt (fun _ => nul) .init quoteFirst).Returns ran ∧
      -1 ∈ ran.reads) ∧
    cliSimpleRunCommandAt (fun _ => nul) .init quoteFirst ≠
      cliSimpleRunCommandAt (fun _ => '\\') .init quoteFirst ∧
    ¬ SplitsCommand quoteFirst := by
  have more : quoteFirst ≠ [] := by decide
  have short : quoteFirst.length < 64 := by decide
  have noNul : ∀ c ∈ quoteFirst, c ≠ nul := by simp [quoteFirst, nul]
  have read := reads_below more short noNul rfl (fun _ => nul) .init
  refine ⟨read, fun same => ?_, fun splits => ?_⟩
  · have dispatched := cliSimpleRunCommandAt_dispatches more short noNul (fun _ => nul) .init
    rw [same, cliSimpleRunCommandAt_dispatches more short noNul, quoteFirst_whole,
      quoteFirst_cut] at dispatched
    obtain ⟨_, first⟩ := dispatchEach_unknown quoteFirst [quoteFirst] ⟨_, rfl⟩
    obtain ⟨_, other⟩ := dispatchEach_unknown ['\x27'] [['\x27'], ['h', 'e', 'l', 'p']] ⟨_, rfl⟩
    rw [first, other] at dispatched
    injection dispatched with op
    simp [quoteFirst] at op
  · obtain ⟨ran, returns, below⟩ := read
    have inside := (splits.reads _ _ ran returns (-1) below).1
    omega

end K210Guard
