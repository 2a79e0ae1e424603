/-
**Words and pieces of a command line** (`cli_simple_parse_line` and the separator scan of
`cli_simple_run_command`, `cli/cli.c`).

A C string is the list of its characters before the NUL.

* `words` — what a line is made of: its maximal runs of characters other than blanks.
* `cliSimpleParseLine_eq` — the splitter counts the words, eight at most, stores them in order and
  leaves NULL after the last one, unless it gives up on a line that goes on after eight.
* `pieces` — the pieces the separator scan cuts a line into.
-/

import Mathlib.Data.List.TakeWhile
import Mathlib.Logic.Function.Basic

namespace K210Guard

/-! ### The word splitter -/

def isblank (c : Char) : Bool := c = ' ' || c = '\t'

/-- A slot of `argv`: never written, `NULL`, or a pointer to a string. -/
inductive ArgSlot
  | unset
  | null
  | word (text : List Char)
  deriving DecidableEq

/-- `argv`, an array of `CONFIG_SYS_MAXARGS + 1` slots. -/
abbrev Argv := Nat → ArgSlot

/-- What `cli_simple_parse_line` returns, writes and prints. -/
structure ParsedLine where
  nargs : Nat
  argv : Argv
  tooManyArgs : Bool

/-- The loop of `cli_simple_parse_line`, with the number of arguments there is still room for. -/
def parseArgs : (room : Nat) → (line : List Char) → (nargs : Nat) → Argv → ParsedLine
  | 0, _, nargs, argv => ⟨nargs, argv, true⟩
  | room + 1, line, nargs, argv =>
      let line := line.dropWhile isblank
      if line = [] then
        ⟨nargs, Function.update argv nargs .null, false⟩
      else
        let argv := Function.update argv nargs (.word (line.takeWhile (!isblank ·)))
        match line.dropWhile (!isblank ·) with
        | [] => ⟨nargs + 1, Function.update argv (nargs + 1) .null, false⟩
        | _ :: line => parseArgs room line (nargs + 1) argv

def cliSimpleParseLine (line : List Char) (argv : Argv) : ParsedLine := parseArgs 8 line 0 argv

/-! ### What it computes -/

/-- The maximal runs of characters other than blanks. -/
def words (line : List Char) : List (List Char) := (line.splitOnP isblank).filter (· ≠ [])

theorem words_cons_blank {c : Char} (blank : isblank c = true) (line : List Char) :
    words (c :: line) = words line := by
  rw [words, List.splitOnP_cons_eq_if_modifyHead, if_pos blank, List.filter_cons_of_neg (by simp),
    words]

section Run

variable {run : List Char} (others : ∀ c ∈ run, isblank c = false) (nonempty : run ≠ [])
include others nonempty

/-- A run of other characters up to the end of the line. -/
theorem words_run : words run = [run] := by
  rw [words, List.splitOnP_eq_singleton others, List.filter_cons_of_pos (by simpa using nonempty),
    List.filter_nil]

/-- A run of other characters up to a blank. -/
theorem words_run_blank {blank : Char} (isBlank : isblank blank = true) (rest : List Char) :
    words (run ++ blank :: rest) = run :: words rest := by
  rw [words, List.splitOnP_append_cons_of_forall_mem others _ isBlank,
    List.filter_cons_of_pos (by simpa using nonempty), words]

end Run

/-- A line without leading blanks begins with a run of other characters. -/
theorem takeWhile_ne_nil {line : List Char} (more : line.dropWhile isblank ≠ []) :
    (line.dropWhile isblank).takeWhile (!isblank ·) ≠ [] := by
  induction line with
  | nil => exact absurd rfl more
  | cons c line ih =>
      by_cases blank : isblank c = true
      · rw [List.dropWhile_cons_of_pos blank] at more ⊢
        exact ih more
      · rw [List.dropWhile_cons_of_neg blank, List.takeWhile_cons_of_pos (by simpa using blank)]
        exact List.cons_ne_nil _ _

/-- What a line looks like from the splitter: blanks only, blanks and a last word, or blanks and a
word with a blank behind it. -/
inductive LineShape : List Char → Prop
  | blank (blanks : List Char) (areBlanks : ∀ c ∈ blanks, isblank c = true) : LineShape blanks
  | last (blanks word : List Char) (areBlanks : ∀ c ∈ blanks, isblank c = true)
      (others : ∀ c ∈ word, isblank c = false) (nonempty : word ≠ []) : LineShape (blanks ++ word)
  | more (blanks word : List Char) (blank : Char) (rest : List Char)
      (areBlanks : ∀ c ∈ blanks, isblank c = true) (others : ∀ c ∈ word, isblank c = false)
      (nonempty : word ≠ []) (isBlank : isblank blank = true) :
      LineShape (blanks ++ word ++ blank :: rest)

/-- Every line has one of the three shapes. -/
theorem lineShape (line : List Char) : LineShape line := by
  have areBlanks : ∀ c ∈ line.takeWhile isblank, isblank c = true :=
    fun c member => List.mem_takeWhile_imp member
  have others : ∀ c ∈ (line.dropWhile isblank).takeWhile (!isblank ·), isblank c = false := by
    intro c member
    simpa using List.mem_takeWhile_imp member
  have whole : line.takeWhile isblank ++ line.dropWhile isblank = line :=
    List.takeWhile_append_dropWhile
  have split := List.takeWhile_append_dropWhile (p := (!isblank ·)) (l := line.dropWhile isblank)
  by_cases ends : line.dropWhile isblank = []
  · rw [ends, List.append_nil] at whole
    rw [← whole]
    exact .blank _ areBlanks
  have nonempty := takeWhile_ne_nil ends
  cases tail : (line.dropWhile isblank).dropWhile (!isblank ·) with
  | nil =>
      rw [tail, List.append_nil] at split
      rw [← whole, ← split]
      exact .last _ _ areBlanks others nonempty
  | cons blank rest =>
      have isBlank : isblank blank = true := by
        have first := List.dropWhile_get_zero_not (p := (!isblank ·)) (line.dropWhile isblank)
          (by rw [tail]; exact Nat.succ_pos _)
        simpa [tail] using first
      rw [tail] at split
      rw [← whole, ← split, ← List.append_assoc]
      exact .more _ _ _ _ areBlanks others nonempty isBlank

section Shape

variable {blanks word : List Char} (areBlanks : ∀ c ∈ blanks, isblank c = true)
  (others : ∀ c ∈ word, isblank c = false) (nonempty : word ≠ [])
include areBlanks

/-- Blanks in front do not count. -/
theorem words_append_blanks (line : List Char) : words (blanks ++ line) = words line := by
  induction blanks with
  | nil => rfl
  | cons c blanks ih =>
      rw [List.cons_append, words_cons_blank (areBlanks c List.mem_cons_self),
        ih fun c member => areBlanks c (List.mem_cons_of_mem _ member)]

/-- A line of blanks has no words. -/
theorem words_blanks : words blanks = [] := by
  have none := words_append_blanks areBlanks []
  rwa [List.append_nil] at none

theorem parseArgs_blank (room nargs : Nat) (argv : Argv) :
    parseArgs (room + 1) blanks nargs argv = ⟨nargs, Function.update argv nargs .null, false⟩ := by
  rw [parseArgs]
  exact if_pos (List.dropWhile_eq_nil_iff.mpr areBlanks)

include others nonempty

/-- Behind the blanks the word begins. -/
theorem dropWhile_blanks (rest : List Char) :
    (blanks ++ word ++ rest).dropWhile isblank = word ++ rest := by
  obtain ⟨c, word, rfl⟩ := List.exists_cons_of_ne_nil nonempty
  rw [List.append_assoc, List.dropWhile_append_of_pos areBlanks, List.cons_append,
    List.dropWhile_cons_of_neg (by simp [others c List.mem_cons_self])]

theorem parseArgs_last (room nargs : Nat) (argv : Argv) :
    parseArgs (room + 1) (blanks ++ word) nargs argv =
      ⟨nargs + 1, Function.update (Function.update argv nargs (.word word)) (nargs + 1) .null,
        false⟩ := by
  have behind := dropWhile_blanks areBlanks others nonempty []
  rw [List.append_nil, List.append_nil] at behind
  have whole : ∀ c ∈ word, (!isblank c) = true := fun c member => by rw [others c member]; rfl
  simp only [parseArgs]
  rw [behind, if_neg nonempty, List.takeWhile_eq_self_iff.mpr whole,
    List.dropWhile_eq_nil_iff.mpr whole]

theorem parseArgs_more {blank : Char} (isBlank : isblank blank = true) (room nargs : Nat)
    (rest : List Char) (argv : Argv) :
    parseArgs (room + 1) (blanks ++ word ++ blank :: rest) nargs argv =
      parseArgs room rest (nargs + 1) (Function.update argv nargs (.word word)) := by
  have behind := dropWhile_blanks areBlanks others nonempty (blank :: rest)
  have whole : ∀ c ∈ word, (!isblank c) = true := fun c member => by rw [others c member]; rfl
  have stops : ¬ (!isblank blank) = true := by rw [isBlank]; exact Bool.false_ne_true
  simp only [parseArgs]
  rw [behind, if_neg (List.append_ne_nil_of_left_ne_nil nonempty _),
    List.takeWhile_append_of_pos whole, List.takeWhile_cons_of_neg (p := (!isblank ·)) stops,
    List.append_nil,
    List.dropWhile_append_of_pos whole, List.dropWhile_cons_of_neg (p := (!isblank ·)) stops]

end Shape

/-- **One turn of the loop**: the line has no more words, or the next word is stored, and then the
line ends or goes on. -/
theorem parseArgs_succ (room : Nat) (line : List Char) (nargs : Nat) (argv : Argv) :
    (words line = [] ∧ parseArgs (room + 1) line nargs argv =
        ⟨nargs, Function.update argv nargs .null, false⟩) ∨
      ∃ word rest, words line = word :: words rest ∧
        ((rest = [] ∧ parseArgs (room + 1) line nargs argv =
            ⟨nargs + 1, Function.update (Function.update argv nargs (.word word)) (nargs + 1) .null,
              false⟩) ∨
          parseArgs (room + 1) line nargs argv =
            parseArgs room rest (nargs + 1) (Function.update argv nargs (.word word))) := by
  cases lineShape line with
  | blank _ areBlanks =>
      exact Or.inl ⟨words_blanks areBlanks, parseArgs_blank areBlanks room nargs argv⟩
  | last blanks word areBlanks others nonempty =>
      refine Or.inr ⟨word, [], ?_, Or.inl ⟨rfl, ?_⟩⟩
      · rw [words_append_blanks areBlanks, words_run others nonempty]
        rfl
      · exact parseArgs_last areBlanks others nonempty room nargs argv
  | more blanks word blank rest areBlanks others nonempty isBlank =>
      refine Or.inr ⟨word, rest, ?_, Or.inr ?_⟩
      · rw [List.append_assoc, words_append_blanks areBlanks,
          words_run_blank others nonempty isBlank]
      · exact parseArgs_more areBlanks others nonempty isBlank room nargs rest argv

/-- It counts the words there is room for. -/
theorem parseArgs_nargs (room : Nat) (line : List Char) (nargs : Nat) (argv : Argv) :
    (parseArgs room line nargs argv).nargs = nargs + min room (words line).length := by
  induction room generalizing line nargs argv with
  | zero => simp [parseArgs]
  | succ room ih =>
      rcases parseArgs_succ room line nargs argv with
        ⟨none, result⟩ | ⟨word, rest, found, ⟨rfl, result⟩ | result⟩
      · rw [result, none, List.length_nil, Nat.min_zero, Nat.add_zero]
      · rw [result, found]
        simp [words]
      · rw [result, ih, found, List.length_cons]
        omega

/-- It leaves the slots before the first free one alone. -/
theorem parseArgs_kept (room : Nat) (line : List Char) {nargs i : Nat} (argv : Argv)
    (before : i < nargs) : (parseArgs room line nargs argv).argv i = argv i := by
  induction room generalizing line nargs argv with
  | zero => rfl
  | succ room ih =>
      rcases parseArgs_succ room line nargs argv with
        ⟨-, result⟩ | ⟨word, rest, -, ⟨-, result⟩ | result⟩
      · rw [result]
        exact Function.update_of_ne before.ne _ _
      · rw [result]
        exact (Function.update_of_ne (Nat.lt_succ_of_lt before).ne _ _).trans
          (Function.update_of_ne before.ne _ _)
      · rw [result, ih rest _ (Nat.lt_succ_of_lt before)]
        exact Function.update_of_ne before.ne _ _

/-- **It stores the words in order.** -/
theorem parseArgs_word (room : Nat) (line : List Char) (nargs : Nat) (argv : Argv) {i : Nat}
    {word : List Char} (fits : i < room) (found : (words line)[i]? = some word) :
    (parseArgs room line nargs argv).argv (nargs + i) = .word word := by
  induction room generalizing line nargs argv i with
  | zero => exact absurd fits (Nat.not_lt_zero i)
  | succ room ih =>
      rcases parseArgs_succ room line nargs argv with
        ⟨none, -⟩ | ⟨first, rest, some', last⟩
      · rw [none] at found
        exact absurd found (by simp)
      rw [some'] at found
      cases i with
      | zero =>
          obtain rfl : first = word := by simpa using found
          rcases last with ⟨-, result⟩ | result
          · rw [result]
            exact (Function.update_of_ne (Nat.lt_succ_self nargs).ne _ _).trans
              (Function.update_self _ _ _)
          · rw [result]
            exact (parseArgs_kept room rest _ (Nat.lt_succ_self nargs)).trans
              (Function.update_self _ _ _)
      | succ i =>
          rcases last with ⟨rfl, -⟩ | result
          · simp [words] at found
          · rw [result, show nargs + (i + 1) = nargs + 1 + i by omega]
            exact ih _ _ _ (by omega) (by simpa using found)

/-- Unless it gives up, it leaves NULL after the last argument. -/
theorem parseArgs_null (room : Nat) (line : List Char) (nargs : Nat) (argv : Argv)
    (complete : (parseArgs room line nargs argv).tooManyArgs = false) :
    (parseArgs room line nargs argv).argv (parseArgs room line nargs argv).nargs = .null := by
  induction room generalizing line nargs argv with
  | zero => exact absurd complete (by simp [parseArgs])
  | succ room ih =>
      rcases parseArgs_succ room line nargs argv with
        ⟨-, result⟩ | ⟨word, rest, -, ⟨-, result⟩ | result⟩
      · rw [result]
        exact Function.update_self _ _ _
      · rw [result]
        exact Function.update_self _ _ _
      · rw [result] at complete ⊢
        exact ih _ _ _ complete

/-- The last character is a blank. -/
def endsInBlank (line : List Char) : Bool := line.getLast?.any isblank

/-- Behind a word that is not the last one only the rest counts. -/
theorem endsInBlank_append (front : List Char) {blank : Char} (isBlank : isblank blank = true)
    (rest : List Char) :
    endsInBlank (front ++ blank :: rest) = true ↔ rest = [] ∨ endsInBlank rest = true := by
  unfold endsInBlank
  rw [List.getLast?_append]
  cases rest with
  | nil => simp [isBlank]
  | cons c rest =>
      rw [List.getLast?_cons_cons, List.getLast?_eq_some_getLast (List.cons_ne_nil c rest),
        Option.some_or]
      simp

theorem endsInBlank_of_blanks {blanks : List Char} (areBlanks : ∀ c ∈ blanks, isblank c = true)
    (nonempty : blanks ≠ []) : endsInBlank blanks = true := by
  rw [endsInBlank, List.getLast?_eq_some_getLast nonempty, Option.any_some]
  exact areBlanks _ (List.getLast_mem nonempty)

theorem endsInBlank_of_word {blanks word : List Char} (others : ∀ c ∈ word, isblank c = false)
    (nonempty : word ≠ []) : endsInBlank (blanks ++ word) = false := by
  rw [endsInBlank, List.getLast?_append, List.getLast?_eq_some_getLast nonempty, Option.some_or,
    Option.any_some]
  exact others _ (List.getLast_mem nonempty)

/-- A line without words is empty or ends in a blank. -/
theorem endsInBlank_of_words_nil {line : List Char} (none : words line = [])
    (nonempty : line ≠ []) : endsInBlank line = true := by
  cases lineShape line with
  | blank _ areBlanks => exact endsInBlank_of_blanks areBlanks nonempty
  | last blanks word areBlanks others hasWord =>
      rw [words_append_blanks areBlanks, words_run others hasWord] at none
      exact absurd none (List.cons_ne_nil _ _)
  | more blanks word blank rest areBlanks others hasWord isBlank =>
      rw [List.append_assoc, words_append_blanks areBlanks,
        words_run_blank others hasWord isBlank] at none
      exact absurd none (List.cons_ne_nil _ _)

/-- **When it gives up**: with more words than room, or with as many and a blank behind the last. -/
theorem parseArgs_tooManyArgs (room : Nat) (line : List Char) (nargs : Nat) (argv : Argv) :
    (parseArgs room line nargs argv).tooManyArgs = true ↔ room < (words line).length ∨
      room = (words line).length ∧ (room = 0 ∨ endsInBlank line = true) := by
  induction room generalizing line nargs argv with
  | zero =>
      refine iff_of_true rfl ?_
      rcases Nat.eq_zero_or_pos (words line).length with none | some'
      · exact Or.inr ⟨none.symm, Or.inl rfl⟩
      · exact Or.inl some'
  | succ room ih =>
      cases lineShape line with
      | blank _ areBlanks =>
          rw [parseArgs_blank areBlanks, words_blanks areBlanks]
          simp
      | last blanks word areBlanks others nonempty =>
          rw [parseArgs_last areBlanks others nonempty, words_append_blanks areBlanks,
            words_run others nonempty, endsInBlank_of_word others nonempty]
          simp
      | more blanks word blank rest areBlanks others nonempty isBlank =>
          have onlyBlanks : room = (words rest).length → room = 0 →
              rest = [] ∨ endsInBlank rest = true := by
            intro same zero
            by_cases empty : rest = []
            · exact Or.inl empty
            · exact Or.inr (endsInBlank_of_words_nil
                (List.eq_nil_of_length_eq_zero (same.symm.trans zero)) empty)
          have noWords : room = (words rest).length → rest = [] → room = 0 := by
            rintro same rfl
            exact same
          rw [parseArgs_more areBlanks others nonempty isBlank, ih, endsInBlank_append _ isBlank,
            List.append_assoc, words_append_blanks areBlanks,
            words_run_blank others nonempty isBlank, List.length_cons, Nat.add_lt_add_iff_right,
            Nat.add_right_cancel_iff]
          constructor
          · rintro (fewer | ⟨same, zero | blankEnd⟩)
            · exact Or.inl fewer
            · exact Or.inr ⟨same, Or.inr (onlyBlanks same zero)⟩
            · exact Or.inr ⟨same, Or.inr (Or.inr blankEnd)⟩
          · rintro (fewer | ⟨same, impossible | empty | blankEnd⟩)
            · exact Or.inl fewer
            · exact absurd impossible (Nat.succ_ne_zero _)
            · exact Or.inr ⟨same, Or.inl (noWords same empty)⟩
            · exact Or.inr ⟨same, Or.inr blankEnd⟩

/-- When it gives up, the slots behind the last argument are as before. -/
theorem parseArgs_argv_behind (room : Nat) (line : List Char) (nargs : Nat) (argv : Argv)
    (givesUp : (parseArgs room line nargs argv).tooManyArgs = true) {i : Nat}
    (behind : nargs + room ≤ i) : (parseArgs room line nargs argv).argv i = argv i := by
  induction room generalizing line nargs argv with
  | zero => rfl
  | succ room ih =>
      rcases parseArgs_succ room line nargs argv with
        ⟨-, result⟩ | ⟨word, rest, -, ⟨-, result⟩ | result⟩
      · rw [result] at givesUp
        exact absurd givesUp Bool.false_ne_true
      · rw [result] at givesUp
        exact absurd givesUp Bool.false_ne_true
      · rw [result] at givesUp ⊢
        rw [ih rest (nargs + 1) _ givesUp (by omega)]
        exact Function.update_of_ne (by omega) _ _

/-- `argc` is the number of words, at most eight. -/
theorem cliSimpleParseLine_nargs (line : List Char) (argv : Argv) :
    (cliSimpleParseLine line argv).nargs = min 8 (words line).length := by
  rw [cliSimpleParseLine, parseArgs_nargs, Nat.zero_add]

/-- `argv[i]` is the word number `i`. -/
theorem cliSimpleParseLine_word (line : List Char) (argv : Argv) {i : Nat} {word : List Char}
    (fits : i < 8) (found : (words line)[i]? = some word) :
    (cliSimpleParseLine line argv).argv i = .word word := by
  rw [cliSimpleParseLine, ← parseArgs_word 8 line 0 argv fits found, Nat.zero_add]

/-! ### The separator scan -/

/-- The scan for the end of a piece, from a character on whose predecessor is `previous`: the piece
and, after a separator, what follows it. -/
def scanSeparator (previous : Char) (start inquotes : Bool) :
    List Char → List Char × Option (List Char)
  | [] => ([], none)
  | c :: rest =>
      let inquotes := if c = '\x27' ∧ previous ≠ '\\' then !inquotes else inquotes
      if inquotes = false ∧ c = ';' ∧ start = false ∧ previous ≠ '\\' then
        ([], some rest)
      else
        let scanned := scanSeparator c false inquotes rest
        (c :: scanned.1, scanned.2)

/-- The scan takes a line apart. -/
theorem scanSeparator_whole {previous : Char} {start inquotes : Bool} {str piece : List Char}
    {remainder : Option (List Char)}
    (scanned : scanSeparator previous start inquotes str = (piece, remainder)) :
    str = piece ++ remainder.elim [] (';' :: ·) := by
  induction str generalizing previous start inquotes piece with
  | nil =>
      obtain ⟨rfl, rfl⟩ := Prod.mk.inj scanned
      rfl
  | cons c str ih =>
      rw [scanSeparator] at scanned
      dsimp only at scanned
      generalize (if c = '\x27' ∧ previous ≠ '\\' then !inquotes else inquotes) = quoted at scanned
      split at scanned
      · next stops =>
          obtain ⟨rfl, rfl⟩ := Prod.mk.inj scanned
          rw [stops.2.1]
          rfl
      · obtain ⟨rfl, same⟩ := Prod.mk.inj scanned
        exact congrArg (c :: ·) (ih (Prod.ext rfl same))

theorem scanSeparator_rest {previous : Char} {start inquotes : Bool} {str piece rest : List Char}
    (scanned : scanSeparator previous start inquotes str = (piece, some rest)) :
    rest.length < str.length := by
  rw [scanSeparator_whole scanned, List.length_append]
  exact Nat.lt_of_lt_of_le (Nat.lt_succ_self _) (Nat.le_add_left _ _)

/-- The pieces of a line, in order; the byte before a later piece is the NUL that replaced its
separator. -/
def pieces (previous : Char) (str : List Char) : List (List Char) :=
  if str = [] then [] else
    match _scanned : scanSeparator previous true false str with
    | (piece, none) => [piece]
    | (piece, some rest) => piece :: pieces '\x00' rest
termination_by str.length
decreasing_by exact scanSeparator_rest _scanned

section Pieces

variable {previous : Char} {str token : List Char} (more : str ≠ [])
include more

/-- The last piece of a line. -/
theorem pieces_last (scanned : scanSeparator previous true false str = (token, none)) :
    pieces previous str = [token] := by
  rw [pieces, if_neg more]
  split
  · next last =>
      obtain ⟨rfl, -⟩ := Prod.mk.inj (scanned.symm.trans last)
      rfl
  · next later => exact absurd (scanned.symm.trans later) (by simp)

/-- A piece and the rest of the line. -/
theorem pieces_more {rest : List Char}
    (scanned : scanSeparator previous true false str = (token, some rest)) :
    pieces previous str = token :: pieces '\x00' rest := by
  rw [pieces, if_neg more]
  split
  · next last => exact absurd (scanned.symm.trans last) (by simp)
  · next later =>
      obtain ⟨rfl, same⟩ := Prod.mk.inj (scanned.symm.trans later)
      rw [Option.some.inj same]

end Pieces

end K210Guard
