/-
**What a session leaves alone** (`cli/cli.c`, `cli/command.c`).

* `runPieces_sparing`, `line_spares` — a line leaves alone what none of its pieces reaches.
* `session_confined` — the same for whole sessions.
-/

import K210Guard.Cli.Footprint
import K210Guard.Cli.Loop

namespace K210Guard

/-! ### Pieces and lines -/

/-- `argv` of a piece with these words, before anything stood in it. -/
def argvOf (words : List (List Char)) : Argv := fun i => words[i]?.elim .null .word

theorem Argv.Spells.word {argv : Argv} {i n : Nat} (spells : argv.Spells i n) :
    ∃ text, argv i = .word text := spells.imp fun _ present => present.1

/-- An argument that a command comes to is a word of the piece. -/
theorem spells_of_parsed {token : List Char} {argv : Argv} {i n : Nat}
    (few : (words token).length < 8)
    (before : ∀ j < i, ∃ text, (cliSimpleParseLine token argv).argv j = .word text)
    (spells : (cliSimpleParseLine token argv).argv.Spells i n) :
    (argvOf (words token)).Spells i n := by
  obtain ⟨text, here, value⟩ := spells
  have inside : i < (words token).length := by
    by_contra behind
    have complete : (cliSimpleParseLine token argv).tooManyArgs = false := by
      rw [Bool.eq_false_iff, ne_eq, cliSimpleParseLine, parseArgs_tooManyArgs]
      omega
    have null := parseArgs_null 8 token 0 argv complete
    rw [← cliSimpleParseLine, cliSimpleParseLine_nargs, Nat.min_eq_right few.le] at null
    rcases Nat.lt_or_eq_of_le (Nat.le_of_not_lt behind) with earlier | same
    · obtain ⟨other, word⟩ := before _ earlier
      exact absurd (null.symm.trans word) (by simp)
    · rw [same] at null
      exact absurd (null.symm.trans here) (by simp)
  have word := cliSimpleParseLine_word token argv (by omega) (List.getElem?_eq_getElem inside)
  refine ⟨text, ?_, value⟩
  rw [argvOf, List.getElem?_eq_getElem inside]
  exact word.symm.trans here

/-- A piece that has a command reach something. -/
def PieceReaches (reaches : Handler → Argv → Prop) (token : List Char) : Prop :=
  ∃ word arguments cmdtp, words token = word :: arguments ∧
    findCmdTbl word cmdInit = some cmdtp ∧ reaches cmdtp.cmd (argvOf (words token))

/-- Every command has room for fewer arguments than the splitter hands out. -/
theorem maxargs_lt {cmdtp : CmdTbl} (member : cmdtp ∈ cmdInit) : cmdtp.maxargs < 8 := by
  revert cmdtp
  decide

section Pieces

variable {γ : Type} {download : Download} {view : World → γ}

/-- Calls and prints that leave a view alone. -/
def Sparing (download : Download) (view : World → γ) : CliOp → Prop
  | .call array cmdtp argc argv => Spares download view (cmdtp.cmd.run array argc argv)
  | .cmd op => Spares download view (CmdOp.issue op)

theorem inCli_printk_sparing (format : String) (values : List PrintArg) :
    (inCli (printk format values)).Issues (Sparing download view) :=
  Prog.Issues.bind (.perform (printk_spares format values)) fun _ => .pure _

theorem inCli_usage_sparing (cmdtp : CmdTbl) :
    (inCli (cmdUsage cmdtp)).Issues (Sparing download view) := by
  refine .ask (CliOp.cmd (.printk "%s - %s\n\n" _)) _ (printk_spares _ _) fun _ => ?_
  exact .pure 1

theorem cmdProcess_sparing {array : CmdArray} {argc : Nat} {argv : Argv} {cmd : List Char}
    (first : argv 0 = .word cmd)
    (spares : ∀ cmdtp, findCmdTbl cmd cmdInit = some cmdtp → argc ≤ cmdtp.maxargs →
      Spares download view (cmdtp.cmd.run array argc argv)) :
    (cmdProcess array argc argv).Issues (Sparing download view) := by
  unfold cmdProcess
  rw [first]
  dsimp only
  rw [array.find_eq]
  cases found : findCmdTbl cmd cmdInit with
  | none => exact (inCli_printk_sparing _ _).bind fun _ => .pure _
  | some cmdtp =>
      have after : ∀ called : Int × CmdArray,
          (if called.1 = -1 then do
              let rc ← inCli (cmdUsage cmdtp)
              pure ((rc : Int), called.2)
            else pure called : CliProgram (Int × CmdArray)).Issues (Sparing download view) := by
        intro called
        split
        · exact (inCli_usage_sparing cmdtp).bind fun _ => .pure _
        · exact .pure _
      dsimp only
      split
      · exact Prog.Issues.bind (.pure _) after
      · next fits =>
          refine Prog.Issues.bind ?_ after
          refine Prog.Issues.bind (.perform (spares cmdtp found (by omega))) fun called => ?_
          split
          · exact (inCli_printk_sparing _ _).bind fun _ => .pure _
          · exact .pure _

variable {reaches : Handler → Argv → Prop}

/-- A view of the machine, with the commands that may be seen in it: `reaches` depends on the
arguments up to the first one that is missing. -/
structure Footprint (download : Download) (view : World → γ) (reaches : Handler → Argv → Prop) :
    Prop where
  spares : ∀ {handler argv}, ¬ reaches handler argv →
    ∀ array argc, Spares download view (handler.run array argc argv)
  parsed : ∀ {handler token argv}, (words token).length < 8 →
    (∃ text, (cliSimpleParseLine token argv).argv 0 = .word text) →
      reaches handler (cliSimpleParseLine token argv).argv → reaches handler (argvOf (words token))
  unseen : ∀ (world : World) uart, view { world with uart := uart } = view world

variable (footprint : Footprint download view reaches)
include footprint

theorem runPiece_sparing {token : List Char} (outside : ¬ PieceReaches reaches token)
    (array : CmdArray) (argv : Argv) (rc : Int) :
    (runPiece array token argv rc).Issues (Sparing download view) := by
  have dispatched :
      (dispatchPiece array (cliSimpleParseLine token argv) rc).Issues (Sparing download view) := by
    have count := cliSimpleParseLine_nargs token argv
    unfold dispatchPiece
    split
    · exact .pure _
    · next some' =>
        cases found : words token with
        | nil => exact absurd (by rw [count, found]; rfl) some'
        | cons word arguments =>
            have first := cliSimpleParseLine_word token argv (show 0 < 8 by omega)
              (show (words token)[0]? = some word by rw [found]; rfl)
            refine Prog.Issues.bind (cmdProcess_sparing first ?_) fun _ => .pure _
            intro cmdtp known fits
            refine footprint.spares (fun reached => outside ?_) array _
            have most := maxargs_lt (findCmdTbl_mem known)
            exact ⟨word, arguments, cmdtp, found, known,
              footprint.parsed (by omega) ⟨word, first⟩ reached⟩
  unfold runPiece
  dsimp only
  split
  · exact (inCli_printk_sparing _ _).bind fun _ => dispatched
  · exact dispatched

theorem runPieces_sparing {previous : Char} {str : List Char}
    (outside : ∀ token ∈ pieces previous str, ¬ PieceReaches reaches token) (array : CmdArray)
    (argv : Argv) (rc : Int) :
    (runPieces previous str array argv rc).Issues (Sparing download view) := by
  induction previous, str using pieces.induct generalizing array argv rc with
  | case1 previous =>
      rw [runPieces, if_pos rfl]
      exact .pure _
  | case2 previous str more token scanned =>
      rw [pieces_last more scanned] at outside
      rw [runPieces_last more scanned]
      exact (runPiece_sparing footprint (outside token (by simp)) _ _ _).bind fun _ => .pure _
  | case3 previous str more token rest scanned ih =>
      rw [pieces_more more scanned] at outside
      rw [runPieces_more more scanned]
      exact (runPiece_sparing footprint (outside token (by simp)) _ _ _).bind fun _ =>
        ih (fun other member => outside other (by simp [member])) _ _ _

/-- **A line** none of whose pieces reaches something leaves it alone. -/
theorem line_spares {below : Char} {cmd : List Char}
    (outside : ∀ token ∈ pieces below cmd, ¬ PieceReaches reaches token) (array : CmdArray) :
    Spares download view (linked (cliSimpleRunCommand below array cmd)) := by
  have asks : (cliSimpleRunCommand below array cmd).Issues (Sparing download view) := by
    unfold cliSimpleRunCommand
    split
    · exact .pure _
    · split
      · exact (inCli_printk_sparing _ _).bind fun _ => .pure _
      · exact runPieces_sparing footprint outside _ _ _
  refine Prog.Keeps.interpret (fun op spares => ?_) asks
  cases op with
  | call array cmdtp argc argv => exact spares
  | cmd op => exact spares

/-- **A session** none of whose pieces reaches something leaves it alone. -/
theorem session_spares {turns : List Typed}
    (outside : ∀ typed ∈ turns, ∀ token ∈ pieces typed.below typed.line,
      ¬ PieceReaches reaches token) (s : CliLoop) :
    view (s.run download turns).console.world = view s.console.world :=
  have kept : (fun console : Console => view console.world) (s.run download turns).console =
      view s.console.world :=
    CliLoop.run_keeps (fun console uart _ => footprint.unseen console.world uart)
      (fun typed member _ array => line_spares footprint (outside typed member) array) s
  kept

end Pieces

/-! ### Sessions -/

section Sessions

variable (download : Download)

theorem footprint_cell (x : Nat) :
    Footprint download (fun world => world.chip.cells x) (·.ReachesCell · x) where
  spares := Handler.cell_spares
  parsed := by
    rintro handler token argv few zeroth ⟨writes, offset, length, first, second, range⟩
    have one := first.word
    refine ⟨writes, offset, length, spells_of_parsed few (fun j below => ?_) first,
      spells_of_parsed few (fun j below => ?_) second, range⟩
    all_goals interval_cases j <;> assumption
  unseen _ _ := rfl

theorem footprint_byte (y : Nat) :
    Footprint download (fun world => world.ram y) (·.ReachesByte · y) where
  spares := Handler.byte_spares
  parsed := by
    rintro handler token argv few zeroth
      (loads | ⟨reads, offset, length, ramaddr, first, second, third, range⟩)
    · exact Or.inl loads
    have one := first.word
    have two := second.word
    refine Or.inr ⟨reads, offset, length, ramaddr, spells_of_parsed few (fun j below => ?_) first,
      spells_of_parsed few (fun j below => ?_) second,
      spells_of_parsed few (fun j below => ?_) third, range⟩
    all_goals interval_cases j <;> assumption
  unseen _ _ := rfl

theorem footprint_gate : Footprint download World.otpKeyOutput fun _ _ => False where
  spares _ array argc := Handler.gate_spares _ array argc _
  parsed _ _ reached := reached.elim
  unseen _ _ := rfl

/-- **What a session leaves alone**, whatever is typed and whatever a download does: the gate of
the keys always, a cell of the flash and a byte of the RAM unless a piece of a line names a command
that reaches it. -/
theorem session_confined (s : CliLoop) (turns : List Typed) :
    (s.run download turns).console.world.otpKeyOutput = s.console.world.otpKeyOutput ∧
    (∀ x, (∀ typed ∈ turns, ∀ token ∈ pieces typed.below typed.line,
        ¬ PieceReaches (·.ReachesCell · x) token) →
      (s.run download turns).console.world.chip.cells x = s.console.world.chip.cells x) ∧
    ∀ y, (∀ typed ∈ turns, ∀ token ∈ pieces typed.below typed.line,
        ¬ PieceReaches (·.ReachesByte · y) token) →
      (s.run download turns).console.world.ram y = s.console.world.ram y := by
  refine ⟨?_, fun x outside => ?_, fun y outside => ?_⟩
  · refine session_spares (footprint_gate download) ?_ s
    rintro typed - token - ⟨word, arguments, cmdtp, -, -, reached⟩
    exact reached
  · exact session_spares (footprint_cell download x) outside s
  · exact session_spares (footprint_byte download y) outside s

end Sessions

/-- A terminal on which `flerase 10000 1000` is typed. -/
def eraseTyped : Typed := ⟨formatBytes "flerase 10000 1000\n", ⟨fun _ => none, 0⟩, ' '⟩

theorem eraseTyped_line : eraseTyped.line =
    ['f', 'l', 'e', 'r', 'a', 's', 'e'] ++ ' ' ::
      (['1', '0', '0', '0', '0'] ++ ' ' :: ['1', '0', '0', '0']) := by decide +kernel

theorem words_eraseTyped :
    words eraseTyped.line =
      [['f', 'l', 'e', 'r', 'a', 's', 'e'], ['1', '0', '0', '0', '0'], ['1', '0', '0', '0']] := by
  have last : words ['1', '0', '0', '0'] = [['1', '0', '0', '0']] :=
    words_run (by simp [isblank]) (by simp)
  rw [eraseTyped_line, ← last, words_run_blank (by simp [isblank]) (by simp) rfl,
    words_run_blank (by simp [isblank]) (by simp) rfl]

theorem pieces_eraseTyped : pieces ' ' eraseTyped.line = [eraseTyped.line] :=
  pieces_last (by rw [eraseTyped_line]; exact List.cons_ne_nil _ _)
    (by rw [eraseTyped_line]; decide +kernel)

/-- It leaves the cell below its sector alone. -/
theorem session_confined_flerase :
    (CliLoop.run (fun _ world => (-1, world.ram, world.uart))
      ⟨⟨World.powerOn u8, some []⟩, .init, fun _ => 0, []⟩ [eraseTyped]).console.world.chip.cells
        0xFFFF = u8 0xFFFF := by
  refine (session_confined _ _ _).2.1 0xFFFF ?_
  rintro typed member token piece
    ⟨word, arguments, cmdtp, -, -, -, offset, length, first, second, -, -, range⟩
  obtain rfl := List.mem_singleton.mp member
  rw [show eraseTyped.below = ' ' from rfl, pieces_eraseTyped, List.mem_singleton] at piece
  obtain ⟨text, here, rfl⟩ := first
  obtain ⟨other, there, rfl⟩ := second
  rw [piece, words_eraseTyped] at here there
  obtain rfl : ['1', '0', '0', '0', '0'] = text := ArgSlot.word.inj here
  obtain rfl : ['1', '0', '0', '0'] = other := ArgSlot.word.inj there
  exact absurd (range (by decide +kernel)).1 (by decide +kernel)

end K210Guard
