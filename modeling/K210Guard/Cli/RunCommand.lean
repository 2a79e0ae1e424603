/-
**Running a command line** (`cmd_call`, `cmd_process` and `cli_simple_run_command`).

The calls through the command table are operations of this layer: a call is answered with the
function's result and the `cmd_array` it leaves, which is in some order. The byte below `cmdbuf` on
the stack, which the separator scan reads when a line begins with a quote, is a parameter.

* `runPieces_issues_iff` — what a line asks is what its pieces ask.
-/

import K210Guard.Cli.Handlers

namespace K210Guard

/-! ### The code -/

inductive CliOp
  /-- A call of a command function. -/
  | call (array : CmdArray) (cmdtp : CmdTbl) (argc : Nat) (argv : Argv)
  | cmd (op : CmdOp)

abbrev CliOp.Answer : CliOp → Type
  | .call .. => Int × CmdArray
  | .cmd op => op.Answer

/-- A program of the command line. -/
abbrev CliProgram (α : Type) := Prog CliOp CliOp.Answer α

/-- A program of one operation. -/
abbrev CliOp.issue (op : CliOp) : CliProgram op.Answer := Prog.perform op

/-- What the command line does itself, as the command functions do it. -/
def inCli {α : Type} (program : CmdProgram α) : CliProgram α :=
  program.interpret fun op => CliOp.issue (.cmd op)

def cmdCall (array : CmdArray) (cmdtp : CmdTbl) (argc : Nat) (argv : Argv) :
    CliProgram (Int × CmdArray) := do
  let called ← CliOp.issue (.call array cmdtp argc argv)
  if called.1 ≠ 0 then
    inCli (printk "## Command failed, result=%d\n" [.int called.1])
  pure called

/-- It is called with at least one argument, so `argv[0]` is a string. -/
def cmdProcess (array : CmdArray) (argc : Nat) (argv : Argv) : CliProgram (Int × CmdArray) :=
  match argv 0 with
  | .word cmd =>
      match array.find cmd with
      | none => do
          inCli (printk "## Unknown command '%s' - try 'help'\n" [.str cmd])
          pure (1, array)
      | some cmdtp => do
          let called ←
            if argc > cmdtp.maxargs then pure (-1, array) else cmdCall array cmdtp argc argv
          if called.1 = -1 then
            let rc ← inCli (cmdUsage cmdtp)
            pure ((rc : Int), called.2)
          else
            pure called
  | _ => .spin

/-- The dispatch of a piece whose words are split off. -/
def dispatchPiece (array : CmdArray) (parsed : ParsedLine) (rc : Int) :
    CliProgram (Int × CmdArray × Argv) :=
  if parsed.nargs = 0 then
    pure (-1, array, parsed.argv)
  else do
    let processed ← cmdProcess array parsed.nargs parsed.argv
    pure (if processed.1 ≠ 0 then -1 else rc, processed.2, parsed.argv)

/-- One piece, whose words go into the `argv` that the earlier pieces have left. -/
def runPiece (array : CmdArray) (token : List Char) (argv : Argv) (rc : Int) :
    CliProgram (Int × CmdArray × Argv) := do
  let parsed := cliSimpleParseLine token argv
  if parsed.tooManyArgs then
    inCli (printk "** Too many args (max. %d) **\n" [.num 8])
  dispatchPiece array parsed rc

/-- The loop of `cli_simple_run_command`. -/
def runPieces (previous : Char) (str : List Char) (array : CmdArray) (argv : Argv) (rc : Int) :
    CliProgram (Int × CmdArray) :=
  if str = [] then pure (rc, array) else
    match _scanned : scanSeparator previous true false str with
    | (token, none) => do
        let ran ← runPiece array token argv rc
        pure (ran.1, ran.2.1)
    | (token, some rest) => do
        let ran ← runPiece array token argv rc
        runPieces '\x00' rest ran.2.1 ran.2.2 ran.1
termination_by str.length
decreasing_by exact scanSeparator_rest _scanned

/-- `below` is the byte at `cmdbuf - 1`; a NULL line does as an empty one. -/
def cliSimpleRunCommand (below : Char) (array : CmdArray) (cmd : List Char) :
    CliProgram (Int × CmdArray) :=
  if cmd = [] then pure (-1, array)
  else if cmd.length ≥ 64 then do
    inCli (printk "## Command too long!\n" [])
    pure (-1, array)
  else
    runPieces below cmd array (fun _ => .unset) 0

/-! ### Every piece can come to an end -/

theorem inCli_printk_returns (format : String) (values : List PrintArg) :
    (inCli (printk format values)).Returns () := .ask _ _ () .pure

theorem cmdProcess_returns (array : CmdArray) (argc : Nat) {argv : Argv} {cmd : List Char}
    (first : argv 0 = .word cmd) : ∃ processed, (cmdProcess array argc argv).Returns processed := by
  unfold cmdProcess
  rw [first]
  dsimp only
  cases array.find cmd with
  | none => exact ⟨(1, array), (inCli_printk_returns _ _).bind .pure⟩
  | some cmdtp =>
      dsimp only
      split
      · exact ⟨(1, array), ((inCli_printk_returns _ _).bind .pure).bind .pure⟩
      · have called : (cmdCall array cmdtp argc argv).Returns (0, array) :=
          .ask _ _ (0, array) .pure
        exact ⟨(0, array), called.bind .pure⟩

theorem runPiece_returns (array : CmdArray) (token : List Char) (argv : Argv) (rc : Int) :
    ∃ ran, (runPiece array token argv rc).Returns ran := by
  have dispatched :
      ∃ ran, (dispatchPiece array (cliSimpleParseLine token argv) rc).Returns ran := by
    unfold dispatchPiece
    split
    · exact ⟨_, .pure⟩
    · next some' =>
        rw [cliSimpleParseLine_nargs] at some'
        have first := cliSimpleParseLine_word token argv (show 0 < 8 by omega)
          (List.getElem?_eq_getElem (show 0 < (words token).length by omega))
        obtain ⟨processed, returns⟩ := cmdProcess_returns array _ first
        exact ⟨_, returns.bind .pure⟩
  obtain ⟨ran, returns⟩ := dispatched
  unfold runPiece
  dsimp only
  split
  · exact ⟨ran, (inCli_printk_returns _ _).bind returns⟩
  · exact ⟨ran, returns⟩

/-! ### What a line asks -/

section Pieces

variable {previous : Char} {str token : List Char} (more : str ≠ [])
include more

/-- The last piece of a line. -/
theorem runPieces_last (scanned : scanSeparator previous true false str = (token, none))
    (array : CmdArray) (argv : Argv) (rc : Int) :
    runPieces previous str array argv rc =
      runPiece array token argv rc >>= fun ran => pure (ran.1, ran.2.1) := by
  rw [runPieces, if_neg more]
  split
  · next last =>
      obtain rfl : token = _ := congrArg Prod.fst (scanned.symm.trans last)
      rfl
  · next later => exact absurd (scanned.symm.trans later) (by simp)

/-- A piece and the rest of the line. -/
theorem runPieces_more {rest : List Char}
    (scanned : scanSeparator previous true false str = (token, some rest))
    (array : CmdArray) (argv : Argv) (rc : Int) :
    runPieces previous str array argv rc =
      runPiece array token argv rc >>= fun ran =>
        runPieces '\x00' rest ran.2.1 ran.2.2 ran.1 := by
  rw [runPieces, if_neg more]
  split
  · next last => exact absurd (scanned.symm.trans last) (by simp)
  · next later =>
      obtain ⟨rfl, same⟩ := Prod.mk.inj (scanned.symm.trans later)
      obtain rfl := Option.some.inj same
      rfl

end Pieces

/-- **A line asks what its pieces ask**, provided that every piece can come to an end. -/
theorem runPieces_issues_iff {G : CliOp → Prop} {P : List Char → Prop}
    (each : ∀ array token argv rc, (runPiece array token argv rc).Issues G ↔ P token)
    (ends : ∀ array token argv rc, ∃ ran, (runPiece array token argv rc).Returns ran)
    (previous : Char) (str : List Char) (array : CmdArray) (argv : Argv) (rc : Int) :
    (runPieces previous str array argv rc).Issues G ↔ ∀ token ∈ pieces previous str, P token := by
  induction previous, str using pieces.induct generalizing array argv rc with
  | case1 previous =>
      rw [runPieces, pieces, if_pos rfl, if_pos rfl]
      exact ⟨fun _ _ member => absurd member (by simp), fun _ => .pure _⟩
  | case2 previous str more token scanned =>
      rw [runPieces_last more scanned, pieces_last more scanned, Prog.issues_bind_iff, each,
        List.forall_mem_singleton]
      exact ⟨fun asks => asks.1, fun holds => ⟨holds, fun ran _ => .pure _⟩⟩
  | case3 previous str more token rest scanned ih =>
      rw [runPieces_more more scanned, pieces_more more scanned, Prog.issues_bind_iff, each,
        List.forall_mem_cons]
      constructor
      · rintro ⟨first, later⟩
        obtain ⟨ran, returns⟩ := ends array token argv rc
        exact ⟨first, (ih _ _ _).mp (later ran returns)⟩
      · rintro ⟨first, later⟩
        exact ⟨first, fun ran _ => (ih _ _ _).mpr later⟩

end K210Guard
