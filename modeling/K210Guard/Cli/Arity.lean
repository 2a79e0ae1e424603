/-
**Commands and the arguments they got.**

A command function is called with `argc` and an `argv` whose slots from `argc` on hold NULL, what
an earlier piece has left, or nothing. `cmd_process` only checks that `argc` is not larger than
`maxargs`; no command function checks that it is large enough.

* `command_reads_iff` — a command function reads only `argv[0 .. argc)` if and only if `argc`
  reaches the number of slots it needs.
* `arguments_iff` — exactly the lines all of whose known commands come with as many words as their
  `maxargs` (`help` apart) keep every read below `argc`.
* `erase_reads_null` — `flerase` alone reads the NULL after the last argument.
-/

import K210Guard.Cli.RunCommand

namespace K210Guard

/-! ### What a command function reads -/

/-- Of the slots of `argv`, only those before `argc` are read. -/
def ReadsBelow (argc : Nat) : CmdOp → Prop
  | .argv i => i < argc
  | _ => True

/-- How many slots of `argv` a command function reads. -/
def Handler.needs : Handler → Nat
  | .help | .reset => 1
  | .loadb => 2
  | .fldump | .flerase | .crc16 | .md => 3
  | .flread | .flwrite => 4

section Reads

variable {argc : Nat} {argv : Argv} {α : Type}

theorem onBus_reads (program : Firmware α) : (onBus program).Issues (ReadsBelow argc) := by
  refine Prog.Issues.interpret (fun op => ?_) program
  exact .perform trivial

theorem printk_reads (format : String) (values : List PrintArg) :
    (printk format values).Issues (ReadsBelow argc) := .perform trivial

theorem printValues_reads {fetch : Nat → CmdProgram (List Byte)} {width : Nat}
    (fetches : ∀ offset, (fetch offset).Issues (ReadsBelow argc)) (i thislinelen : Nat) :
    (printValues fetch width i thislinelen).Issues (ReadsBelow argc) := by
  induction thislinelen generalizing i with
  | zero => exact .pure _
  | succ thislinelen ih =>
      refine (fetches _).bind fun bytes => ?_
      exact (printk_reads _ _).bind fun _ => (ih _).bind fun _ => .pure _

theorem printBlanks_reads (count : Nat) : (printBlanks count).Issues (ReadsBelow argc) := by
  induction count with
  | zero => exact .pure _
  | succ count ih => exact (printk_reads _ _).bind fun _ => ih

theorem printLines_reads {fetch : Nat → CmdProgram (List Byte)} {width linelen : Nat}
    (fetches : ∀ offset, (fetch offset).Issues (ReadsBelow argc)) (addr i count : Nat) :
    (printLines fetch width linelen addr i count).Issues (ReadsBelow argc) := by
  induction count using Nat.strong_induction_on generalizing addr i with
  | _ count ih =>
      rw [printLines]
      split
      · exact .pure _
      split
      · exact .spin
      refine (printk_reads _ _).bind fun _ => ?_
      refine (printValues_reads fetches _ _).bind fun bytes => ?_
      refine (printBlanks_reads _).bind fun _ => (printk_reads _ _).bind fun _ => ?_
      refine (onBus_reads _).bind fun interrupted => ?_
      split
      · exact .pure _
      · exact ih _ (by split <;> omega) _ _

theorem printBuffer_reads {fetch : Nat → CmdProgram (List Byte)}
    (fetches : ∀ offset, (fetch offset).Issues (ReadsBelow argc)) (addr width count linelen : Nat) :
    (printBuffer addr fetch width count linelen).Issues (ReadsBelow argc) :=
  printLines_reads fetches _ _ _

theorem dumpLines_reads (offset i length : Nat) :
    (dumpLines offset i length).Issues (ReadsBelow argc) := by
  induction length using Nat.strong_induction_on generalizing i with
  | _ length ih =>
      rw [dumpLines]
      split
      · exact .pure _
      refine (onBus_reads _).bind fun buf => ?_
      refine (printBuffer_reads (fun offset => .pure _) _ _ _ _).bind fun _ => ?_
      exact ih _ (by omega) _

theorem crc16_reads (inputStr numBytes : Nat) :
    (crc16 inputStr numBytes).Issues (ReadsBelow argc) := by
  unfold crc16
  split
  · exact .pure _
  · exact (onBus_reads _).bind fun _ => .pure _

theorem printShortHelp_reads (entries : List CmdTbl) :
    (printShortHelp entries).Issues (ReadsBelow argc) := by
  induction entries with
  | nil => exact .pure _
  | cons entry entries ih => exact (printk_reads _ _).bind fun _ => ih

theorem printLongHelp_reads (array : CmdArray) (argv : Argv) (i remaining : Nat) (rcode : Nat)
    (within : i + remaining ≤ argc) :
    (printLongHelp array argv i remaining rcode).Issues (ReadsBelow argc) := by
  induction remaining generalizing i rcode with
  | zero => exact .pure _
  | succ remaining ih =>
      have below : i < argc := by omega
      rw [printLongHelp]
      refine Prog.Issues.bind (.perform below) fun _ => ?_
      split
      · split
        · refine ((printk_reads _ _).bind fun _ => .pure _).bind fun rc => ih _ _ (by omega)
        · exact (printk_reads _ _).bind fun _ => ih _ _ (by omega)
      · exact .spin

/-- One argument, then the rest. -/
theorem argument_bind_iff (filled : ∀ i < argc, ∃ text, argv i = .word text) {i more : Nat}
    {rest : Nat → CmdProgram α}
    (reads : ∀ value, (rest value).Issues (ReadsBelow argc) ↔ more ≤ argc) :
    (argument argv i >>= rest).Issues (ReadsBelow argc) ↔ max (i + 1) more ≤ argc := by
  rw [Prog.issues_bind_iff, argument, Prog.issues_perform_bind_iff, Nat.max_le]
  constructor
  · rintro ⟨⟨below, -⟩, later⟩
    obtain ⟨text, slot⟩ := filled i below
    have returns : (argument argv i).Returns (simpleStrtoul text 16) := by
      rw [argument, slot]
      exact .ask _ _ () .pure
    exact ⟨below, (reads _).mp (later _ returns)⟩
  · rintro ⟨below, enough⟩
    refine ⟨⟨below, fun _ => ?_⟩, fun value _ => (reads value).mpr enough⟩
    split
    · exact .pure _
    · exact .spin

/-- Nothing more is read. -/
theorem quiet_iff {program : CmdProgram α} (reads : program.Issues (ReadsBelow argc)) :
    program.Issues (ReadsBelow argc) ↔ 0 ≤ argc := ⟨fun _ => Nat.zero_le _, fun _ => reads⟩

theorem keeping_iff (array : CmdArray) (program : CmdProgram Int) :
    (keeping array program).Issues (ReadsBelow argc) ↔ program.Issues (ReadsBelow argc) :=
  Prog.issues_bind_iff.trans ⟨fun asks => asks.1, fun asks => ⟨asks, fun _ _ => .pure _⟩⟩

/-- **A command function reads only the arguments it got if and only if it got as many as it
needs.** -/
theorem command_reads_iff (handler : Handler) (array : CmdArray) (positive : 0 < argc)
    (filled : ∀ i < argc, ∃ text, argv i = .word text) :
    (handler.run array argc argv).Issues (ReadsBelow argc) ↔ handler.needs ≤ argc := by
  cases handler with
  | help =>
      refine iff_of_true ?_ positive
      show (doHelp array argc argv).Issues (ReadsBelow argc)
      unfold doHelp
      split
      · exact (printShortHelp_reads _).bind fun _ => .pure _
      · exact (printLongHelp_reads array argv 1 (argc - 1) 0 (by omega)).bind fun _ => .pure _
  | reset =>
      refine iff_of_true ?_ positive
      refine (keeping_iff array doReset).mpr ?_
      exact Prog.Issues.bind (.perform trivial) fun _ => .pure _
  | loadb =>
      refine (keeping_iff array _).trans (argument_bind_iff filled fun ramaddr => quiet_iff ?_)
      refine (printk_reads _ _).bind fun _ => Prog.Issues.bind (.perform trivial) fun size => ?_
      have report : ∀ (message : CmdProgram Unit) (rcode : Int),
          message.Issues (ReadsBelow argc) → (do
            message
            printk "## Total Size      = 0x%08X = %d Bytes\n" [.int size, .int size]
            let crc ← crc16 ramaddr (size % 2 ^ 64).toNat
            printk "## Caculated CRC16 = 0x%04X\n" [.num crc]
            pure rcode : CmdProgram Int).Issues (ReadsBelow argc) :=
        fun message rcode quiet => quiet.bind fun _ => (printk_reads _ _).bind fun _ =>
          (crc16_reads _ _).bind fun crc => (printk_reads _ _).bind fun _ => .pure _
      dsimp only
      split
      · exact report _ _ (printk_reads _ _)
      · exact report _ _ (printk_reads _ _)
  | fldump =>
      refine (keeping_iff array _).trans (argument_bind_iff filled fun offset =>
        argument_bind_iff filled fun length => quiet_iff ?_)
      refine (onBus_reads _).bind fun _ => (onBus_reads _).bind fun _ => ?_
      exact (dumpLines_reads _ _ _).bind fun _ => (printk_reads _ _).bind fun _ => .pure _
  | flerase =>
      exact (keeping_iff array _).trans (argument_bind_iff filled fun offset =>
        argument_bind_iff filled fun length => quiet_iff (onBus_reads _))
  | crc16 =>
      refine (keeping_iff array _).trans (argument_bind_iff filled fun dataP =>
        argument_bind_iff filled fun length => quiet_iff ?_)
      exact (crc16_reads _ _).bind fun _ => (printk_reads _ _).bind fun _ => .pure _
  | md =>
      refine (keeping_iff array _).trans (argument_bind_iff filled fun dataP =>
        argument_bind_iff filled fun length => argument_bind_iff filled fun addr => quiet_iff ?_)
      exact (printBuffer_reads (fun offset => onBus_reads _) _ _ _ _).bind fun _ => .pure _
  | flread =>
      refine (keeping_iff array _).trans (argument_bind_iff filled fun offset =>
        argument_bind_iff filled fun length => argument_bind_iff filled fun ramaddr => quiet_iff ?_)
      refine (onBus_reads _).bind fun _ => (onBus_reads _).bind fun _ => ?_
      exact (onBus_reads _).bind fun data => (onBus_reads _).bind fun _ => .pure _
  | flwrite =>
      refine (keeping_iff array _).trans (argument_bind_iff filled fun offset =>
        argument_bind_iff filled fun length => argument_bind_iff filled fun ramaddr => quiet_iff ?_)
      refine (onBus_reads _).bind fun erased => ?_
      split
      · exact .pure _
      · exact onBus_reads _

end Reads

/-! ### What a piece calls -/

/-- Every call of a command function reads only the arguments it got. -/
def ArgumentsWithin : CliOp → Prop
  | .call array cmdtp argc argv => (cmdtp.cmd.run array argc argv).Issues (ReadsBelow argc)
  | .cmd _ => True

/-- A piece whose command, if it is known, comes with as many words as its `maxargs`. -/
def Supplied (token : List Char) : Prop :=
  ∀ word arguments cmdtp, words token = word :: arguments →
    findCmdTbl word cmdInit = some cmdtp →
    cmdtp.cmd = .help ∨ cmdtp.maxargs ≤ arguments.length + 1

theorem inCli_within {α : Type} (program : CmdProgram α) :
    (inCli program).Issues ArgumentsWithin := by
  refine Prog.Issues.interpret (fun op => ?_) program
  exact .perform trivial

/-- The usage of a command names all the arguments it needs. -/
theorem needs_eq {cmdtp : CmdTbl} (member : cmdtp ∈ cmdInit) (other : cmdtp.cmd ≠ .help) :
    cmdtp.cmd.needs = cmdtp.maxargs := by
  revert cmdtp
  decide

/-- No command takes more arguments than the splitter hands out. -/
theorem maxargs_le {cmdtp : CmdTbl} (member : cmdtp ∈ cmdInit) : cmdtp.maxargs ≤ 8 := by
  revert cmdtp
  decide

theorem cmdCall_within_iff (array : CmdArray) (cmdtp : CmdTbl) (argc : Nat) (argv : Argv) :
    (cmdCall array cmdtp argc argv).Issues ArgumentsWithin ↔
      (cmdtp.cmd.run array argc argv).Issues (ReadsBelow argc) := by
  refine Prog.issues_perform_bind_iff.trans ⟨fun asks => asks.1, fun within => ⟨within, ?_⟩⟩
  intro called
  split
  · exact (inCli_within _).bind fun _ => .pure _
  · exact .pure _

/-- Only a known command whose `maxargs` suffices is called. -/
theorem cmdProcess_within_iff {array : CmdArray} {argc : Nat} {argv : Argv} {cmd : List Char}
    (first : argv 0 = .word cmd) :
    (cmdProcess array argc argv).Issues ArgumentsWithin ↔
      ∀ cmdtp, findCmdTbl cmd cmdInit = some cmdtp → argc ≤ cmdtp.maxargs →
        (cmdtp.cmd.run array argc argv).Issues (ReadsBelow argc) := by
  have lookup := array.find_eq cmd
  unfold cmdProcess
  rw [first]
  dsimp only
  cases found : findCmdTbl cmd cmdInit with
  | none =>
      rw [lookup.trans found]
      refine iff_of_true ?_ (fun cmdtp absent => absurd absent (by simp))
      exact (inCli_within _).bind fun _ => .pure _
  | some cmdtp =>
      rw [lookup.trans found]
      dsimp only
      have after : ∀ called : Int × CmdArray,
          (if called.1 = -1 then do
              let rc ← inCli (cmdUsage cmdtp)
              pure ((rc : Int), called.2)
            else pure called : CliProgram (Int × CmdArray)).Issues ArgumentsWithin := by
        intro called
        split
        · exact (inCli_within _).bind fun _ => .pure _
        · exact .pure _
      by_cases many : argc > cmdtp.maxargs
      · rw [if_pos many]
        refine iff_of_true (Prog.Issues.bind (.pure _) after) ?_
        intro other same fits
        obtain rfl := Option.some.inj same
        exact absurd fits (by omega)
      · rw [if_neg many, Prog.issues_bind_iff, cmdCall_within_iff]
        constructor
        · rintro ⟨within, -⟩ other same -
          obtain rfl := Option.some.inj same
          exact within
        · intro within
          exact ⟨within cmdtp rfl (by omega), fun called _ => after called⟩

/-- What a piece prints about its words does not matter. -/
theorem runPiece_asks_iff {G : CliOp → Prop} (prints : ∀ op, G (.cmd op)) (array : CmdArray)
    (token : List Char) (argv : Argv) (rc : Int) :
    (runPiece array token argv rc).Issues G ↔
      (dispatchPiece array (cliSimpleParseLine token argv) rc).Issues G := by
  unfold runPiece
  dsimp only
  split
  · exact Prog.issues_perform_bind_iff.trans
      ⟨fun asks => asks.2 (), fun asks => ⟨prints _, fun _ => asks⟩⟩
  · rfl

/-- **A piece keeps its reads below `argc` if and only if its command is supplied.** -/
theorem runPiece_within_iff (array : CmdArray) (token : List Char) (argv : Argv) (rc : Int) :
    (runPiece array token argv rc).Issues ArgumentsWithin ↔ Supplied token := by
  rw [runPiece_asks_iff (fun _ => trivial), dispatchPiece]
  have count := cliSimpleParseLine_nargs token argv
  cases found : words token with
  | nil =>
      rw [found, List.length_nil, Nat.min_zero] at count
      rw [if_pos count]
      refine iff_of_true (.pure _) ?_
      intro word arguments cmdtp some' _
      exact absurd (found.symm.trans some') (by simp)
  | cons word arguments =>
      rw [found, List.length_cons] at count
      have first := cliSimpleParseLine_word token argv (show 0 < 8 by omega)
        (show (words token)[0]? = some word by rw [found]; rfl)
      have filled : ∀ i < (cliSimpleParseLine token argv).nargs,
          ∃ text, (cliSimpleParseLine token argv).argv i = .word text := by
        intro i below
        refine ⟨_, cliSimpleParseLine_word token argv (by omega) (List.getElem?_eq_getElem ?_)⟩
        rw [found, List.length_cons]
        omega
      rw [if_neg (by omega), Prog.issues_bind_iff, cmdProcess_within_iff first]
      have each : ∀ cmdtp, findCmdTbl word cmdInit = some cmdtp →
          (((cliSimpleParseLine token argv).nargs ≤ cmdtp.maxargs →
              (cmdtp.cmd.run array (cliSimpleParseLine token argv).nargs
                (cliSimpleParseLine token argv).argv).Issues
                  (ReadsBelow (cliSimpleParseLine token argv).nargs)) ↔
            (cmdtp.cmd = .help ∨ cmdtp.maxargs ≤ arguments.length + 1)) := by
        intro cmdtp known
        rw [command_reads_iff _ array (by omega) filled]
        have fits := maxargs_le (findCmdTbl_mem known)
        by_cases help : cmdtp.cmd = .help
        · refine iff_of_true (fun _ => ?_) (Or.inl help)
          rw [help]
          show 1 ≤ _
          omega
        · rw [needs_eq (findCmdTbl_mem known) help, or_iff_right help]
          omega
      constructor
      · rintro ⟨within, -⟩ word' arguments' cmdtp same known
        obtain ⟨rfl, rfl⟩ := List.cons.inj (found.symm.trans same)
        exact (each cmdtp known).mp (within cmdtp known)
      · intro supplied
        refine ⟨fun cmdtp known => (each cmdtp known).mpr ?_, fun _ _ => .pure _⟩
        exact supplied word arguments cmdtp found known

/-! ### Whole lines -/

/-- **Exactly the lines whose known commands come with all their arguments keep every read within
`argv[0 .. argc)`**, whatever the commands before have returned. -/
theorem arguments_iff (below : Char) (array : CmdArray) (cmd : List Char) :
    (cliSimpleRunCommand below array cmd).Issues ArgumentsWithin ↔
      64 ≤ cmd.length ∨ ∀ token ∈ pieces below cmd, Supplied token := by
  unfold cliSimpleRunCommand
  split
  · next empty =>
      rw [empty, pieces, if_pos rfl]
      exact iff_of_true (.pure _) (Or.inr fun _ member => absurd member (by simp))
  split
  · next long => exact iff_of_true ((inCli_within _).bind fun _ => .pure _) (Or.inl long)
  · next short =>
      rw [or_iff_right short]
      exact runPieces_issues_iff runPiece_within_iff runPiece_returns _ _ _ _ _

/-- `flerase 0` is called with two arguments and reads `argv[2]`, which is NULL. -/
theorem erase_reads_null :
    ¬(cliSimpleRunCommand ' ' .init
      ['f', 'l', 'e', 'r', 'a', 's', 'e', ' ', '0']).Issues ArgumentsWithin := by
  intro within
  have last : scanSeparator ' ' true false ['f', 'l', 'e', 'r', 'a', 's', 'e', ' ', '0'] =
      (['f', 'l', 'e', 'r', 'a', 's', 'e', ' ', '0'], none) := by decide
  have split : words ['f', 'l', 'e', 'r', 'a', 's', 'e', ' ', '0'] =
      [['f', 'l', 'e', 'r', 'a', 's', 'e'], ['0']] := by
    have digit : words ['0'] = [['0']] := words_run (by simp [isblank]) (by simp)
    rw [← digit]
    exact @words_run_blank ['f', 'l', 'e', 'r', 'a', 's', 'e'] (by simp [isblank]) (by simp) ' ' rfl
      ['0']
  unfold cliSimpleRunCommand at within
  rw [if_neg (by decide), if_neg (by decide), runPieces_last (by decide) last] at within
  have supplied := (runPiece_within_iff _ _ _ _).mp (Prog.issues_bind_iff.mp within).1
  rcases supplied _ _ cmdTblFlerase split (by decide) with help | enough
  · exact absurd help (by decide)
  · exact absurd enough (by decide)

end K210Guard
