/-
**The terminal of a command** (`cli/command.c`, `bsp/printf.c`).

A command function works the machine and prints; `Console` is the machine with what was printed so
far. `printk` formats with the whole formatter. What a download returns, and leaves in the RAM and
in the receiver, is a parameter.

* `onBus_run`: a program of the drivers runs as on the machine alone, and prints nothing.
* `printk_spell`: a call prints what the pieces of its format mean.
-/

import K210Guard.Printf.Directives
import K210Guard.Cli.Handlers

namespace K210Guard

/-- The machine and its terminal; after a call with a wrong argument nobody knows what was
printed. -/
structure Console where
  world : World
  printed : Option (List Byte)

/-- The bytes of a format. -/
def formatBytes (format : String) : List Byte :=
  format.toList.map fun c => BitVec.ofNat 8 c.toNat

/-- An argument of `printk`, as the formatter takes it. -/
def PrintArg.arg : PrintArg → Printf.Arg
  | .num value => .word (BitVec.ofNat 64 value)
  | .int value => .word (BitVec.ofInt 64 value)
  | .str text => .text (text.map fun c => BitVec.ofNat 8 c.toNat)

/-- The text after a call. Without a flag `#` in the format, `p.base` is not read before a number
sets it; with one, what the stack holds may be printed. -/
def printedAfter (printed : Option (List Byte)) (format : String) (values : List PrintArg) :
    Option (List Byte) := do
  let before ← printed
  let text ← (Printf.tfpFormat 0 (formatBytes format) (values.map PrintArg.arg)).toOption
  if (formatBytes format).contains 0x23 then none else pure (before ++ text)

/-- What a download returns, and leaves in the RAM and in the receiver. -/
abbrev Download := Nat → World → Int × (Nat → Byte) × Uart

/-- What each operation does. A reset ends the run, which the model does not follow. -/
def Console.step (download : Download) (console : Console) : (op : CmdOp) → op.Answer × Console
  | .argv _ => ((), console)
  | .bus op => ((console.world.step op).1, { console with world := (console.world.step op).2 })
  | .printk format values =>
      ((), { console with printed := printedAfter console.printed format values })
  | .loadSerialBin ramaddr =>
      let done := download ramaddr console.world
      (done.1, { console with world := { console.world with ram := done.2.1, uart := done.2.2 } })
  | .sysctlReset => ((), console)

/-- `argv[i]` spells a number. -/
def Argv.Spells (argv : Argv) (i n : Nat) : Prop :=
  ∃ text, argv i = .word text ∧ simpleStrtoul text 16 = n

section Run

variable (download : Download)

/-- Running a program of a command function. -/
abbrev Console.run {α : Type} (console : Console) (program : CmdProgram α) : Option α × Console :=
  Prog.run (Console.step download) program console

/-- **A program of the drivers** runs as on the machine alone, and prints nothing. -/
theorem onBus_run {α : Type} (program : Firmware α) (world : World)
    (printed : Option (List Byte)) :
    Console.run download ⟨world, printed⟩ (onBus program) =
      ((world.run program).1, ⟨(world.run program).2, printed⟩) := by
  induction program generalizing world with
  | pure value => rfl
  | ask op next ih => exact ih _ _
  | spin => rfl

/-- A program of the drivers, then the rest. -/
theorem onBus_bind {α β : Type} {program : Firmware α} {world after : World} {value : α}
    (runs : world.run program = (some value, after)) (printed : Option (List Byte))
    (rest : α → CmdProgram β) :
    Console.run download ⟨world, printed⟩ (onBus program >>= rest) =
      Console.run download ⟨after, printed⟩ (rest value) := by
  refine Prog.run_bind_of_eq (Console.step download) ?_
  have whole := onBus_run download program world printed
  rwa [runs] at whole

/-- Bringing the flash up, then the rest. -/
theorem bringUp_bind {β : Type} (world : World) (printed : Option (List Byte))
    (rest : CmdProgram β) :
    Console.run download ⟨world, printed⟩ (do
      let _ ← onBus (flashInit 1)
      let _ ← onBus flashEnableQuadMode
      rest) = Console.run download ⟨world.broughtUp, printed⟩ rest := by
  refine (onBus_bind download (flashInit_run world) _ _).trans ?_
  refine (onBus_bind download (flashEnableQuadMode_run _ rfl) _ _).trans ?_
  have ignored : World.broughtUp { world with driver := ⟨0, 10, 22, .standard⟩ } =
      world.broughtUp := by
    unfold World.broughtUp
    split <;> rfl
  rw [ignored]

/-- **A call of `printk`** prints what the pieces of its format mean. -/
theorem printk_spell {β : Type} {format : String} {values : List PrintArg}
    {pieces : List Printf.Piece} {text : List Byte} (spelled : formatBytes format =
      Printf.spell pieces) (plain : (formatBytes format).contains 0x23 = false)
    (prints : Printf.print 0 pieces (values.map PrintArg.arg) = some text)
    (world : World) (before : List Byte) (rest : Unit → CmdProgram β) :
    Console.run download ⟨world, some before⟩ (printk format values >>= rest) =
      Console.run download ⟨world, some (before ++ text)⟩ (rest ()) := by
  refine Prog.run_bind_of_eq (Console.step download) ?_
  have formats := Printf.tfpFormat_spell 0 pieces _ text prints
  show (some (), (⟨world, printedAfter (some before) format values⟩ : Console)) = _
  rw [printedAfter, plain, spelled, formats]
  rfl

/-- An argument that is there. -/
theorem argument_bind {β : Type} {argv : Argv} {i : Nat} {text : List Char}
    (present : argv i = .word text) (console : Console) (rest : Nat → CmdProgram β) :
    Console.run download console (argument argv i >>= rest) =
      Console.run download console (rest (simpleStrtoul text 16)) := by
  refine Prog.run_bind_of_eq (Console.step download) ?_
  rw [argument, present]
  rfl

/-- A number that is there. -/
theorem argument_spells {argv : Argv} {β : Type} {i n : Nat} (spells : argv.Spells i n)
    (console : Console) (rest : Nat → CmdProgram β) :
    Console.run download console (argument argv i >>= rest) =
      Console.run download console (rest n) := by
  obtain ⟨text, present, rfl⟩ := spells
  exact argument_bind download present console rest

end Run

end K210Guard
