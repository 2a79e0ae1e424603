/-
**The loop of the command line** (`cli_simple_loop`, `cli_readline`, `cli/cli.c`).

A turn reads a line and runs it; the commands it calls are carried out by the command functions.
What arrives during a turn is part of its input: the bytes that `cli_readline` takes, and the
receiver behind them, which the commands poll.

* `Typed.line` — the line that the bytes make.
* `CliLoop.turn_keeps` — what the commands of this line leave alone, the turn leaves alone.
-/

import K210Guard.Cli.Console
import K210Guard.Cli.RunCommand
import K210Guard.Cli.Screen
import K210Guard.Interaction.Linking
import K210Guard.Printf.ReadBack

namespace K210Guard

/-! ### The code -/

/-- The calls through the command table, carried out by the command functions. -/
def linked {α : Type} (program : CliProgram α) : CmdProgram α :=
  program.interpret fun
    | .call array cmdtp argc argv => cmdtp.cmd.run array argc argv
    | .cmd op => CmdOp.issue op

def cliReadline (prompt : Option (List Byte)) (consoleBuffer : Int → Byte) (input : List Byte) :
    Option (Int × Readline) :=
  cliReadlineIntoBuffer prompt (Function.update consoleBuffer 0 0) input

/-- `strlcpy(dst, src, size)`: the string that `dst` is left with. -/
def strlcpy (src : Int → Byte) (size : Nat) : List Byte :=
  ((List.range (size - 1)).map fun i : Nat => src i).takeWhile (· ≠ 0)

/-- `CONFIG_SYS_PROMPT` -/
def sysPrompt : List Byte := formatBytes "=> "

/-- What calls print one after the other. -/
def emitted (calls : List Print) : Option (List Byte) := (calls.mapM Print.emits).map List.flatten

/-- The terminal and the static variables between two turns. -/
structure CliLoop where
  console : Console
  array : CmdArray
  consoleBuffer : Int → Byte
  lastcommand : List Byte

/-- What arrives in a turn: the bytes that are read as a line, and the receiver behind them. The
byte below `cmdbuf` on the stack may be any. -/
structure Typed where
  bytes : List Byte
  uart : Uart
  below : Char

namespace CliLoop

variable (download : Download)

/-- A turn of `cli_simple_loop`, and whether it comes to its end. -/
def turn (s : CliLoop) (typed : Typed) : CliLoop × Bool :=
  match cliReadline (some sysPrompt) s.consoleBuffer typed.bytes with
  | none => (s, false)
  | some (len, line) =>
      let console : Console :=
        { world := { s.console.world with uart := typed.uart }
          printed := do pure ((← s.console.printed) ++ (← emitted line.prints)) }
      let lastcommand := if len > 0 then strlcpy line.buffer (cbSize + 1) else s.lastcommand
      if len = -1 then
        let done := console.run download (printk "<INTERRUPT>\n" [])
        (⟨done.2, s.array, line.buffer, lastcommand⟩, true)
      else if len > 0 then
        let done := console.run download
          (linked (cliSimpleRunCommand typed.below s.array (lastcommand.map Printf.charOf)))
        (⟨done.2, (done.1.map Prod.snd).getD s.array, line.buffer, lastcommand⟩, done.1.isSome)
      else
        (⟨console, s.array, line.buffer, lastcommand⟩, true)

/-- Turn after turn, as long as they come to their end. -/
def run (s : CliLoop) : List Typed → CliLoop
  | [] => s
  | typed :: later =>
      if (s.turn download typed).2 then run (s.turn download typed).1 later
      else (s.turn download typed).1

end CliLoop

/-! ### The line of a turn -/

/-- Neither Enter nor Ctrl-C. -/
def goesOn (c : Byte) : Bool := c ≠ 0x0D && c ≠ 0x0A && c ≠ 0x03

/-- The line that is run: what was typed up to Enter, edited. -/
def Typed.line (typed : Typed) : List Char :=
  match typed.bytes.dropWhile goesOn with
  | [] => []
  | c :: _ => if c = 0x03 then [] else
      ((typed.bytes.takeWhile goesOn).foldl editStep []).map Printf.charOf

/-- A C string that fits. -/
theorem strlcpy_eq {src : Int → Byte} {text : List Byte} {size : Nat}
    (chars : ∀ (i : Nat) (inside : i < text.length), src i = text[i])
    (notNul : ∀ c ∈ text, c ≠ 0) (terminated : src text.length = 0)
    (fits : text.length < size - 1) : strlcpy src size = text := by
  have split : size - 1 = text.length + ((size - 1 - text.length - 1) + 1) := by omega
  have first : (List.range text.length).map (fun i : Nat => src i) = text :=
    List.ext_getElem (by simp) fun i _ inside => by simp [chars i inside]
  rw [strlcpy, split, List.range_add, List.map_append, first,
    List.takeWhile_append_of_pos (by simpa using notNul), List.range_succ_eq_map]
  simp [terminated]

/-- The text held, ended with a NUL, is what is copied. -/
theorem Readline.Holds.strlcpy_ended {s : Readline} {plen : Int} {text : List Byte}
    (holds : s.Holds plen text) : strlcpy (s.store s.p 0).buffer (cbSize + 1) = text := by
  have short := holds.short
  refine strlcpy_eq (fun i inside => ?_) ?_ ?_ ?_
  · rw [← holds.buffer i inside]
    refine Function.update_of_ne ?_ _ _
    rw [holds.p]
    omega
  · rintro c member rfl
    exact Bool.false_ne_true
      ((isprint_editing 0x00 (by simp)).symm.trans (holds.printable 0x00 member))
  · rw [← holds.p]
    exact Function.update_self _ _ _
  · simp only [cbSize]
    omega

/-- What `cli_readline` returns: -1, or the length of the line, which is then in the buffer. -/
theorem cliReadline_cases {buffer : Int → Byte} {typed : Typed} {len : Int} {line : Readline}
    (reads : cliReadline (some sysPrompt) buffer typed.bytes = some (len, line)) :
    len = -1 ∨ len = typed.line.length ∧
      (strlcpy line.buffer (cbSize + 1)).map Printf.charOf = typed.line := by
  have before : ∀ c ∈ typed.bytes.takeWhile goesOn, c ≠ 0x0D ∧ c ≠ 0x0A ∧ c ≠ 0x03 := by
    intro c member
    simpa [goesOn, and_assoc] using List.mem_takeWhile_imp member
  have holds := (Readline.holds_start (some sysPrompt) (Function.update buffer 0 0)).foldl
    (typed.bytes.takeWhile goesOn)
  rw [cliReadline, cliReadlineIntoBuffer, ← List.takeWhile_append_dropWhile (p := goesOn)
    (l := typed.bytes), Readline.loop_append _ _ before] at reads
  rw [Typed.line]
  cases rest : typed.bytes.dropWhile goesOn with
  | nil =>
      rw [rest] at reads
      exact absurd reads (by simp [Readline.loop])
  | cons c later =>
      have stops : goesOn c = false := by
        have first := List.head?_dropWhile_not goesOn typed.bytes
        simpa [rest] using first
      rw [rest, Readline.loop] at reads
      by_cases isBreak : c = 0x03
      · rw [if_neg (by rw [isBreak]; decide), if_pos isBreak] at reads
        exact Or.inl (congrArg Prod.fst (Option.some.inj reads)).symm
      · have isEnter : c = 0x0D ∨ c = 0x0A := by
          by_contra neither
          simp only [goesOn, ne_eq, Bool.and_eq_false_iff, decide_eq_false_iff_not,
            not_not] at stops
          tauto
        rw [if_pos isEnter] at reads
        obtain ⟨rfl, rfl⟩ := Prod.mk.inj (Option.some.inj reads)
        dsimp only
        rw [if_neg isBreak]
        refine Or.inr ⟨?_, congrArg _ holds.strlcpy_ended⟩
        rw [List.length_map]
        exact holds.p

/-! ### What a turn leaves alone -/

section Keeps

variable {download : Download} {γ : Type} {view : Console → γ}

/-- **A turn leaves alone what the commands of its line leave alone**, if it cannot be seen in the
receiver or on the terminal. -/
theorem CliLoop.turn_keeps {typed : Typed}
    (blind : ∀ console uart printed,
      view ⟨{ console.world with uart := uart }, printed⟩ = view console)
    (keeps : typed.line ≠ [] → ∀ array, Prog.Keeps (Console.step download) view
      (linked (cliSimpleRunCommand typed.below array typed.line))) (s : CliLoop) :
    view (s.turn download typed).1.console = view s.console := by
  rw [turn]
  cases reads : cliReadline (some sysPrompt) s.consoleBuffer typed.bytes with
  | none => rfl
  | some read =>
      obtain ⟨len, line⟩ := read
      dsimp only
      split
      · exact blind _ _ _
      · next notBreak =>
          obtain ⟨long, copied⟩ := (cliReadline_cases reads).resolve_left notBreak
          split
          · next some' =>
              rw [copied]
              have more : typed.line ≠ [] := by
                intro none
                rw [none] at long
                simp only [List.length_nil] at long
                omega
              exact (keeps more s.array _).trans (blind _ _ _)
          · exact blind _ _ _

/-- **The same for any number of turns.** -/
theorem CliLoop.run_keeps {turns : List Typed}
    (blind : ∀ console uart printed,
      view ⟨{ console.world with uart := uart }, printed⟩ = view console)
    (keeps : ∀ typed ∈ turns, typed.line ≠ [] → ∀ array, Prog.Keeps (Console.step download) view
      (linked (cliSimpleRunCommand typed.below array typed.line))) (s : CliLoop) :
    view (s.run download turns).console = view s.console := by
  induction turns generalizing s with
  | nil => rfl
  | cons typed later ih =>
      have first := s.turn_keeps blind (keeps typed List.mem_cons_self)
      rw [run]
      split
      · exact (ih (fun other member => keeps other (List.mem_cons_of_mem _ member)) _).trans first
      · exact first

end Keeps

end K210Guard
