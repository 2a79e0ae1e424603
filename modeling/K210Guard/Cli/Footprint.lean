/-
**What commands leave alone** (`cli/command.c`).

Two of the commands may change the flash and two the RAM; which cells, their arguments say.

* `Handler.quiet_spares` — the commands that only look.
* `Handler.cell_spares`, `Handler.byte_spares` — the cells and the bytes that a command leaves
  alone.
* `Handler.gate_spares` — no command touches the gate of the keys.
-/

import K210Guard.Cli.Console
import K210Guard.Cli.Flwrite
import K210Guard.Flash.Quiet

namespace K210Guard

open NorFlash (Streams erases)

variable {α : Type}

/-! ### The command functions -/

section Commands

variable {γ : Type} (download : Download) {view : World → γ}

/-- A program leaves a view of the machine alone. -/
abbrev Spares (view : World → γ) (program : CmdProgram α) : Prop :=
  Prog.Keeps (Console.step download) (fun console => view console.world) program

variable {download}

theorem printk_spares (format : String) (values : List PrintArg) :
    Spares download view (printk format values) := fun _ => rfl

theorem onBus_spares {program : Firmware α}
    (keeps : ∀ world, view (world.run program).2 = view world) :
    Spares download view (onBus program) := by
  rintro ⟨world, printed⟩
  have alone := congrArg (fun done => view done.2.world) (onBus_run download program world printed)
  exact alone.trans (keeps world)

theorem onBus_quiet (blind : Blind view) {program : Firmware α}
    (quiet : program.Issues Bus.Quiet) : Spares download view (onBus program) :=
  onBus_spares fun world => quiet.frame blind world

theorem load_spares (blind : Blind view) (addr length : Nat) :
    Spares download view (onBus (Bus.issue (.load addr length))) :=
  onBus_quiet blind (.perform trivial)

/-- A command comes past an argument only if it is there. -/
theorem argument_spares {argv : Argv} {i : Nat} {rest : Nat → CmdProgram α}
    (present : ∀ text, argv i = .word text →
      Spares download view (rest (simpleStrtoul text 16))) :
    Spares download view (argument argv i >>= rest) := by
  rw [argument, Prog.bind_assoc]
  refine Prog.Keeps.bind (fun _ => rfl) fun _ => ?_
  split
  · next text here => exact present text here
  · exact Prog.Keeps.spin

theorem crc16_spares (blind : Blind view) (inputStr numBytes : Nat) :
    Spares download view (crc16 inputStr numBytes) := by
  rw [crc16]
  split
  · exact .pure _
  · exact (load_spares blind _ _).bind fun _ => .pure _

section Buffer

variable {fetch : Nat → CmdProgram (List Byte)} {width : Nat}
variable (fetches : ∀ offset, Spares download view (fetch offset))
include fetches

theorem printValues_spares (i thislinelen : Nat) :
    Spares download view (printValues fetch width i thislinelen) := by
  induction thislinelen generalizing i with
  | zero => exact .pure _
  | succ thislinelen ih =>
      exact (fetches _).bind fun bytes => (printk_spares _ _).bind fun _ =>
        (ih (i + 1)).bind fun rest => .pure _

omit fetches in
theorem printBlanks_spares (count : Nat) : Spares download view (printBlanks count) := by
  induction count with
  | zero => exact .pure _
  | succ count ih => exact (printk_spares _ _).bind fun _ => ih

theorem printLines_spares (blind : Blind view) (linelen addr i count : Nat) :
    Spares download view (printLines fetch width linelen addr i count) := by
  induction count using Nat.strong_induction_on generalizing addr i with
  | _ count ih =>
      rw [printLines]
      split
      · exact .pure _
      · split
        · exact .spin
        · refine (printk_spares _ _).bind fun _ => ?_
          refine (printValues_spares fetches _ _).bind fun bytes => ?_
          refine (printBlanks_spares _).bind fun _ => (printk_spares _ _).bind fun _ => ?_
          refine (onBus_quiet blind uartCtrlc_quiet).bind fun pressed => ?_
          split
          · exact .pure _
          · exact ih _ (by split <;> omega) _ _

theorem printBuffer_spares (blind : Blind view) (addr count linelen : Nat) :
    Spares download view (printBuffer addr fetch width count linelen) :=
  printLines_spares fetches blind _ _ _ _

end Buffer

theorem dumpLines_spares (blind : Blind view) (offset i length : Nat) :
    Spares download view (dumpLines offset i length) := by
  induction length using Nat.strong_induction_on generalizing i with
  | _ length ih =>
      rw [dumpLines]
      split
      · exact .pure _
      · refine (onBus_quiet blind (flashReadData_quiet _ _ _)).bind fun buf => ?_
        exact (printBuffer_spares (fun _ => .pure _) blind _ _ _).bind fun _ =>
          ih _ (by omega) _

theorem printShortHelp_spares (entries : List CmdTbl) :
    Spares download view (printShortHelp entries) := by
  induction entries with
  | nil => exact .pure _
  | cons entry rest ih => exact (printk_spares _ _).bind fun _ => ih

theorem printLongHelp_spares (array : CmdArray) (argv : Argv) (i remaining rcode : Nat) :
    Spares download view (printLongHelp array argv i remaining rcode) := by
  induction remaining generalizing i rcode with
  | zero => exact .pure _
  | succ remaining ih =>
      refine Prog.Keeps.bind (fun _ => rfl) fun _ => ?_
      split
      · split
        · exact Prog.Keeps.bind ((printk_spares _ _).bind fun _ => .pure _) fun rc => ih _ _
        · exact (printk_spares _ _).bind fun _ => ih _ _
      · exact .spin

theorem keeping_spares (array : CmdArray) {program : CmdProgram Int}
    (spares : Spares download view program) : Spares download view (keeping array program) :=
  spares.bind fun _ => .pure _

/-- **Five of the commands only look.** -/
theorem Handler.quiet_spares (blind : Blind view) {handler : Handler}
    (others : handler ∉ [.flread, .flwrite, .flerase, .loadb]) (array : CmdArray) (argc : Nat)
    (argv : Argv) : Spares download view (handler.run array argc argv) := by
  have looks : ∀ program : CmdProgram Int, Spares download view program →
      Spares download view (keeping array program) := fun _ => keeping_spares array
  cases handler with
  | help =>
      show Spares download view (doHelp array argc argv)
      rw [doHelp]
      split
      · exact (printShortHelp_spares _).bind fun _ => .pure _
      · exact (printLongHelp_spares _ _ _ _ _).bind fun _ => .pure _
  | fldump =>
      refine looks _ (argument_spares fun _ _ => argument_spares fun _ _ => ?_)
      refine (onBus_quiet blind flashInit_quiet).bind fun _ => ?_
      refine (onBus_quiet blind flashEnableQuadMode_quiet).bind fun _ => ?_
      exact (dumpLines_spares blind _ _ _).bind fun _ => (printk_spares _ _).bind fun _ => .pure _
  | crc16 =>
      refine looks _ (argument_spares fun _ _ => argument_spares fun _ _ => ?_)
      exact (crc16_spares blind _ _).bind fun crc => (printk_spares _ _).bind fun _ => .pure _
  | md =>
      refine looks _ (argument_spares fun _ _ => argument_spares fun _ _ => ?_)
      refine argument_spares fun _ _ => Prog.Keeps.bind ?_ fun _ => .pure _
      exact printBuffer_spares (fun offset => load_spares blind _ _) blind _ _ _
  | reset => exact looks _ (Prog.Keeps.bind (fun _ => rfl) fun _ => .pure _)
  | flread | flwrite | flerase | loadb => exact absurd others (by simp)

/-- `loadb` leaves alone what the download cannot reach. -/
theorem loadb_spares (blind : Blind view) (argv : Argv)
    (loads : ∀ (world : World) ram uart,
      view { world with ram := ram, uart := uart } = view world) :
    Spares download view (doLoadb argv) := by
  refine argument_spares fun text _ => (printk_spares _ _).bind fun _ => ?_
  refine Prog.Keeps.bind (fun console => loads console.world _ _) fun size => ?_
  have rest : ∀ rcode : Int, Spares download view (do
      printk "## Total Size      = 0x%08X = %d Bytes\n" [.int size, .int size]
      let crc ← crc16 (simpleStrtoul text 16) (size % 2 ^ 64).toNat
      printk "## Caculated CRC16 = 0x%04X\n" [.num crc]
      pure rcode) := fun rcode =>
    (printk_spares _ _).bind fun _ => (crc16_spares blind _ _).bind fun crc =>
      (printk_spares _ _).bind fun _ => .pure _
  dsimp only
  split <;> exact (printk_spares _ _).bind fun _ => rest _

/-! ### The commands that write -/

/-- The cells that an erase, or a write with the erase before it, may change. Beyond the end of the
chip nothing is said. -/
def FlashRange (offset length x : Nat) : Prop :=
  offset % 4096 = 0 ∧ 0 < length ∧
    (offset + length ≤ chipSize → offset ≤ x ∧ x < offset + 4096 * sectorCount length)

/-- What is left out of the range of a command that goes to work. -/
theorem missed_of_outside {offset length x : Nat} (outside : ¬ FlashRange offset length x)
    (aligned : offset % 4096 = 0) (positive : 0 < length) :
    offset + length ≤ chipSize ∧ (x < offset ∨ offset + 4096 * sectorCount length ≤ x) := by
  simp only [FlashRange, aligned, positive, true_and, Classical.not_imp] at outside
  omega

/-- The sectors of an aligned range on the chip are on it too. -/
theorem sectors_onChip {offset length : Nat} (aligned : offset % 4096 = 0)
    (onChip : offset + length ≤ chipSize) : offset + 4096 * sectorCount length ≤ chipSize := by
  simp only [sectorCount, chipSize] at onChip ⊢
  omega

/-- The erase of a range on the chip, also when it is interrupted. -/
theorem doFlashErase_cells {offset length x : Nat} (outside : ¬ FlashRange offset length x)
    (world : World) :
    (world.run (doFlashErase offset length)).2.chip.cells x = world.chip.cells x := by
  by_cases good : offset % 4096 = 0 ∧ 0 < length
  · have missed := missed_of_outside outside good.1 good.2
    obtain ⟨count, result, after, runs, erased, -, bound, -⟩ :=
      doFlashErase_run offset length (Nat.dvd_of_mod_eq_zero good.1) good.2
        (sectors_onChip good.1 missed.1) world
    rw [runs, erased.cells]
    exact NorFlash.replay_outside (NorFlash.erases_within (g := chipGeometry)
      (Nat.dvd_of_mod_eq_zero good.1) (Nat.add_le_add_left (Nat.mul_le_mul_left 4096 bound) _))
      _ missed.2
  · rw [doFlashErase]
    split
    · rfl
    · split
      · rfl
      · exact absurd ⟨by omega, by omega⟩ good

/-- An erase leaves the RAM and the gate alone. -/
theorem doFlashErase_memory (offset length : Nat) (world : World) :
    (world.run (doFlashErase offset length)).2.ram = world.ram ∧
      (world.run (doFlashErase offset length)).2.otpKeyOutput = world.otpKeyOutput := by
  by_cases good : offset % 4096 = 0 ∧ length ≠ 0
  · obtain ⟨count, result, after, runs, erased, -⟩ :=
      eraseSectors_run offset 0 (sectorCount length) world.unlocked
    have done := (World.After.unlocked world).trans erased
    rw [doFlashErase_loop good.1 good.2, runs]
    exact ⟨done.ram, done.otpKeyOutput⟩
  · rw [doFlashErase]
    split
    · exact ⟨rfl, rfl⟩
    · split
      · exact ⟨rfl, rfl⟩
      · exact absurd ⟨by omega, by omega⟩ good

/-- `do_flwrite` behind its arguments. -/
theorem flwrite_keeps {offset length : Nat} (ramaddr : Nat)
    (erase : Prog.Keeps World.step view (doFlashErase offset length))
    (write : offset % 4096 = 0 → length ≠ 0 →
      Prog.Keeps World.step view (doFlashWrite offset length ramaddr)) :
    Prog.Keeps World.step view (flwrite offset length ramaddr) := by
  rw [flwrite]
  refine erase.bind_of fun world result after runs => ?_
  split
  · rfl
  · next success =>
      obtain ⟨other, stopped, same, -, good⟩ := doFlashErase_result offset length world
      obtain ⟨answered, -⟩ := Prod.mk.inj (runs.symm.trans same)
      obtain rfl := Option.some.inj answered
      have reached := good.mp (not_not.mp success)
      exact write reached.1 reached.2.1 after

/-- The write command, on the cells. -/
theorem flwrite_cells {offset length x : Nat} (ramaddr : Nat)
    (outside : ¬ FlashRange offset length x) :
    Prog.Keeps World.step (fun world => world.chip.cells x) (flwrite offset length ramaddr) := by
  refine flwrite_keeps ramaddr (doFlashErase_cells outside) fun aligned positive world => ?_
  have missed := missed_of_outside outside aligned (Nat.pos_of_ne_zero positive)
  obtain ⟨commands, after, streams, runs, written, -⟩ :=
    doFlashWrite_run offset length ramaddr missed.1 world
  have shorter : length ≤ 4096 * sectorCount length := by
    unfold sectorCount
    omega
  refine (congrArg (fun done => done.2.chip.cells x) runs).trans ?_
  dsimp only
  rw [written.cells]
  exact NorFlash.replay_outside (streams.within le_rfl (by rw [readRange_length])) _ (by omega)

/-- The write command, on what it never reaches. -/
theorem flwrite_offMemory (offMemory : ∀ (world : World) (op : Bus), op.OffMemory →
      view (world.step op).2 = view world)
    (erase : ∀ offset length, Prog.Keeps World.step view (doFlashErase offset length))
    (offset length ramaddr : Nat) :
    Prog.Keeps World.step view (flwrite offset length ramaddr) :=
  flwrite_keeps ramaddr (erase _ _) fun _ _ =>
    .of_issues offMemory (doFlashWrite_offMemory _ _ _)

theorem blind_broughtUp (blind : Blind view) (world : World) :
    view world.broughtUp = view world := by
  have quiet : Prog.Issues Bus.Quiet (do
      let _ ← flashInit 1
      let _ ← flashEnableQuadMode
      pure ()) :=
    flashInit_quiet.bind fun _ => flashEnableQuadMode_quiet.bind fun _ => .pure ()
  have runs := congrArg (fun done => view done.2) (flashBringUp_run world (pure ()))
  exact runs.symm.trans (quiet.frame blind world)

/-- `do_flread` stores what it has read, and nothing else. -/
theorem flread_spares (blind : Blind view) {argv : Argv}
    (stores : ∀ offset length ramaddr, argv.Spells 1 offset → argv.Spells 2 length →
      argv.Spells 3 ramaddr → ∀ (world : World) (data : List Byte), data.length = u32 length →
        view { world with ram := writeRange world.ram ramaddr data } = view world) :
    Spares download view (doFlread argv) := by
  refine argument_spares fun first isFirst => argument_spares fun second isSecond => ?_
  refine argument_spares fun third isThird => ?_
  rintro ⟨world, printed⟩
  have reads := flashReadData_run world.broughtUp (u32 (simpleStrtoul first 16))
    (u32 (simpleStrtoul second 16)) .quadSingle quadDriver_onSpi3
  have runs := (bringUp_bind download world printed _).trans (onBus_bind download reads printed
    fun data => onBus (Bus.issue (.store (simpleStrtoul third 16) data)) >>= fun _ =>
      (pure 0 : CmdProgram Int))
  refine (congrArg (fun done => view done.2.world) runs).trans ?_
  refine (stores _ _ _ ⟨first, isFirst, rfl⟩ ⟨second, isSecond, rfl⟩ ⟨third, isThird, rfl⟩ _ _
    (readRange_length _ _ _)).trans (blind_broughtUp blind world)

end Commands

/-! ### What a command reaches -/

/-- The cells of the chip that a command may change. -/
def Handler.ReachesCell (handler : Handler) (argv : Argv) (x : Nat) : Prop :=
  handler ∈ [.flerase, .flwrite] ∧ ∃ offset length,
    argv.Spells 1 offset ∧ argv.Spells 2 length ∧ FlashRange (u32 offset) (u32 length) x

/-- The bytes of the RAM that a command may change; where a download goes is left open. -/
def Handler.ReachesByte (handler : Handler) (argv : Argv) (y : Nat) : Prop :=
  handler = .loadb ∨ handler = .flread ∧ ∃ offset length ramaddr,
    argv.Spells 1 offset ∧ argv.Spells 2 length ∧ argv.Spells 3 ramaddr ∧
      ramaddr ≤ y ∧ y < ramaddr + u32 length

section Handlers

variable {download : Download} {argv : Argv}

/-- **The cells that a command leaves alone.** -/
theorem Handler.cell_spares {handler : Handler} {x : Nat}
    (outside : ¬ handler.ReachesCell argv x) (array : CmdArray) (argc : Nat) :
    Spares download (fun world => world.chip.cells x) (handler.run array argc argv) := by
  have missed : handler ∈ [.flerase, .flwrite] → ∀ first second, argv 1 = .word first →
      argv 2 = .word second →
        ¬ FlashRange (u32 (simpleStrtoul first 16)) (u32 (simpleStrtoul second 16)) x :=
    fun writes first second isFirst isSecond range =>
      outside ⟨writes, _, _, ⟨first, isFirst, rfl⟩, ⟨second, isSecond, rfl⟩, range⟩
  cases handler with
  | flerase =>
      refine keeping_spares array (argument_spares fun first isFirst => ?_)
      exact argument_spares fun second isSecond =>
        onBus_spares (doFlashErase_cells (missed (by simp) first second isFirst isSecond))
  | flwrite =>
      refine keeping_spares array ?_
      rw [doFlwrite_eq]
      refine argument_spares fun first isFirst => argument_spares fun second isSecond => ?_
      exact argument_spares fun third _ =>
        onBus_spares (flwrite_cells _ (missed (by simp) first second isFirst isSecond))
  | flread =>
      exact keeping_spares array (flread_spares (blind_cell x) fun _ _ _ _ _ _ _ _ _ => rfl)
  | loadb => exact keeping_spares array (loadb_spares (blind_cell x) argv fun _ _ _ => rfl)
  | _ => exact quiet_spares (blind_cell x) (by simp) array argc argv

/-- What neither the drivers nor the erase can be seen in, the two commands that write leave
alone. -/
theorem Handler.writer_spares {γ : Type} {view : World → γ}
    (offMemory : ∀ (world : World) (op : Bus), op.OffMemory → view (world.step op).2 = view world)
    (erase : ∀ offset length, Prog.Keeps World.step view (doFlashErase offset length))
    {handler : Handler} (writes : handler ∈ [.flerase, .flwrite]) (array : CmdArray) (argc : Nat) :
    Spares download view (handler.run array argc argv) := by
  cases handler with
  | flerase =>
      refine keeping_spares array (argument_spares fun _ _ => argument_spares fun _ _ => ?_)
      exact onBus_spares (erase _ _)
  | flwrite =>
      refine keeping_spares array ?_
      rw [doFlwrite_eq]
      refine argument_spares fun _ _ => argument_spares fun _ _ => argument_spares fun _ _ => ?_
      exact onBus_spares (flwrite_offMemory offMemory erase _ _ _)
  | _ => exact absurd writes (by simp)

/-- **The bytes of the RAM that a command leaves alone.** -/
theorem Handler.byte_spares {handler : Handler} {y : Nat}
    (outside : ¬ handler.ReachesByte argv y) (array : CmdArray) (argc : Nat) :
    Spares download (fun world => world.ram y) (handler.run array argc argv) := by
  cases handler with
  | flerase | flwrite =>
      exact writer_spares (fun world op off => congrFun (offMemory_step off world).1 y)
        (fun offset length world => congrFun (doFlashErase_memory offset length world).1 y)
        (by simp) array argc
  | flread =>
      refine keeping_spares array (flread_spares (blind_ram y) ?_)
      intro offset length ramaddr first second third world data count
      refine writeRange_outside _ (by_contra fun inside => outside ?_)
      exact Or.inr ⟨rfl, offset, length, ramaddr, first, second, third, by omega, by omega⟩
  | loadb => exact absurd (Or.inl rfl) outside
  | _ => exact quiet_spares (blind_ram y) (by simp) array argc argv

/-- **No command touches the gate of the keys.** -/
theorem Handler.gate_spares (handler : Handler) (array : CmdArray) (argc : Nat) (argv : Argv) :
    Spares download World.otpKeyOutput (handler.run array argc argv) := by
  cases handler with
  | flerase | flwrite =>
      exact writer_spares (fun world op off => (offMemory_step off world).2)
        (fun offset length world => (doFlashErase_memory offset length world).2) (by simp)
        array argc
  | flread => exact keeping_spares array (flread_spares blind_gate fun _ _ _ _ _ _ _ _ _ => rfl)
  | loadb => exact keeping_spares array (loadb_spares blind_gate argv fun _ _ _ => rfl)
  | _ => exact quiet_spares blind_gate (by simp) array argc argv

end Handlers

end K210Guard
