/-
**The erase and write commands** (`do_flash_erase`, `do_flash_write` of `cli/command.c`).

The erase goes sector by sector and polls the UART for Ctrl-C after each; the write goes in chunks
of 128 bytes. `doFlashErase_run` and `doFlashWrite_run` say which chip commands they carry out:
the erases of a range from its start on, all of them unless Ctrl-C arrives, and a stream of the
RAM bytes. `doFlashErase_result` says what the erase answers, for any offset and length.
-/

import K210Guard.Flash.DriverSpec

namespace K210Guard

open NorFlash (Command Streams replay erases)

/-! ### The code -/

/-- `uart_ctrlc` -/
def uartCtrlc : Firmware Bool := do
  if (← Bus.issue .uartTstc) then
    let c ← Bus.issue .uartGetc
    pure (c = 0x03#8)
  else
    pure false

/-- The erase loop, from sector `i` on. -/
def eraseSectors (offset : Nat) : Nat → Nat → Firmware Int
  | _, 0 => pure 0
  | i, remaining + 1 => do
      let _ ← flashSectorErase (u32 (4096 * i + offset))
      if (← uartCtrlc) then
        pure (-1)
      else
        eraseSectors offset (i + 1) remaining

def doFlashErase (offset length : Nat) : Firmware Int :=
  if offset % 4096 ≠ 0 then pure (-1)
  else if length = 0 then pure (-1)
  else do
    let _ ← flashInit 1
    let _ ← flashEnableQuadMode
    let sectors := length / 4096 + (if length % 4096 = 0 then 0 else 1)
    let _ ← flashDisableProtect
    eraseSectors offset 0 sectors

/-- The write loop: chunks of at most 128 bytes. -/
def writeChunks (offset length ramptr : Nat) : Firmware Unit := do
  if _more : length > 0 then
    let lenwrite := if length > 128 then 128 else length
    let data ← Bus.issue (.load ramptr lenwrite)
    let _ ← flashWriteData offset data
    writeChunks (u32 (offset + lenwrite)) (length - lenwrite) (ramptr + lenwrite)
termination_by length
decreasing_by split <;> omega

def doFlashWrite (offset length ramptr : Nat) : Firmware Int := do
  let _ ← flashInit 1
  let _ ← flashEnableQuadMode
  writeChunks offset length ramptr
  pure 0

/-! ### Worlds that differ by chip commands -/

/-- After some chip commands: the cells and the log have moved on by these commands, the rest that
the loader's results depend on is as before. -/
structure World.After (before : World) (commands : List Command) (after : World) : Prop where
  cells : after.chip.cells = replay chipGeometry commands before.chip.cells
  log : after.chip.log = before.chip.log ++ commands
  ram : after.ram = before.ram
  received : after.uart.received = before.uart.received
  otpKeyOutput : after.otpKeyOutput = before.otpKeyOutput

/-- The world after a poll of the UART. -/
def World.polled (world : World) : World := { world with uart := world.uart.next }

namespace World.After

theorem refl (world : World) : world.After [] world :=
  ⟨rfl, (List.append_nil _).symm, rfl, rfl, rfl⟩

theorem trans {first second third : World} {some' more : List Command}
    (before : first.After some' second) (after : second.After more third) :
    first.After (some' ++ more) third where
  cells := by rw [after.cells, before.cells, NorFlash.replay_append]
  log := by rw [after.log, before.log, List.append_assoc]
  ram := after.ram.trans before.ram
  received := after.received.trans before.received
  otpKeyOutput := after.otpKeyOutput.trans before.otpKeyOutput

theorem carryOutAll (world : World) (commands : List Command) :
    world.After commands (world.carryOutAll commands) :=
  ⟨by simp, by simp, by simp, by simp, by simp⟩

theorem broughtUp (world : World) : world.After [] world.broughtUp :=
  ⟨by simp, by simp, by simp, by simp, by simp⟩

theorem setRegs (world : World) (reg1 reg2 : Byte) : world.After [] (world.setRegs reg1 reg2) :=
  ⟨rfl, (List.append_nil _).symm, rfl, rfl, rfl⟩

/-- The receiver may have been polled in between. -/
theorem polled {before after : World} {commands : List Command}
    (done : before.After commands after) :
    before.After commands after.polled :=
  ⟨done.cells, done.log, done.ram, done.received, done.otpKeyOutput⟩

end World.After

/-- No Ctrl-C ever arrives. -/
def World.Silent (world : World) : Prop := ∀ poll, world.uart.received poll ≠ some 0x03#8

/-- No Ctrl-C arrives at the next `count` polls. -/
def World.Undisturbed (world : World) (count : Nat) : Prop :=
  ∀ poll < count, world.uart.received (world.uart.polls + poll) ≠ some 0x03#8

theorem World.Silent.undisturbed {world : World} (silent : world.Silent) (count : Nat) :
    world.Undisturbed count := fun _ _ => silent _

/-- Bringing the flash up: SPI3 and the quad functions are selected. -/
theorem flashBringUp_run {α : Type} (world : World) (rest : Firmware α) :
    world.run (do
      let _ ← flashInit 1
      let _ ← flashEnableQuadMode
      rest) = world.broughtUp.run rest := by
  refine (World.run_bind_of_eq (flashInit_run world)).trans ?_
  refine (World.run_bind_of_eq (flashEnableQuadMode_run _ rfl)).trans ?_
  have ignored : World.broughtUp { world with driver := ⟨0, 10, 22, .standard⟩ } =
      world.broughtUp := by
    unfold World.broughtUp
    split <;> rfl
  rw [ignored]

/-! ### What the erase does -/

theorem uartCtrlc_run (world : World) :
    world.run uartCtrlc = (some (decide (world.uart.holds = some 0x03#8)), world.polled) := by
  cases received : world.uart.holds with
  | none =>
      have test : world.run (Bus.issue .uartTstc) = (some false, world.polled) := by
        show (some world.uart.holds.isSome, { world with uart := world.uart.afterTstc }) = _
        rw [Uart.afterTstc, received]
        rfl
      exact World.run_bind_of_eq test
  | some c =>
      have test : world.run (Bus.issue .uartTstc) = (some true, world) := by
        show (some world.uart.holds.isSome, { world with uart := world.uart.afterTstc }) = _
        rw [Uart.afterTstc, received]
        rfl
      have get : world.run (Bus.issue .uartGetc) = (some c, world.polled) := by
        show (some (world.uart.holds.getD 0), { world with uart := world.uart.next }) = _
        rw [received]
        rfl
      refine (World.run_bind_of_eq test).trans ((World.run_bind_of_eq get).trans ?_)
      simp

/-- The first of the next polls, then the others. -/
theorem World.undisturbed_succ (world : World) (count : Nat) :
    world.Undisturbed (count + 1) ↔
      world.uart.holds ≠ some 0x03#8 ∧ world.polled.Undisturbed count := by
  constructor
  · intro quiet
    refine ⟨quiet 0 (Nat.succ_pos count), fun poll bound => ?_⟩
    have later := quiet (poll + 1) (by omega)
    rwa [Nat.add_comm poll, ← Nat.add_assoc] at later
  · rintro ⟨now, later⟩ poll bound
    cases poll with
    | zero => exact now
    | succ poll =>
        have next := later poll (by omega)
        rwa [Nat.add_comm poll, ← Nat.add_assoc]

/-- The erases of `count` sectors from sector `i` on, with the addresses as the chip takes them. -/
def sectorErases (offset i count : Nat) : List Command :=
  (List.range count).map fun index => .erase (u32 (4096 * (i + index) + offset) % chipSize)

theorem sectorErases_succ (offset i count : Nat) :
    sectorErases offset i (count + 1) =
      .erase (u32 (4096 * i + offset) % chipSize) :: sectorErases offset (i + 1) count := by
  unfold sectorErases
  rw [List.range_succ_eq_map, List.map_cons, List.map_map, Nat.add_zero]
  refine congrArg (_ :: ·) (List.map_congr_left fun index _ => ?_)
  show Command.erase (u32 (4096 * (i + (index + 1)) + offset) % chipSize) = _
  rw [Nat.add_comm index, Nat.add_assoc i]

/-- On the chip no address wraps. -/
theorem sectorErases_onChip {offset count : Nat} (onChip : offset + 4096 * count ≤ chipSize) :
    sectorErases offset 0 count = erases chipGeometry offset count := by
  refine List.map_congr_left fun index member => congrArg Command.erase ?_
  have bound := List.mem_range.mp member
  have small : chipSize < 2 ^ 32 := by decide
  show u32 (4096 * (0 + index) + offset) % chipSize = offset + 4096 * index
  rw [u32, Nat.mod_eq_of_lt (by omega), Nat.mod_eq_of_lt (by omega), Nat.zero_add, Nat.add_comm]

/-- The erase loop stops after the last sector, or before at the first Ctrl-C. -/
theorem eraseSectors_run (offset i remaining : Nat) (world : World) :
    ∃ count result after, world.run (eraseSectors offset i remaining) = (some result, after) ∧
      world.After (sectorErases offset i count) after ∧
      after.driver = world.driver ∧ count ≤ remaining ∧
      (result = 0 ∧ count = remaining ∧ world.Undisturbed remaining ∨
        result = -1 ∧ 0 < count ∧ ¬ world.Undisturbed remaining) := by
  induction remaining generalizing i world with
  | zero =>
      exact ⟨0, 0, world, rfl, .refl world, rfl, le_rfl,
        Or.inl ⟨rfl, rfl, fun _ impossible => absurd impossible (Nat.not_lt_zero _)⟩⟩
  | succ remaining ih =>
      generalize place : u32 (4096 * i + offset) % chipSize = sector
      have erase := flashSectorErase_run world (u32 (4096 * i + offset))
      rw [place] at erase
      have erased : world.After [.erase sector] (world.carryOut (.erase sector)).polled :=
        (World.After.carryOutAll world [.erase sector]).polled
      rw [eraseSectors]
      by_cases pressed : world.uart.holds = some 0x03#8
      · refine ⟨1, -1, (world.carryOut (.erase sector)).polled, ?_, ?_, rfl, by omega,
          Or.inr ⟨rfl, by omega, ?_⟩⟩
        · refine (World.run_bind_of_eq erase).trans ?_
          refine (World.run_bind_of_eq (uartCtrlc_run _)).trans ?_
          rw [show (world.carryOut (.erase sector)).uart = world.uart from rfl,
            decide_eq_true pressed]
          rfl
        · rw [sectorErases_succ, place]
          exact erased
        · intro quiet
          exact ((world.undisturbed_succ remaining).mp quiet).1 pressed
      · obtain ⟨count, result, after, runs, rest, driver, bound, outcome⟩ :=
          ih (i + 1) (world.carryOut (.erase sector)).polled
        have later : (world.carryOut (.erase sector)).polled.Undisturbed remaining ↔
            world.Undisturbed (remaining + 1) := by
          rw [World.undisturbed_succ]
          exact (and_iff_right pressed).symm
        rw [later] at outcome
        refine ⟨count + 1, result, after, ?_, ?_, driver, by omega, ?_⟩
        · refine (World.run_bind_of_eq erase).trans ?_
          refine (World.run_bind_of_eq (uartCtrlc_run _)).trans ?_
          rw [show (world.carryOut (.erase sector)).uart = world.uart from rfl,
            decide_eq_false pressed]
          exact runs
        · rw [sectorErases_succ, place]
          exact erased.trans rest
        · rcases outcome with ⟨done, all, quiet⟩ | ⟨stopped, some', heard⟩
          · exact Or.inl ⟨done, by omega, quiet⟩
          · exact Or.inr ⟨stopped, by omega, heard⟩

/-- The number of 4 KiB sectors that cover a length. -/
def sectorCount (length : Nat) : Nat := (length + 4095) / 4096

/-- It is what the erase command computes. -/
theorem sectorCount_eq (length : Nat) :
    length / 4096 + (if length % 4096 = 0 then 0 else 1) = sectorCount length := by
  unfold sectorCount
  split <;> omega

/-- The world in which the erase loop starts. -/
def World.unlocked (world : World) : World :=
  world.broughtUp.setRegs 0x00#8 (world.broughtUp.chip.reg2 &&& 0x03#8)

theorem World.After.unlocked (world : World) : world.After [] world.unlocked :=
  (World.After.broughtUp world).trans (World.After.setRegs world.broughtUp _ _)

/-- Unlocking the chip polls nothing. -/
theorem World.undisturbed_unlocked (world : World) (count : Nat) :
    world.unlocked.Undisturbed count ↔ world.Undisturbed count := by
  unfold World.Undisturbed
  rw [show world.unlocked.uart = world.uart from world.broughtUp_uart]

/-- With a good offset and length, the erase command comes to its loop. -/
theorem doFlashErase_loop {offset length : Nat} (aligned : offset % 4096 = 0)
    (positive : length ≠ 0) (world : World) :
    world.run (doFlashErase offset length) =
      world.unlocked.run (eraseSectors offset 0 (sectorCount length)) := by
  unfold doFlashErase
  rw [if_neg (not_not.mpr aligned), if_neg positive, flashBringUp_run, sectorCount_eq]
  exact World.run_bind_of_eq (flashDisableProtect_run _)

/-- **The erase command** erases the sectors of its range from the start on: all of them, or, when
Ctrl-C arrives, some of them. -/
theorem doFlashErase_run (offset length : Nat) (aligned : 4096 ∣ offset) (positive : 0 < length)
    (onChip : offset + 4096 * sectorCount length ≤ chipSize) (world : World) :
    ∃ count result after, world.run (doFlashErase offset length) = (some result, after) ∧
      world.After (erases chipGeometry offset count) after ∧
      after.driver = quadDriver ∧ count ≤ sectorCount length ∧
      (world.Undisturbed (sectorCount length) → count = sectorCount length) := by
  obtain ⟨count, result, after, runs, erased, driver, bound, outcome⟩ :=
    eraseSectors_run offset 0 (sectorCount length) world.unlocked
  rw [sectorErases_onChip (by omega)] at erased
  refine ⟨count, result, after, ?_, (World.After.unlocked world).trans erased, driver, bound,
    fun quiet => ?_⟩
  · rw [doFlashErase_loop (Nat.mod_eq_zero_of_dvd aligned) positive.ne', runs]
  · rcases outcome with ⟨_, all, _⟩ | ⟨_, _, heard⟩
    · exact all
    · exact absurd ((world.undisturbed_unlocked _).mpr quiet) heard

/-- **The result of the erase command**: 0 when the offset is aligned, the length is not 0 and no
Ctrl-C arrives at the polls after its sectors. -/
theorem doFlashErase_result (offset length : Nat) (world : World) :
    ∃ result after, world.run (doFlashErase offset length) = (some result, after) ∧
      (after.driver = quadDriver ∨ after = world) ∧
      (result = 0 ↔
        offset % 4096 = 0 ∧ length ≠ 0 ∧ world.Undisturbed (sectorCount length)) := by
  by_cases aligned : offset % 4096 = 0
  · by_cases positive : length ≠ 0
    · obtain ⟨count, result, after, runs, _, driver, _, outcome⟩ :=
        eraseSectors_run offset 0 (sectorCount length) world.unlocked
      rw [world.undisturbed_unlocked] at outcome
      refine ⟨result, after, ?_, Or.inl driver, ?_⟩
      · rw [doFlashErase_loop aligned positive, runs]
      · rcases outcome with ⟨done, _, quiet⟩ | ⟨stopped, _, heard⟩
        · exact iff_of_true done ⟨aligned, positive, quiet⟩
        · exact iff_of_false (by omega) fun good => heard good.2.2
    · refine ⟨-1, world, ?_, Or.inr rfl, iff_of_false (by decide) fun good => positive good.2.1⟩
      unfold doFlashErase
      rw [if_neg (not_not.mpr aligned), if_pos (not_not.mp positive)]
      rfl
  · refine ⟨-1, world, ?_, Or.inr rfl, iff_of_false (by decide) fun good => aligned good.1⟩
    unfold doFlashErase
    rw [if_pos aligned]
    rfl

/-! ### What the write does -/

/-- The write loop streams the RAM bytes. -/
theorem writeChunks_run (ram : Nat → Byte) (offset length ramptr : Nat)
    (onChip : offset + length ≤ chipSize) :
    ∃ commands, Streams chipGeometry offset (readRange ram ramptr length) 0 commands length ∧
      ∀ world : World, world.driver.Programs → world.ram = ram →
        world.run (writeChunks offset length ramptr) =
          (some (), world.carryOutAll commands) := by
  induction length using Nat.strong_induction_on generalizing offset ramptr with
  | _ length ih =>
      by_cases more : length > 0
      · generalize size : (if length > 128 then 128 else length) = lenwrite
        have bound : 0 < lenwrite ∧ lenwrite ≤ length := by
          rw [← size]
          split <;> omega
        have data := readRange_add ram ramptr lenwrite (length - lenwrite)
        rw [Nat.add_sub_cancel' bound.2] at data
        obtain ⟨chunk, chunkStreams, chunkRuns⟩ := flashWriteData_run offset
          (readRange ram ramptr lenwrite) (by rw [readRange_length]; omega)
        obtain ⟨rest, streams, runs⟩ := ih (length - lenwrite) (by omega) (offset + lenwrite)
          (ramptr + lenwrite) (by omega)
        refine ⟨chunk ++ rest, ?_, fun world programs same => ?_⟩
        · have whole : (readRange ram ramptr length).length = length := readRange_length _ _ _
          have begun : (readRange ram ramptr length).take lenwrite =
              readRange ram ramptr lenwrite := by
            rw [data, List.take_left' (readRange_length _ _ _)]
          have left : (readRange ram ramptr length).drop lenwrite =
              readRange ram (ramptr + lenwrite) (length - lenwrite) := by
            rw [data, List.drop_left' (readRange_length _ _ _)]
          rw [readRange_length, ← begun] at chunkStreams
          rw [← left] at streams
          have stream := Streams.concat (whole.symm ▸ bound.2) chunkStreams
            (by rw [whole]; exact streams)
          rwa [whole] at stream
        · rw [writeChunks, dif_pos more]
          dsimp only
          rw [size]
          have loaded : world.run (Bus.issue (.load ramptr lenwrite)) =
              (some (readRange ram ramptr lenwrite), world) := by
            rw [← same]
            rfl
          refine (World.run_bind_of_eq loaded).trans ?_
          refine (World.run_bind_of_eq (chunkRuns world programs)).trans ?_
          rw [u32_of_onChip (show offset + lenwrite ≤ chipSize by omega),
            World.carryOutAll_append]
          exact runs _ (by rwa [World.carryOutAll_driver])
            (by rw [World.carryOutAll_ram, same])
      · have none : length = 0 := by omega
        subst none
        refine ⟨[], .done 0, fun world _ _ => ?_⟩
        rw [writeChunks, dif_neg (by omega)]
        rfl

/-- **The write command** streams the RAM bytes to the chip. -/
theorem doFlashWrite_run (offset length ramptr : Nat) (onChip : offset + length ≤ chipSize)
    (world : World) :
    ∃ commands after,
      Streams chipGeometry offset (readRange world.ram ramptr length) 0 commands length ∧
      world.run (doFlashWrite offset length ramptr) = (some 0, after) ∧
      world.After commands after ∧ after.driver = quadDriver := by
  obtain ⟨commands, streams, runs⟩ := writeChunks_run world.ram offset length ramptr onChip
  refine ⟨commands, world.broughtUp.carryOutAll commands, streams, ?_, ?_, by simp⟩
  · unfold doFlashWrite
    rw [flashBringUp_run]
    exact World.run_bind_of_eq (runs world.broughtUp quadDriver_programs (by simp))
  · exact (World.After.broughtUp world).trans (World.After.carryOutAll _ commands)

end K210Guard
