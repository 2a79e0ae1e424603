/-
**What a successful `flwrite` has written** (`do_flwrite`).

The driver reports an operation that outlasts its polls, and every caller drops the report. So
`flwrite` goes on: the chip ignores what arrives while it is busy, and the command still answers 0.

* `flwrite_takes` — the result and the arrivals of a call, as functions of the busy bit alone.
* `flwrite_landed` — what each byte of the range holds afterwards.
* `flwrite_lands_iff` — the bytes are those of RAM exactly when no byte needed an operation that
  the chip did not carry out; `flwrite_lands_anyContents_iff` says it for all contents.
* `slowErase_lost` — an erase that outlasts the polls: nothing is written, and the answer is 0.
-/

import K210Guard.Cli.Handlers
import K210Guard.Flash.Arrivals
import K210Guard.Flash.EraseRange

namespace K210Guard

open NorFlash (Command Cells blank replay)

/-! ### The command -/

/-- `do_flwrite` behind its arguments. -/
def flwrite (offset length ramaddr : Nat) : Firmware Int := do
  if (← doFlashErase offset length) ≠ 0 then
    pure (-1)
  else
    doFlashWrite offset length ramaddr

theorem doFlwrite_eq (argv : Argv) :
    doFlwrite argv = (do
      let offset ← argument argv 1
      let length ← argument argv 2
      let ramaddr ← argument argv 3
      onBus (flwrite (u32 offset) (u32 length) ramaddr)) := by
  unfold doFlwrite flwrite onBus
  simp only [Prog.interpret_bind]
  congr 1; funext offset
  congr 1; funext length
  congr 1; funext ramaddr
  congr 1; funext result
  split <;> rfl

/-! ### The schedule -/

/-- The clock when the erase loop begins, in a call that begins at clock 0. -/
def eraseStart (busy : Nat → Bool) (reg2 : Byte) : Nat :=
  afterCheck busy (afterBringUp busy reg2 0 + 6)

/-- The transaction in which the erase of a sector arrives. -/
def eraseArrival (busy : Nat → Bool) (reg2 : Byte) (sector : Nat) : Nat :=
  afterCommands busy noPause (eraseStart busy reg2) sector + 2

/-- The clock when the write loop begins. -/
def programStart (busy : Nat → Bool) (reg2 : Byte) (length : Nat) : Nat :=
  afterCheck busy (afterCommands busy noPause (eraseStart busy reg2) (sectorCount length) + 2)

/-- The transaction in which the program of a piece arrives. -/
def programArrival (busy : Nat → Bool) (reg2 : Byte) (length piece : Nat) : Nat :=
  afterCommands busy (chunkPause (pieceCount length)) (programStart busy reg2 length) piece + 2

/-- The clock when the call returns. -/
def flwriteStop (busy : Nat → Bool) (reg2 : Byte) (length : Nat) : Nat :=
  afterCommands busy (chunkPause (pieceCount length)) (programStart busy reg2 length)
    (pieceCount length)

namespace SlowWorld

theorem doFlashErase_takes {offset length : Nat} (aligned : offset % 4096 = 0)
    (positive : length ≠ 0) (t : Timing) :
    Takes t (doFlashErase offset length) fun result u =>
      (∀ world : World, world.uart = t.uart →
        (result = 0 ↔ world.Undisturbed (sectorCount length))) ∧
      (result = 0 → u.busy = t.busy ∧ u.ram = t.ram ∧ u.reg2 &&& 0x02#8 ≠ 0 ∧
        u.clock = afterCommands t.busy noPause
          (afterCheck t.busy (afterBringUp t.busy t.reg2 t.clock + 6)) (sectorCount length) ∧
        u.arrivals = t.arrivals ++ arrivalsOf t.busy noPause
          (afterCheck t.busy (afterBringUp t.busy t.reg2 t.clock + 6)) (eraseOf offset)
          (sectorCount length)) := by
  unfold doFlashErase
  rw [if_neg (not_not.mpr aligned), if_neg positive, sectorCount_eq]
  refine bringUp_takes t ?_
  refine (flashDisableProtect_takes _).andThen fun _ => ?_
  refine (eraseSectors_takes offset 0 (sectorCount length) _).weaken ?_
  rintro result u ⟨answer, reached⟩
  refine ⟨answer, fun zero => ?_⟩
  obtain ⟨uart, rfl⟩ := reached zero
  refine ⟨rfl, rfl, ?_, rfl, ?_⟩
  · show quadEnabled t.reg2 &&& 0x03#8 &&& 0x02#8 ≠ 0
    rw [BitVec.and_assoc]
    exact quadEnabled_and t.reg2
  · simp only [Timing.sends, List.append_nil, Nat.zero_add]

theorem doFlashWrite_takes {offset length : Nat} (ramptr : Nat) (aligned : offset % 4096 = 0)
    (onChip : offset + length ≤ chipSize) (t : Timing) (quad : t.reg2 &&& 0x02#8 ≠ 0) :
    Takes t (doFlashWrite offset length ramptr) fun result u =>
      result = 0 ∧ u.busy = t.busy ∧
        u.clock = afterCommands t.busy (chunkPause (pieceCount length))
          (afterCheck t.busy (t.clock + 2)) (pieceCount length) ∧
        u.arrivals = t.arrivals ++ arrivalsOf t.busy (chunkPause (pieceCount length))
          (afterCheck t.busy (t.clock + 2)) (pieceOf t.ram offset length ramptr)
          (pieceCount length) := by
  unfold doFlashWrite
  refine bringUp_takes t ?_
  rw [afterBringUp, if_neg quad]
  refine (writeChunks_takes t.ram offset length ramptr (fun _ => by omega) onChip
    { t.sends (afterCheck t.busy (t.clock + 2)) [] with
      driver := quadDriver, reg2 := quadEnabled t.reg2 } rfl rfl).andThen fun _ => .pure ?_
  refine ⟨rfl, rfl, rfl, ?_⟩
  simp only [Timing.sends, List.append_nil]

/-- **A call of `flwrite`**: the answer depends on Ctrl-C only, and when the commands arrive on the
busy bit only. -/
theorem flwrite_takes (world : World) (busy : Nat → Bool) {offset length : Nat} (ramaddr : Nat)
    (aligned : offset % 4096 = 0) (positive : length ≠ 0) (onChip : offset + length ≤ chipSize) :
    Takes (start world busy).timing (flwrite offset length ramaddr) fun result u =>
      (result = 0 ↔ world.Undisturbed (sectorCount length)) ∧
      (result = 0 → u.busy = busy ∧ u.clock = flwriteStop busy world.chip.reg2 length ∧
        u.arrivals =
          arrivalsOf busy noPause (eraseStart busy world.chip.reg2) (eraseOf offset)
            (sectorCount length) ++
          arrivalsOf busy (chunkPause (pieceCount length))
            (programStart busy world.chip.reg2 length) (pieceOf world.ram offset length ramaddr)
            (pieceCount length)) := by
  refine (doFlashErase_takes aligned positive _).bind ?_
  rintro result u ⟨answer, reached⟩
  by_cases zero : result = 0
  · obtain ⟨sameBusy, sameRam, quad, clock, arrivals⟩ := reached zero
    rw [if_neg (not_not.mpr zero)]
    refine (doFlashWrite_takes ramaddr aligned onChip u quad).weaken ?_
    rintro last v ⟨done, busy', clock', arrivals'⟩
    refine ⟨iff_of_true done ((answer world rfl).mp zero), fun _ => ⟨busy'.trans sameBusy, ?_, ?_⟩⟩
    · rw [clock', sameBusy, clock]
      rfl
    · rw [arrivals', arrivals, sameBusy, sameRam, clock]
      rfl
  · rw [if_pos zero]
    refine .pure ⟨iff_of_false (by decide) fun quiet => zero ((answer world rfl).mpr quiet),
      fun impossible => absurd impossible (by decide)⟩

/-- An offset inside a sector and an empty range are refused. -/
theorem flwrite_refused (s : SlowWorld) {offset length : Nat} (ramaddr : Nat)
    (bad : ¬ (offset % 4096 = 0 ∧ length ≠ 0)) :
    s.run (flwrite offset length ramaddr) = (some (-1), s) := by
  have erase : s.run (doFlashErase offset length) = (some (-1), s) := by
    unfold doFlashErase
    by_cases aligned : offset % 4096 = 0
    · rw [if_neg (not_not.mpr aligned), if_pos (not_not.mp fun positive => bad ⟨aligned, positive⟩)]
      rfl
    · rw [if_pos aligned]
      rfl
  exact Prog.run_bind_of_eq step erase

end SlowWorld

/-! ### The bytes of the range -/

/-- What was carried out of commands in a row. -/
theorem carriedOutOf_arrivalsOf (busy pause : Nat → Bool) (stop clock : Nat)
    (commands : Nat → Command) (count : Nat) :
    carriedOutOf busy stop (arrivalsOf busy pause clock commands count) =
      ((List.range count).filter fun index =>
        CarriedOut busy stop (afterCommands busy pause clock index + 2)).map commands := by
  unfold carriedOutOf arrivalsOf
  rw [List.filter_map, List.map_map]
  rfl

/-- A byte after some of the erases of the loop. -/
theorem replay_someErases {offset length index : Nat} (aligned : offset % 4096 = 0)
    (onChip : offset + length ≤ chipSize) (inside : index < length) (selected : Nat → Prop)
    [DecidablePred selected] (cells : Cells) :
    replay chipGeometry
        (((List.range (sectorCount length)).filter selected).map (eraseOf offset)) cells
        (offset + index) =
      if selected (index / 4096) then blank else cells (offset + index) := by
  have effect : ∀ sector < sectorCount length, ∀ cells : Cells,
      (eraseOf offset sector).apply chipGeometry cells (offset + index) =
        if sector = index / 4096 then blank else cells (offset + index) := by
    intro sector bound cells
    unfold eraseOf
    rw [sectorAddress_onChip aligned onChip bound]
    show (if (offset + index) / 4096 = (4096 * sector + offset) / 4096 then blank else _) = _
    have same : (offset + index) / 4096 = (4096 * sector + offset) / 4096 ↔
        sector = index / 4096 := by
      omega
    simp only [same]
  have bound : index / 4096 < sectorCount length := by
    unfold sectorCount
    omega
  have hit : ∀ cells : Cells,
      (eraseOf offset (index / 4096)).apply chipGeometry cells (offset + index) = blank := by
    intro cells
    rw [effect _ bound, if_pos rfl]
  have miss : ∀ other < sectorCount length, other ≠ index / 4096 → ∀ cells : Cells,
      (eraseOf offset other).apply chipGeometry cells (offset + index) =
        cells (offset + index) := by
    intro other low different cells
    rw [effect _ low, if_neg different]
  rw [NorFlash.replay_selected (fun _ => blank) hit miss]
  simp only [bound, true_and]

/-- A byte after some of the programs of the loop. -/
theorem replay_somePrograms {offset length index : Nat} (aligned : offset % 4096 = 0)
    (inside : index < length) (ram : Nat → Byte) (ramaddr : Nat) (selected : Nat → Prop)
    [DecidablePred selected] (cells : Cells) :
    replay chipGeometry
        (((List.range (pieceCount length)).filter selected).map
          (pieceOf ram offset length ramaddr)) cells (offset + index) =
      if selected (index / 32) then cells (offset + index) &&& ram (ramaddr + index)
      else cells (offset + index) := by
  have bound : index / 32 < pieceCount length := by
    unfold pieceCount
    omega
  have hit : ∀ cells : Cells,
      (pieceOf ram offset length ramaddr (index / 32)).apply chipGeometry cells (offset + index) =
        cells (offset + index) &&& ram (ramaddr + index) := by
    intro cells
    show NorFlash.programPage chipGeometry cells _ _ _ = _
    rw [NorFlash.programPage_eq_overlay
        (by rw [readRange_length]; show _ % 256 + _ ≤ 256; omega),
      NorFlash.overlay_inside _ (by omega) (by rw [readRange_length]; omega), getElem_readRange]
    congr 2
    omega
  have miss : ∀ other < pieceCount length, other ≠ index / 32 → ∀ cells : Cells,
      (pieceOf ram offset length ramaddr other).apply chipGeometry cells (offset + index) =
        cells (offset + index) := by
    intro other _ different cells
    have within : (pieceOf ram offset length ramaddr other).Within chipGeometry
        (offset + 32 * other) (offset + 32 * other + 32) := by
      refine ⟨le_rfl, ?_, ?_⟩
      · rw [readRange_length]
        omega
      · rw [readRange_length]
        show _ % 256 + _ ≤ 256
        omega
    exact Command.apply_outside within cells (by omega)
  rw [NorFlash.replay_selected (fun old => old &&& ram (ramaddr + index)) hit miss]
  simp only [bound, true_and]

/-- After a call that answers 0, each byte of the range: erased and programmed where the chip has
carried these operations out. -/
theorem flwrite_landed {world : World} {busy : Nat → Bool} {offset length ramaddr index : Nat}
    (aligned : offset % 4096 = 0) (onChip : offset + length ≤ chipSize) (inside : index < length)
    {after : SlowWorld}
    (runs : (SlowWorld.start world busy).run (flwrite offset length ramaddr) = (some 0, after)) :
    let stop := flwriteStop busy world.chip.reg2 length
    let erased :=
      if CarriedOut busy stop (eraseArrival busy world.chip.reg2 (index / 4096)) then blank
      else world.chip.cells (offset + index)
    after.world.chip.cells (offset + index) =
      if CarriedOut busy stop (programArrival busy world.chip.reg2 length (index / 32)) then
        erased &&& world.ram (ramaddr + index)
      else erased := by
  obtain ⟨-, reached⟩ :=
    (SlowWorld.flwrite_takes world busy ramaddr aligned (by omega) onChip).of_run runs
  obtain ⟨sameBusy, clock, arrivals⟩ := reached rfl
  have account := (SlowWorld.run_accounts world busy (flwrite offset length ramaddr)).cells
  rw [runs] at account
  rw [account, show after.busy = busy from sameBusy, show after.clock = _ from clock,
    show after.arrivals = _ from arrivals, carriedOutOf_append, carriedOutOf_arrivalsOf,
    carriedOutOf_arrivalsOf, NorFlash.replay_append, replay_somePrograms aligned inside,
    replay_someErases aligned onChip inside]
  rfl

/-- A byte comes out right: where its sector was not erased no bit has to be set, and where its
piece was not programmed it is right already. -/
def ByteLands (erased programmed : Prop) (old value : Byte) : Prop :=
  (erased ∨ old &&& value = value) ∧
    (programmed ∨ erased ∧ value = blank ∨ ¬ erased ∧ value = old)

theorem byteLands_iff {erased programmed : Prop} [Decidable erased] [Decidable programmed]
    (old value : Byte) :
    (if programmed then (if erased then blank else old) &&& value
      else if erased then blank else old) = value ↔ ByteLands erased programmed old value := by
  unfold ByteLands
  by_cases wasErased : erased
  · by_cases wasProgrammed : programmed
    · simp [wasErased, wasProgrammed, NorFlash.blank_and]
    · simp [wasErased, wasProgrammed, eq_comm]
  · by_cases wasProgrammed : programmed
    · simp [wasErased, wasProgrammed]
    · have already : old = value → old &&& value = value := by
        rintro rfl
        exact BitVec.and_self
      simp only [wasErased, wasProgrammed, if_false, false_or, not_false_eq_true, true_and,
        false_and]
      exact ⟨fun same => ⟨already same, same.symm⟩, fun both => both.2.symm⟩

/-! ### When the range holds the RAM bytes -/

/-- A call that answers 0 leaves the RAM bytes on the chip. -/
def SlowWorld.Lands (s : SlowWorld) (offset length ramaddr : Nat) : Prop :=
  ∀ after, s.run (flwrite offset length ramaddr) = (some 0, after) →
    ∀ index < length, after.world.chip.cells (offset + index) = s.world.ram (ramaddr + index)

/-- The byte at an index of the range comes out right. -/
def FlwriteLandsAt (world : World) (busy : Nat → Bool) (offset length ramaddr index : Nat) : Prop :=
  let stop := flwriteStop busy world.chip.reg2 length
  ByteLands (CarriedOut busy stop (eraseArrival busy world.chip.reg2 (index / 4096)))
    (CarriedOut busy stop (programArrival busy world.chip.reg2 length (index / 32)))
    (world.chip.cells (offset + index)) (world.ram (ramaddr + index))

/-- A call with good arguments and without Ctrl-C. -/
theorem lands_iff_of_good (world : World) (busy : Nat → Bool) {offset length : Nat} (ramaddr : Nat)
    (onChip : offset + length ≤ chipSize) (aligned : offset % 4096 = 0) (positive : length ≠ 0)
    (quiet : world.Undisturbed (sectorCount length)) :
    (SlowWorld.start world busy).Lands offset length ramaddr ↔
      ∀ index < length, FlwriteLandsAt world busy offset length ramaddr index := by
  obtain ⟨result, after, runs, answer, -⟩ :=
    SlowWorld.flwrite_takes world busy ramaddr aligned positive onChip _ rfl
  obtain rfl := answer.mpr quiet
  constructor
  · intro lands index inside
    rw [FlwriteLandsAt, ← byteLands_iff, ← flwrite_landed aligned onChip inside runs]
    exact lands after runs index inside
  · intro each other otherRuns index inside
    have right := each index inside
    rw [FlwriteLandsAt, ← byteLands_iff, ← flwrite_landed aligned onChip inside otherRuns] at right
    exact right

/-- **A successful `flwrite` is on the chip** if and only if each byte of its range comes out
right. -/
theorem flwrite_lands_iff (world : World) (busy : Nat → Bool) (offset length ramaddr : Nat)
    (onChip : offset + length ≤ 2 ^ 24) :
    (SlowWorld.start world busy).Lands offset length ramaddr ↔
      (offset % 4096 = 0 ∧ length ≠ 0 ∧ world.Undisturbed (sectorCount length) →
        ∀ index < length, FlwriteLandsAt world busy offset length ramaddr index) := by
  by_cases good : offset % 4096 = 0 ∧ length ≠ 0
  · by_cases quiet : world.Undisturbed (sectorCount length)
    · rw [lands_iff_of_good world busy ramaddr onChip good.1 good.2 quiet]
      exact ⟨fun each _ => each, fun each => each ⟨good.1, good.2, quiet⟩⟩
    · refine iff_of_true ?_ fun all => absurd all.2.2 quiet
      intro after runs
      obtain ⟨answer, -⟩ :=
        (SlowWorld.flwrite_takes world busy ramaddr good.1 good.2 onChip).of_run runs
      exact absurd (answer.mp rfl) quiet
  · refine iff_of_true ?_ fun all => absurd ⟨all.1, all.2.1⟩ good
    intro after runs
    rw [SlowWorld.flwrite_refused _ ramaddr good] at runs
    exact absurd (Option.some.inj (Prod.mk.inj runs).1) (by decide)

/-- On a chip that is never busy every operation of the call is carried out. -/
theorem carriedOut_of_neverBusy {stop arrival : Nat} (before : arrival < stop) :
    CarriedOut (fun _ => false) stop arrival :=
  ⟨rfl, stop, le_rfl, before, rfl⟩

theorem programArrival_lt_stop {busy : Nat → Bool} {reg2 : Byte} {length piece : Nat}
    (bound : piece < pieceCount length) :
    programArrival busy reg2 length piece < flwriteStop busy reg2 length := arrival_lt bound

/-- The programs arrive after the erases. -/
theorem eraseArrival_lt_programArrival {busy : Nat → Bool} {reg2 : Byte} {length sector : Nat}
    (bound : sector < sectorCount length) (piece : Nat) :
    eraseArrival busy reg2 sector < programArrival busy reg2 length piece := by
  have loop : eraseArrival busy reg2 sector <
      afterCommands busy noPause (eraseStart busy reg2) (sectorCount length) := arrival_lt bound
  have between : _ + 2 + 2 < programStart busy reg2 length := lt_afterCheck
  have write : programStart busy reg2 length ≤ afterCommands busy (chunkPause (pieceCount length))
      (programStart busy reg2 length) piece :=
    (afterCommands_strictMono busy _ _).monotone (Nat.zero_le piece)
  unfold programArrival
  omega

theorem eraseArrival_lt_stop {busy : Nat → Bool} {reg2 : Byte} {length sector : Nat}
    (positive : length ≠ 0) (bound : sector < sectorCount length) :
    eraseArrival busy reg2 sector < flwriteStop busy reg2 length := by
  have piece : 0 < pieceCount length := by
    unfold pieceCount
    omega
  exact lt_trans (eraseArrival_lt_programArrival bound 0) (programArrival_lt_stop piece)

/-- 32 bytes to a chip that is never busy. -/
theorem flwrite_lands_neverBusy :
    (SlowWorld.start (World.powerOn fun _ => 0x00#8) fun _ => false).Lands 0x10000 0x20
      0x80000000 := by
  refine (flwrite_lands_iff _ _ _ _ _ (by decide)).mpr fun _ index inside => ?_
  have sector : index / 4096 < sectorCount 0x20 := by
    unfold sectorCount
    omega
  have piece : index / 32 < pieceCount 0x20 := by
    unfold pieceCount
    omega
  exact ⟨Or.inl (carriedOut_of_neverBusy (eraseArrival_lt_stop (by decide) sector)),
    Or.inl (carriedOut_of_neverBusy (programArrival_lt_stop piece))⟩

/-- The busy bit of a chip whose first erase outlasts all polls of the call. -/
def slowErase (time : Nat) : Bool := 21 < time

/-- It is taken: the first erase of the call arrives in transaction 21. -/
theorem slowErase_taken : eraseArrival slowErase 0x00#8 0 = 21 := by
  have begun : afterBringUp slowErase 0x00#8 0 = 9 := by
    unfold afterBringUp
    rw [if_pos (by decide)]
    exact afterCheck_of_ready (by decide)
  have start : eraseStart slowErase 0x00#8 = 19 := by
    rw [eraseStart, begun]
    exact afterCheck_of_ready (by decide)
  rw [eraseArrival, afterCommands, start]

/-- The chip ignores the programs, and the answer is 0: the range stays erased where zeros were to
be written. -/
theorem slowErase_lost :
    ¬ (SlowWorld.start (World.powerOn fun _ => 0xFF#8) slowErase).Lands 0x10000 0x20
      0x80000000 := by
  intro lands
  have quiet : (World.powerOn fun _ => 0xFF#8).Undisturbed (sectorCount 0x20) :=
    fun _ _ => by simp [World.powerOn]
  have right : FlwriteLandsAt (World.powerOn fun _ => 0xFF#8) slowErase 0x10000 0x20 0x80000000 0 :=
    (lands_iff_of_good _ slowErase 0x80000000 (by decide) (by decide) (by decide) quiet).mp lands 0
      (by decide)
  have late : 21 < programArrival slowErase 0x00#8 0x20 0 := by
    rw [← slowErase_taken]
    exact eraseArrival_lt_programArrival (by decide) 0
  rcases right.2 with programmed | ⟨-, same⟩ | ⟨-, same⟩
  · have set' : slowErase (programArrival slowErase 0x00#8 0x20 0) = true := decide_eq_true late
    exact absurd (set'.symm.trans programmed.1) (by decide)
  · exact absurd same (show ¬ 0x00#8 = 0xFF#8 by decide)
  · exact absurd same (show ¬ 0x00#8 = 0xFF#8 by decide)

/-! ### Any contents -/

/-- The machine with other cells and another RAM. -/
def World.withContents (world : World) (cells : Cells) (ram : Nat → Byte) : World :=
  { world with chip := { world.chip with cells := cells }, ram := ram }

/-- **Whatever was there and whatever is written**: a successful call is on the chip if and only if
the chip has carried out all its erases and programs. -/
theorem flwrite_lands_anyContents_iff (world : World) (busy : Nat → Bool) {offset length : Nat}
    (ramaddr : Nat) (onChip : offset + length ≤ 2 ^ 24) (aligned : offset % 4096 = 0)
    (positive : length ≠ 0) (quiet : world.Undisturbed (sectorCount length)) :
    (∀ cells ram, (SlowWorld.start (world.withContents cells ram) busy).Lands offset length
        ramaddr) ↔
      (∀ sector < sectorCount length, CarriedOut busy (flwriteStop busy world.chip.reg2 length)
        (eraseArrival busy world.chip.reg2 sector)) ∧
      ∀ piece < pieceCount length, CarriedOut busy (flwriteStop busy world.chip.reg2 length)
        (programArrival busy world.chip.reg2 length piece) := by
  have each (cells : Cells) (ram : Nat → Byte) :=
    lands_iff_of_good (world.withContents cells ram) busy ramaddr onChip aligned positive quiet
  constructor
  · intro lands
    constructor
    · -- zeros before, ones written: only the erase sets bits
      intro sector bound
      have inside : 4096 * sector < length := by
        unfold sectorCount at bound
        omega
      have right := ((each (fun _ => 0x00#8) fun _ => 0xFF#8).mp (lands _ _) _ inside).1
      rw [Nat.mul_div_cancel_left _ (by decide)] at right
      exact right.resolve_right (show ¬ 0x00#8 &&& 0xFF#8 = 0xFF#8 by decide)
    · -- ones before, zeros written: only the program clears bits
      intro piece bound
      have inside : 32 * piece < length := by
        unfold pieceCount at bound
        omega
      have right := ((each (fun _ => 0xFF#8) fun _ => 0x00#8).mp (lands _ _) _ inside).2
      rw [Nat.mul_div_cancel_left _ (by decide)] at right
      rcases right with programmed | ⟨-, same⟩ | ⟨-, same⟩
      · exact programmed
      · exact absurd same (show ¬ 0x00#8 = 0xFF#8 by decide)
      · exact absurd same (show ¬ 0x00#8 = 0xFF#8 by decide)
  · rintro ⟨erased, programmed⟩ cells ram
    refine (each cells ram).mpr fun index inside => ⟨Or.inl (erased _ ?_), Or.inl (programmed _ ?_)⟩
    · unfold sectorCount
      omega
    · unfold pieceCount
      omega

end K210Guard
