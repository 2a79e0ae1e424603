/-
**When the loops' commands arrive** (`do_flash_erase`, `do_flash_write`).

The loops over sectors and chunks look at no status: they send every command, in transactions that
are a function of the busy bit.

* `eraseSectors_takes` — the erase loop; only Ctrl-C stops it.
* `writeChunks_takes` — the write loop: a program for each 32 bytes, with an additional check after
  each chunk.
-/

import K210Guard.Flash.Timing

namespace K210Guard

open NorFlash (Command)

/-! ### The erase loop -/

/-- The erase of a sector of the loop, with the address as the chip takes it. -/
def eraseOf (offset index : Nat) : Command := .erase (u32 (4096 * index + offset) % chipSize)

namespace SlowWorld

/-- The UART is polled as on the ideal machine. -/
theorem uartCtrlc_takes (t : Timing) :
    Takes t uartCtrlc fun pressed u =>
      u = { t with uart := t.uart.next } ∧ (pressed = true ↔ t.uart.holds = some 0x03#8) := by
  rintro s rfl
  refine ⟨_, { s with world := s.world.polled }, ?_, rfl, decide_eq_true_iff⟩
  refine (run_offSpi ?_ s).trans ?_
  · refine .ask _ _ rfl fun waiting => ?_
    cases waiting with
    | false => exact .pure _
    | true => exact .ask _ _ rfl fun c => .pure _
  · rw [uartCtrlc_run]
    rfl

/-- **The erase loop** erases sector after sector, whatever the chip does with it; only Ctrl-C
stops it. -/
theorem eraseSectors_takes (offset i remaining : Nat) (t : Timing) :
    Takes t (eraseSectors offset i remaining) fun result u =>
      (∀ world : World, world.uart = t.uart → (result = 0 ↔ world.Undisturbed remaining)) ∧
      (result = 0 → ∃ uart, u =
        { t.sends (afterCommands t.busy noPause t.clock remaining)
            (arrivalsOf t.busy noPause t.clock (fun index => eraseOf offset (i + index)) remaining)
          with uart := uart }) := by
  induction remaining generalizing i t with
  | zero =>
      refine .pure ⟨fun _ _ => iff_of_true rfl fun _ impossible => by omega, fun _ => ?_⟩
      exact ⟨t.uart, t.sends_nil.symm⟩
  | succ remaining ih =>
      rw [eraseSectors]
      refine (flashSectorErase_takes t _).andThen fun _ => ?_
      refine (uartCtrlc_takes _).bind ?_
      rintro pressed _ ⟨rfl, heard⟩
      cases pressed with
      | true =>
          rw [if_pos rfl]
          refine .pure ⟨fun world same => iff_of_false (by decide) fun quiet => ?_,
            fun impossible => absurd impossible (by decide)⟩
          refine ((world.undisturbed_succ remaining).mp quiet).1 ?_
          rw [same]
          exact heard.mp rfl
      | false =>
          rw [if_neg (by decide)]
          refine (ih (i + 1) _).weaken ?_
          rintro result u ⟨answer, reached⟩
          refine ⟨fun world same => ?_, fun zero => ?_⟩
          · have quiet : world.uart.holds ≠ some 0x03#8 := by
              intro pressed
              rw [same] at pressed
              exact absurd (heard.mpr pressed) (by decide)
            rw [answer world.polled (by rw [World.polled, same]; rfl), World.undisturbed_succ]
            exact (and_iff_right quiet).symm
          · obtain ⟨uart, rfl⟩ := reached zero
            refine ⟨uart, ?_⟩
            have later : (fun index => eraseOf offset (i + 1 + index)) =
                fun index => eraseOf offset (i + (1 + index)) := by
              funext index
              rw [Nat.add_assoc]
            rw [Nat.add_comm remaining 1, afterCommands_add, arrivalsOf_add, later]
            unfold Timing.sends
            simp only [List.append_assoc]
            rfl

end SlowWorld

/-! ### The pieces of a write -/

/-- The number of programs that write a length. -/
def pieceCount (length : Nat) : Nat := (length + 31) / 32

/-- The program of 32 bytes of RAM, or of what is left. -/
def pieceOf (ram : Nat → Byte) (offset length ramptr index : Nat) : Command :=
  .program (offset + 32 * index)
    (readRange ram (ramptr + 32 * index) (min 32 (length - 32 * index)))

/-- The fourth program of each 128 bytes and the last one are followed by another check. -/
def chunkPause (count index : Nat) : Bool := index % 4 = 3 ∨ index + 1 = count

/-- A range cut after a whole number of pieces: the pieces are those of the two parts. -/
theorem pieceCount_add {first rest : Nat} (cut : first % 32 = 0 ∨ rest = 0) :
    pieceCount (first + rest) = pieceCount first + pieceCount rest := by
  unfold pieceCount
  omega

theorem pieceOf_first (ram : Nat → Byte) (offset ramptr : Nat) {first rest index : Nat}
    (cut : first % 32 = 0 ∨ rest = 0) (bound : index < pieceCount first) :
    pieceOf ram offset first ramptr index = pieceOf ram offset (first + rest) ramptr index := by
  have size : min 32 (first - 32 * index) = min 32 (first + rest - 32 * index) := by
    unfold pieceCount at bound
    omega
  rw [pieceOf, pieceOf, size]

theorem pieceOf_rest (ram : Nat → Byte) (offset ramptr : Nat) {first rest index : Nat}
    (cut : first % 32 = 0 ∨ rest = 0) (bound : index < pieceCount rest) :
    pieceOf ram (offset + first) rest (ramptr + first) index =
      pieceOf ram offset (first + rest) ramptr (pieceCount first + index) := by
  have place : first + 32 * index = 32 * (pieceCount first + index) := by
    unfold pieceCount at bound ⊢
    omega
  have size : rest - 32 * index = first + rest - 32 * (pieceCount first + index) := by
    omega
  rw [pieceOf, pieceOf, Nat.add_assoc, Nat.add_assoc ramptr, place, size]

section Pauses

variable {first rest index : Nat}

/-- Inside a chunk there is no pause. -/
theorem chunkPause_inside (short : first ≤ 4) (inside : index + 1 < first) :
    chunkPause (first + rest) index = false := by
  refine decide_eq_false ?_
  omega

theorem chunkPause_end (whole : first = 4 ∨ rest = 0) (last : index + 1 = first) :
    chunkPause (first + rest) index = true := by
  refine decide_eq_true ?_
  omega

theorem chunkPause_rest (whole : first = 4 ∨ rest = 0) (bound : index < rest) :
    chunkPause rest index = chunkPause (first + rest) (first + index) := by
  refine decide_eq_decide.mpr ?_
  omega

/-- The clock after a chunk. -/
theorem afterCommands_chunk (busy : Nat → Bool) (clock : Nat) (positive : first ≠ 0)
    (short : first ≤ 4) (whole : first = 4 ∨ rest = 0) :
    afterCommands busy (chunkPause (first + rest)) clock first =
      afterCheck busy (afterCommands busy noPause clock first) := by
  obtain ⟨before, rfl⟩ := Nat.exists_eq_succ_of_ne_zero positive
  have begun : afterCommands busy (chunkPause (before + 1 + rest)) clock before =
      afterCommands busy noPause clock before :=
    afterCommands_congr fun index bound => chunkPause_inside short (Nat.succ_lt_succ bound)
  rw [afterCommands, afterCommands, chunkPause_end whole rfl, begun]
  rfl

end Pauses

/-! ### The write loop -/

namespace SlowWorld

theorem programPieces_takes (ram : Nat → Byte) (addr length ramptr : Nat)
    (onChip : addr + length ≤ chipSize) (t : Timing) (quad : t.driver = quadDriver) :
    Takes t (programPieces addr (readRange ram ramptr length)) fun _ u =>
      u = t.sends (afterCommands t.busy noPause t.clock (pieceCount length))
        (arrivalsOf t.busy noPause t.clock (pieceOf ram addr length ramptr)
          (pieceCount length)) := by
  induction length using Nat.strong_induction_on generalizing addr ramptr t with
  | _ length ih =>
      rw [programPieces]
      by_cases more : length = 0
      · subst more
        rw [dif_neg (not_not.mpr (readRange_zero ram ramptr))]
        exact .pure t.sends_nil.symm
      · rw [dif_pos (readRange_ne_nil ram ramptr more)]
        dsimp only
        rw [readRange_length]
        generalize size : (if length > 32 then 32 else length) = len
        obtain ⟨rest, rfl⟩ : ∃ rest, length = len + rest :=
          ⟨length - len, by split at size <;> omega⟩
        have piece : 0 < len ∧ len ≤ 32 ∧ (len = 32 ∨ rest = 0) := by split at size <;> omega
        have cut : len % 32 = 0 ∨ rest = 0 := by omega
        have one : pieceCount len = 1 := by
          unfold pieceCount
          omega
        rw [readRange_add, List.take_left' (readRange_length _ _ _),
          List.drop_left' (readRange_length _ _ _)]
        refine (flashPageProgramFun_takes t quad _ _).andThen fun _ => ?_
        rw [u32_of_onChip (show addr + len ≤ chipSize by omega)]
        refine (ih rest (by omega) (addr + len) (ramptr + len) (by omega) (t.sends _ _)
          quad).weaken fun _ u reached => ?_
        have head : pieceOf ram addr (len + rest) ramptr 0 =
            .program (addr % chipSize) (readRange ram ramptr len) := by
          rw [← pieceOf_first ram addr ramptr cut (by omega), pieceOf,
            Nat.mod_eq_of_lt (show addr < chipSize by omega)]
          rw [Nat.mul_zero, Nat.sub_zero, Nat.min_eq_right piece.2.1]
          rfl
        have others : ∀ index < pieceCount rest,
            pieceOf ram (addr + len) rest (ramptr + len) index =
              pieceOf ram addr (len + rest) ramptr (1 + index) := by
          intro index bound
          rw [← one]
          exact pieceOf_rest ram addr ramptr cut bound
        rw [reached, Timing.sends_sends, pieceCount_add cut, one, afterCommands_add, arrivalsOf_add]
        refine congrArg₂ _ rfl ?_
        rw [show arrivalsOf t.busy noPause t.clock (pieceOf ram addr (len + rest) ramptr) 1 =
          [(t.clock + 2, pieceOf ram addr (len + rest) ramptr 0)] from rfl, head]
        exact congrArg _ (arrivalsOf_congr (fun _ _ => rfl) others)

/-- A chunk of the write loop lies in one page. -/
theorem writePages_takes (ram : Nat → Byte) {addr length : Nat} (ramptr : Nat)
    (aligned : addr % 128 = 0) (positive : length ≠ 0) (fits : length ≤ 128)
    (onChip : addr + length ≤ chipSize) (t : Timing) (quad : t.driver = quadDriver) :
    Takes t (writePages addr (readRange ram ramptr length)) fun _ u =>
      u = t.sends (afterCommands t.busy noPause t.clock (pieceCount length))
        (arrivalsOf t.busy noPause t.clock (pieceOf ram addr length ramptr)
          (pieceCount length)) := by
  have masked : addr &&& 255 = addr % 256 := Nat.and_two_pow_sub_one_eq_mod addr 8
  have page : (if length < 256 - addr % 256 then length else 256 - addr % 256) = length := by
    split <;> omega
  rw [writePages, dif_pos (readRange_ne_nil ram ramptr positive), masked]
  dsimp only
  rw [readRange_length, page, List.take_of_length_le (by rw [readRange_length]),
    List.drop_of_length_le (by rw [readRange_length])]
  refine (programPieces_takes ram addr length ramptr onChip t quad).andThen fun _ => ?_
  rw [writePages, dif_neg (by simp)]
  exact .pure rfl

theorem flashWriteData_takes (ram : Nat → Byte) {addr length : Nat} (ramptr : Nat)
    (aligned : addr % 128 = 0) (positive : length ≠ 0) (fits : length ≤ 128)
    (onChip : addr + length ≤ chipSize) (t : Timing) (quad : t.driver = quadDriver) :
    Takes t (flashWriteData addr (readRange ram ramptr length)) fun _ u =>
      u = t.sends
        (afterCheck t.busy (afterCommands t.busy noPause t.clock (pieceCount length)))
        (arrivalsOf t.busy noPause t.clock (pieceOf ram addr length ramptr)
          (pieceCount length)) := by
  refine (writePages_takes ram ramptr aligned positive fits onChip t quad).andThen fun _ => ?_
  refine (flashCheckStatus_takes _).weaken fun _ u reached => ?_
  rw [reached, Timing.sends_sends, List.append_nil]
  rfl

/-- **The write loop** programs piece after piece, whatever the chip does with them. -/
theorem writeChunks_takes (ram : Nat → Byte) (offset length ramptr : Nat)
    (aligned : length ≠ 0 → offset % 128 = 0) (onChip : offset + length ≤ chipSize) (t : Timing)
    (quad : t.driver = quadDriver) (same : t.ram = ram) :
    Takes t (writeChunks offset length ramptr) fun _ u =>
      u = t.sends
        (afterCommands t.busy (chunkPause (pieceCount length)) t.clock (pieceCount length))
        (arrivalsOf t.busy (chunkPause (pieceCount length)) t.clock
          (pieceOf ram offset length ramptr) (pieceCount length)) := by
  induction length using Nat.strong_induction_on generalizing offset ramptr t with
  | _ length ih =>
      rw [writeChunks]
      by_cases more : length > 0
      · rw [dif_pos more]
        dsimp only
        generalize size : (if length > 128 then 128 else length) = len
        obtain ⟨rest, rfl⟩ : ∃ rest, length = len + rest :=
          ⟨length - len, by split at size <;> omega⟩
        have chunk : 0 < len ∧ len ≤ 128 ∧ (len = 128 ∨ rest = 0) := by
          split at size <;> omega
        have cut : len % 32 = 0 ∨ rest = 0 := by omega
        have pieces : pieceCount len ≠ 0 ∧ pieceCount len ≤ 4 ∧
            (pieceCount len = 4 ∨ pieceCount rest = 0) := by
          unfold pieceCount
          omega
        obtain ⟨positive, short, whole⟩ := pieces
        have loaded : Takes t (Bus.issue (.load ramptr len)) fun data u =>
            u = t ∧ data = readRange ram ramptr len := by
          rintro s rfl
          exact ⟨_, s, rfl, rfl, by rw [← same]; rfl⟩
        refine loaded.bind ?_
        rintro data _ ⟨unchanged, rfl⟩
        rw [unchanged]
        refine (flashWriteData_takes ram ramptr (aligned (by omega)) (by omega) chunk.2.1 (by omega)
          t quad).andThen fun _ => ?_
        rw [u32_of_onChip (show offset + len ≤ chipSize by omega), Nat.add_sub_cancel_left]
        refine (ih rest (by omega) (offset + len) (ramptr + len) (by omega) (by omega)
          (t.sends _ _) quad same).weaken fun _ u reached => ?_
        have pauses : ∀ index < pieceCount rest, chunkPause (pieceCount rest) index =
            chunkPause (pieceCount len + pieceCount rest) (pieceCount len + index) :=
          fun index bound => chunkPause_rest whole bound
        rw [reached, Timing.sends_sends, pieceCount_add cut, afterCommands_add, arrivalsOf_add,
          afterCommands_chunk t.busy t.clock positive short whole, ← afterCommands_congr pauses,
          ← arrivalsOf_congr (fun index inside => (chunkPause_inside short inside).symm)
            (fun index bound => pieceOf_first ram offset ramptr cut bound),
          ← arrivalsOf_congr (fun index bound => pauses index (Nat.lt_of_succ_lt bound))
            (fun index bound => pieceOf_rest ram offset ramptr cut bound)]
        rfl
      · obtain rfl : length = 0 := by omega
        rw [dif_neg more]
        exact .pure t.sends_nil.symm

end SlowWorld

end K210Guard
