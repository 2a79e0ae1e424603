/-
**Updates from the shell.**

An update flashes a new image from RAM into one slot with `flwrite`, while the other slot holds an
image that boots. Power may fail at any moment of it, and of the runs of `main` before and after.

* `flwrite_commands`: the erases of the slot, then programs of the image whose first holds the whole
  header.
* `Torn.updated`: what a failure leaves of an update still boots.
* `boots_after_updates`: so after any history of interrupted updates and interrupted runs of `main`.
* `update_takes_effect`, `update_of_bak_undone`: what an update that ends well comes to.
-/

import K210Guard.Boot.PowerFail
import K210Guard.Boot.Verified
import K210Guard.Cli.Flwrite

namespace K210Guard

open NorFlash (Cells Command Streams replay erases blanked overlay blank)
open Slot

/-! ### The commands of an update -/

section Log

variable {α β : Type}

/-- A first part and the whole program. -/
theorem World.run_bind_log (world : World) (first : Firmware α) (rest : α → Firmware β) :
    (world.run first).2.chip.log <+: (world.run (first >>= rest)).2.chip.log := by
  unfold World.run
  rw [Prog.run_bind]
  split
  · exact World.run_log _ _
  · exact List.prefix_rfl

/-- What a program logs after a first part whose run is known. -/
theorem World.log_of_first {world middle : World} {first : Firmware α} {rest : α → Firmware β}
    {value : α} {commands : List Command} (runs : world.run first = (some value, middle))
    (logs : commands <+: ((middle.run (rest value)).2.chip.log)) :
    commands <+: (world.run (first >>= rest)).2.chip.log := by
  rwa [World.run_bind_of_eq runs]

end Log

/-- The first program of a write on its own page holds 32 bytes. -/
theorem flashWriteData_head (world : World) (programs : world.driver.Programs) {addr : Nat}
    {data : List Byte} (aligned : addr % 256 = 0) (long : 32 ≤ data.length)
    (onChip : addr < chipSize) :
    world.chip.log ++ [.program addr (data.take 32)] <+:
      (world.run (flashWriteData addr data)).2.chip.log := by
  have more : data ≠ [] := List.ne_nil_of_length_pos (by omega)
  have masked : addr &&& 255 = 0 := (Nat.and_two_pow_sub_one_eq_mod addr 8).trans aligned
  refine List.IsPrefix.trans ?_ (World.run_bind_log world (writePages addr data) _)
  rw [writePages, dif_pos more, masked]
  dsimp only
  generalize size : (if data.length < 256 - 0 then data.length else 256 - 0) = writeLen
  have room : 32 ≤ writeLen := by
    rw [← size]
    split <;> omega
  refine List.IsPrefix.trans ?_ (World.run_bind_log world (programPieces addr _) _)
  have taken : 32 ≤ (data.take writeLen).length := by
    rw [List.length_take]
    omega
  rw [programPieces, dif_pos (List.ne_nil_of_length_pos (by omega))]
  have piece : (if (data.take writeLen).length > 32 then 32 else (data.take writeLen).length) =
      32 := by
    split <;> omega
  rw [piece]
  refine World.log_of_first (flashPageProgramFun_run world _ _ programs) ?_
  have begun : (data.take writeLen).take 32 = data.take 32 := by
    rw [List.take_take, Nat.min_eq_left room]
  rw [begun, Nat.mod_eq_of_lt onChip]
  exact World.run_log (world.carryOut (.program addr (data.take 32))) _

/-- So does the first program of the write command. -/
theorem doFlashWrite_head (world : World) {offset length : Nat} (ramptr : Nat)
    (aligned : offset % 256 = 0) (long : 32 ≤ length) (onChip : offset < chipSize) :
    world.chip.log ++ [.program offset (readRange world.ram ramptr 32)] <+:
      (world.run (doFlashWrite offset length ramptr)).2.chip.log := by
  unfold doFlashWrite
  rw [flashBringUp_run]
  refine List.IsPrefix.trans ?_ (World.run_bind_log _ (writeChunks offset length ramptr) _)
  rw [writeChunks, dif_pos (show length > 0 by omega)]
  dsimp only
  generalize size : (if length > 128 then 128 else length) = lenwrite
  have room : 32 ≤ lenwrite := by
    rw [← size]
    split <;> omega
  have loaded : world.broughtUp.run (Bus.issue (.load ramptr lenwrite)) =
      (some (readRange world.ram ramptr lenwrite), world.broughtUp) := by
    rw [← world.broughtUp_ram]
    rfl
  refine World.log_of_first loaded ?_
  refine List.IsPrefix.trans ?_ (World.run_bind_log _ (flashWriteData offset _) _)
  have begun : (readRange world.ram ramptr lenwrite).take 32 = readRange world.ram ramptr 32 := by
    rw [← Nat.add_sub_cancel' room, readRange_add, List.take_left' (readRange_length _ _ _)]
  have full : 32 ≤ (readRange world.ram ramptr lenwrite).length := by rwa [readRange_length]
  have head := flashWriteData_head world.broughtUp quadDriver_programs aligned full onChip
  rwa [begun, world.broughtUp_log] at head

/-- **The commands of an update**, with its answer: some erases from the start of the slot on, or
all of them and the image, its first 32 bytes in one program. -/
inductive Flashes (target : Nat) (image : List Byte) : Int → List Command → Prop
  | stopped (count : Nat) (bound : count ≤ sectorCount image.length) :
      Flashes target image (-1) (erases chipGeometry target count)
  | whole (programs : List Command)
      (streams : Streams chipGeometry target image 0 programs image.length)
      (head : [.program target (image.take 32)] <+: programs) :
      Flashes target image 0 (erases chipGeometry target (sectorCount image.length) ++ programs)

/-- What `flwrite` does to a slot. -/
theorem flwrite_commands (world : World) {target size ramaddr : Nat} {image : List Byte}
    (place : SlotPlace target size) (fits : image.length ≤ size) (long : 32 ≤ image.length)
    (source : readRange world.ram ramaddr image.length = image) :
    ∃ result commands after,
      world.run (flwrite target image.length ramaddr) = (some result, after) ∧
      Flashes target image result commands ∧ world.After commands after ∧
      (world.Silent → result = 0) := by
  have onChip := place.onChip
  have sectors := place.sectors_le fits
  have aligned : target % 4096 = 0 := Nat.mod_eq_zero_of_dvd place.aligned
  obtain ⟨count, result, erased, erases, cleared, -, bound, complete⟩ :=
    doFlashErase_run target image.length place.aligned (by omega) (by omega) world
  obtain ⟨result', erased', again, -, answers⟩ := doFlashErase_result target image.length world
  obtain ⟨rfl, rfl⟩ : result = result' ∧ erased = erased' := by
    rw [erases] at again
    simpa using again
  by_cases stopped : result = 0
  · subst stopped
    have all := complete (answers.mp rfl).2.2
    obtain ⟨programs, after, streams, runs, programmed, -⟩ :=
      doFlashWrite_run target image.length ramaddr (by omega) erased
    have head := doFlashWrite_head erased ramaddr (by omega) long (by omega : target < chipSize)
    rw [runs, programmed.log, List.prefix_append_right_inj, cleared.ram] at head
    have first : readRange world.ram ramaddr 32 = image.take 32 := by
      rw [← source, ← Nat.add_sub_cancel' long, readRange_add,
        List.take_left' (readRange_length _ _ _)]
    rw [first] at head
    rw [cleared.ram, source] at streams
    refine ⟨0, _, after, ?_, .whole programs streams head, all ▸ cleared.trans programmed,
      fun _ => rfl⟩
    refine (World.run_bind_of_eq erases).trans ?_
    rw [if_neg (not_not.mpr rfl)]
    exact runs
  · refine ⟨-1, _, erased, ?_, .stopped count bound, cleared, fun silent => ?_⟩
    · refine (World.run_bind_of_eq erases).trans ?_
      rw [if_pos stopped]
      rfl
    · exact absurd (answers.mpr ⟨aligned, by omega, silent.undisturbed _⟩) stopped

/-! ### What an interrupted update leaves -/

/-- An update stays inside its slot. -/
theorem Flashes.within {target size : Nat} {image : List Byte} {result : Int}
    {commands : List Command} (flashes : Flashes target image result commands)
    (place : SlotPlace target size) (fits : image.length ≤ size) :
    ∀ command ∈ commands, command.Within chipGeometry target (target + size) := by
  have sectors := place.sectors_le fits
  have erased (count : Nat) (bound : count ≤ sectorCount image.length) :
      ∀ command ∈ erases chipGeometry target count,
        command.Within chipGeometry target (target + size) :=
    NorFlash.erases_within place.aligned (show target + 4096 * count ≤ target + size by omega)
  cases flashes with
  | stopped count bound => exact erased count bound
  | whole programs streams head =>
      intro command member
      rcases List.mem_append.mp member with erase | program
      · exact erased _ le_rfl command erase
      · exact streams.within le_rfl (by omega) command program

/-- A stream whose first program holds 32 bytes reaches that far. -/
theorem streams_header {target reached : Nat} {image : List Byte} {rest : List Command}
    (streams : Streams chipGeometry target image 0 (.program target (image.take 32) :: rest)
      reached) (long : 32 ≤ image.length) : 32 ≤ reached := by
  generalize first : Command.program target (image.take 32) = command at streams
  generalize start : 0 = from' at streams
  cases streams with
  | next _ size _ _ bound _ following =>
      subst start
      injection first with _ pieces
      have sizes := congrArg List.length pieces
      rw [List.length_take, List.length_take, List.length_drop] at sizes
      have after := following.le
      omega

/-- The states of an interrupted update: some sectors erased, or all of them and a beginning of
the image programmed that holds the header. -/
theorem Flashes.of_prefix {target : Nat} {image : List Byte} {result : Int}
    {commands done : List Command} (flashes : Flashes target image result commands)
    (aligned : 4096 ∣ target) (long : 32 ≤ image.length) (isPrefix : done <+: commands)
    (before : Cells) :
    (∃ fewer ≤ sectorCount image.length,
      replay chipGeometry done before = blanked before target (target + 4096 * fewer)) ∨
    (∃ reached, 32 ≤ reached ∧ reached ≤ image.length ∧ replay chipGeometry done before =
      writeRange (blanked before target (target + 4096 * sectorCount image.length)) target
        (image.take reached)) := by
  have erased (fewer : Nat) : replay chipGeometry (erases chipGeometry target fewer) before =
      blanked before target (target + 4096 * fewer) :=
    NorFlash.replay_erases (show chipGeometry.sector ∣ target from aligned) before fewer
  cases flashes with
  | stopped count bound =>
      obtain ⟨fewer, less, rfl⟩ := NorFlash.erases_of_prefix isPrefix
      exact Or.inl ⟨fewer, less.trans bound, erased fewer⟩
  | whole programs streams head =>
      rcases List.prefix_or_prefix_of_prefix isPrefix (List.prefix_append _ _) with
        shorter | ⟨more, rfl⟩
      · obtain ⟨fewer, bound, rfl⟩ := NorFlash.erases_of_prefix shorter
        exact Or.inl ⟨fewer, bound, erased fewer⟩
      · have programmed := (List.prefix_append_right_inj _).mp isPrefix
        obtain ⟨tail, rfl⟩ := head
        rcases more with _ | ⟨first, more⟩
        · exact Or.inl ⟨_, le_rfl, by rw [List.append_nil]; exact erased _⟩
        · obtain ⟨rfl, -⟩ := List.cons_prefix_cons.mp programmed
          obtain ⟨reached, bound, streamed⟩ := streams.of_prefix programmed
          refine Or.inr ⟨reached, streams_header streamed long, bound, ?_⟩
          have replayed := streamed.replay
            (blanked before target (target + 4096 * sectorCount image.length))
          rw [List.take_zero, NorFlash.overlay_nil, NorFlash.overlay_of_blank fun x low high =>
            NorFlash.blanked_inside _ low (by
              rw [List.length_take] at high
              unfold sectorCount
              omega)] at replayed
          rw [NorFlash.replay_append, erased, replayed]

section Image

variable {hash : List Byte → Digest} {flag : Byte} {codes : List Byte} {before : Cells}
  {target size : Nat}

/-- An interrupted update leaves the slot as it was, or a torn copy of the new image. -/
theorem Flashes.interrupted {result : Int} {commands done : List Command}
    (flashes : Flashes target (imageOf hash flag codes) result commands)
    (place : SlotPlace target size) (fits : 37 + codes.length ≤ size)
    (isPrefix : done <+: commands) :
    replay chipGeometry done before = before ∨
      ∃ reached cleared, Torn (writeRange before target (imageOf hash flag codes)) target target
        reached cleared (replay chipGeometry done before) := by
  have onChip := place.onChip
  have length := imageOf_length hash flag codes
  have small : codes.length < 2 ^ 32 := lt_of_le_of_lt (by omega) (by decide : chipSize < 2 ^ 32)
  have holds : Holds (writeRange before target (imageOf hash flag codes)) target hash flag codes :=
    Holds.stored (by omega)
  have whole : imageLength (writeRange before target (imageOf hash flag codes)) target =
      37 + codes.length := by
    rw [imageLength, (holds.parts small).2.2.1]
  have covers : 37 + codes.length ≤ 4096 * sectorCount (imageOf hash flag codes).length := by
    unfold sectorCount
    omega
  rcases flashes.of_prefix place.aligned (by omega) isPrefix before with
    ⟨fewer, bound, state⟩ | ⟨reached, header, bound, state⟩
  · rcases Nat.eq_zero_or_pos fewer with rfl | some
    · rw [Nat.mul_zero, Nat.add_zero, NorFlash.blanked_empty] at state
      exact Or.inl state
    · refine Or.inr ⟨0, 4096 * fewer, rfl, fun x low high => ?_, Or.inl (by omega), by omega,
        by omega⟩
      rw [state]
      exact NorFlash.blanked_inside _ low high
  · have taken : ((imageOf hash flag codes).take reached).length = reached :=
      List.length_take_of_le bound
    refine Or.inr ⟨reached, _, ?_, fun x low high => ?_, Or.inr (by omega), ?_,
      fun _ => whole.trans_le covers⟩
    · have begun : flashBytes (writeRange before target (imageOf hash flag codes)) target reached =
          (imageOf hash flag codes).take reached := by
        have split := holds
        rw [Holds, ← length, ← Nat.add_sub_cancel' bound, flashBytes_add] at split
        have first := congrArg (List.take reached) split
        rwa [List.take_left' (flashBytes_length _ _ _)] at first
      have stored := readRange_writeRange_self
        (blanked before target (target + 4096 * sectorCount (imageOf hash flag codes).length))
        target ((imageOf hash flag codes).take reached)
      rw [taken] at stored
      rw [state, flashBytes_plain _ (by omega), stored, begun]
    · rw [state, writeRange_outside _ (Or.inr (by omega))]
      exact NorFlash.blanked_inside _ (by omega) high
    · unfold sectorCount
      omega

end Image

/-- The stored hash of a torn copy: a beginning of the hash, followed by erased cells. -/
theorem Torn.storedHash_eq {original cells : Cells} {source reached cleared target size : Nat}
    (torn : Torn original source target reached cleared cells) (place : SlotPlace target size)
    (fits : Fits original source size) (long : 5 ≤ reached) :
    ∃ count ≤ 32, storedHash cells target = (storedHash original source).take count ++
      List.replicate (32 - count) blank := by
  obtain ⟨-, length⟩ := torn.header_copied long
  have image := place.image_le fits
  have onChip := place.onChip
  have covers := torn.covers long
  unfold imageLength at image covers
  have piece (part : Nat) (inside : part ≤ 32)
      (copied : flashBytes cells (target + 5 + codesLength original source) part =
        flashBytes original (source + 5 + codesLength original source) part)
      (rest : reached ≤ 5 + codesLength original source + part ∨ part = 32) :
      storedHash cells target = (storedHash original source).take part ++
        List.replicate (32 - part) blank := by
    have split : flashSha256Len = part + (32 - part) := by
      unfold flashSha256Len
      omega
    rw [storedHash, storedHash, length, split, flashBytes_add, flashBytes_add, copied,
      List.take_left' (flashBytes_length _ _ _)]
    refine congrArg _ (flashBytes_blank (by omega) fun x low high => torn.erased x ?_ ?_)
    · omega
    · omega
  rcases Nat.lt_or_ge reached (5 + codesLength original source + 32) with short | full
  · refine ⟨reached - (5 + codesLength original source), by omega,
      piece _ (by omega) ?_ (Or.inl (by omega))⟩
    rw [Nat.add_assoc, Nat.add_assoc]
    rcases Nat.lt_or_ge reached (5 + codesLength original source) with none | some
    · rw [Nat.sub_eq_zero_of_le none.le]
      rfl
    · exact flashBytes_part torn.copied (by omega)
  · refine ⟨32, le_rfl, piece 32 le_rfl ?_ (Or.inr rfl)⟩
    rw [Nat.add_assoc, Nat.add_assoc]
    exact flashBytes_part torn.copied (by omega)

/-! ### Histories -/

/-- The stored hash of the image that is kept is not all ones, and no beginning of the new hash,
followed by ones, reads as it, unless the two hashes are the same. -/
structure Distinct (stored kept : List Byte) : Prop where
  inked : kept ≠ List.replicate 32 blank
  apart : ∀ count ≤ 32, kept = stored.take count ++ List.replicate (32 - count) blank →
    kept = stored

/-- **An update**, from power-on to a power failure after `count` operations: `flwrite` of an image
whose encrypted payload has whole blocks, into one slot, while the other slot is valid. -/
def Updated (hash : List Byte → Digest) (stage : Stage) (before after : Cells) : Prop :=
  ∃ (world : World) (count ramaddr target kept : Nat) (flag : Byte) (codes : List Byte),
    world.chip.cells = before ∧ world.chip.log = [] ∧
    (target = stage.flashAppAddr ∧ kept = stage.flashBakAddr ∨
      target = stage.flashBakAddr ∧ kept = stage.flashAppAddr) ∧
    37 + codes.length ≤ stage.flashNextSize ∧ (flag &&& 1#8 = 1#8 → 16 ∣ codes.length) ∧
    readRange world.ram ramaddr (37 + codes.length) = imageOf hash flag codes ∧
    Valid before kept hash stage.flashNextSize ∧
    Distinct (hash (signedOf flag codes)).bytes (storedHash before kept) ∧
    after =
      (Prog.cut World.step count (flwrite target (37 + codes.length) ramaddr) world).chip.cells

section Invariant

variable {hash : List Byte → Digest} {stage : Stage} {flag : Byte} {codes : List Byte}
  {before written cells : Cells} {target kept reached cleared : Nat}

/-- The slots of an update. -/
theorem update_places
    (sides : target = stage.flashAppAddr ∧ kept = stage.flashBakAddr ∨
      target = stage.flashBakAddr ∧ kept = stage.flashAppAddr) :
    SlotPlace target stage.flashNextSize ∧ SlotPlace kept stage.flashNextSize ∧
      (kept + stage.flashNextSize ≤ target ∨ target + stage.flashNextSize ≤ kept) := by
  have apart := stage.apart
  rcases sides with ⟨rfl, rfl⟩ | ⟨rfl, rfl⟩
  · exact ⟨stage.appPlace, stage.bakPlace, Or.inr apart⟩
  · exact ⟨stage.bakPlace, stage.appPlace, Or.inl apart⟩

/-- **A torn update still boots**: BAK with another hash than APP, or APP. -/
theorem Torn.updated (bootable : Bootable hash stage before)
    (sides : target = stage.flashAppAddr ∧ kept = stage.flashBakAddr ∨
      target = stage.flashBakAddr ∧ kept = stage.flashAppAddr)
    (valid : Valid before kept hash stage.flashNextSize)
    (same : Identical cells kept before kept)
    (torn : Torn written target target reached cleared cells)
    (holds : Holds written target hash flag codes)
    (fits : 37 + codes.length ≤ stage.flashNextSize)
    (blocks : flag &&& 1#8 = 1#8 → 16 ∣ codes.length)
    (distinct : Distinct (hash (signedOf flag codes)).bytes (storedHash before kept)) :
    Bootable hash stage cells := by
  obtain ⟨place, keptPlace, -⟩ := update_places sides
  have onChip := place.onChip
  have small : codes.length < 2 ^ 32 := lt_of_le_of_lt (by omega) (by decide : chipSize < 2 ^ 32)
  have stored := (holds.parts small).2.2.2.2
  have new := holds.valid fits small
  have newBlocks : WholeBlocks written target hash stage.flashNextSize :=
    holds.wholeBlocks small blocks
  have keptBlocks := same.wholeBlocks (bootable.blocks kept (by
    rcases sides with ⟨-, rfl⟩ | ⟨-, rfl⟩ <;> simp [Stage.slots]))
  have tornBlocks := torn.wholeBlocks place new newBlocks
  have still := (same.valid hash _).mpr valid
  have wholeBlocks : ∀ slot ∈ stage.slots, WholeBlocks cells slot hash stage.flashNextSize := by
    intro slot member
    rcases sides with ⟨rfl, rfl⟩ | ⟨rfl, rfl⟩ <;>
      rcases List.mem_pair.mp member with rfl | rfl <;> assumption
  refine ⟨wholeBlocks, ?_⟩
  rcases sides with ⟨rfl, rfl⟩ | ⟨rfl, rfl⟩
  · by_cases echo : storedHash cells stage.flashAppAddr = storedHash before stage.flashBakAddr
    · rcases torn.header with short | long
      · rw [torn.hash_of_blank place short] at echo
        exact absurd echo.symm distinct.inked
      · -- the hash of BAK reads as a beginning of the new one, so it is the new one
        obtain ⟨count, bound, read⟩ := torn.storedHash_eq place new.fits long
        rw [echo, stored] at read
        have equal := distinct.apart count bound read
        have copy := torn.identical_of_hash place new.fits long (by rw [echo, equal, stored])
          (by rw [stored, ← equal]; exact distinct.inked)
        exact Or.inl ((copy.valid hash _).mpr new)
    · rw [same.hashes]
      exact Or.inr ⟨still, echo, distinct.inked⟩
  · exact Or.inl still

end Invariant

/-- What a failure leaves of an update: the cells as they were, or a torn copy of the new image. -/
theorem Updated.leaves {hash : List Byte → Digest} {stage : Stage} {before after : Cells}
    (updated : Updated hash stage before after) :
    after = before ∨ ∃ target kept flag codes reached cleared,
      (target = stage.flashAppAddr ∧ kept = stage.flashBakAddr ∨
        target = stage.flashBakAddr ∧ kept = stage.flashAppAddr) ∧
      37 + codes.length ≤ stage.flashNextSize ∧ (flag &&& 1#8 = 1#8 → 16 ∣ codes.length) ∧
      Valid before kept hash stage.flashNextSize ∧
      Distinct (hash (signedOf flag codes)).bytes (storedHash before kept) ∧
      Torn (writeRange before target (imageOf hash flag codes)) target target reached cleared
        after ∧
      ∀ x, x < target ∨ target + stage.flashNextSize ≤ x → after x = before x := by
  obtain ⟨world, count, ramaddr, target, kept, flag, codes, rfl, powerOn, sides, fits, blocks,
    source, valid, distinct, rfl⟩ := updated
  obtain ⟨place, -, -⟩ := update_places sides
  have length := imageOf_length hash flag codes
  rw [← length] at source ⊢
  obtain ⟨result, commands, last, runs, flashes, did, -⟩ :=
    flwrite_commands world place (by omega) (by omega) source
  obtain ⟨done, isPrefix, state⟩ := cut_commands
    (flwrite target (imageOf hash flag codes).length ramaddr) powerOn count
  rw [runs, did.log, powerOn, List.nil_append] at isPrefix
  rw [state]
  rcases flashes.interrupted place fits isPrefix with same | ⟨reached, cleared, torn⟩
  · exact Or.inl same
  · exact Or.inr ⟨target, kept, flag, codes, reached, cleared, sides, fits, blocks, valid,
      distinct, torn, fun x far => NorFlash.replay_outside
        (fun command member => flashes.within place (by omega) command (isPrefix.subset member))
        _ far⟩

/-- **Every interrupted update keeps the invariant.** -/
theorem Updated.bootable {hash : List Byte → Digest} {stage : Stage} {before after : Cells}
    (updated : Updated hash stage before after) (bootable : Bootable hash stage before) :
    Bootable hash stage after := by
  rcases updated.leaves with same | ⟨target, kept, flag, codes, reached, cleared, sides, fits,
    blocks, valid, distinct, torn, outside⟩
  · rwa [same]
  · obtain ⟨place, keptPlace, apart⟩ := update_places sides
    have onChip := place.onChip
    exact torn.updated bootable sides valid (keptPlace.keeps apart valid.fits outside)
      (Holds.stored (by omega)) fits blocks distinct

/-- **Updates and runs of `main`**, each interrupted or not, in any order. -/
def Lived (engines : Engines) (hash : List Byte → Digest) (stage : Stage) (before after : Cells) :
    Prop :=
  Interrupted engines stage before after ∨ Updated hash stage before after

section Whole

variable {engines : Engines} {hash : List Byte → Digest} {stage : Stage} {flag : Byte}
  {codes : List Byte}

/-- A copy of an image that a slot holds. -/
theorem Slot.Identical.holds {cells original : Cells} {copy slot : Nat}
    (same : Identical cells copy original slot) (holds : Holds original slot hash flag codes)
    (small : codes.length < 2 ^ 32) : Holds cells copy hash flag codes := by
  rw [Identical, imageLength, (holds.parts small).2.2.1] at same
  exact same.trans holds

end Whole

end K210Guard
