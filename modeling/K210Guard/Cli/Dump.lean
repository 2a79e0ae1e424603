/-
**Dumps** (`print_buffer`, `do_md` and `do_fldump`, `cli/command.c`).

Both commands print the bytes of a range in rows of sixteen, and poll for Ctrl-C behind each row.

* `printLines_run`: the rows that are printed, up to the one a Ctrl-C stops behind.
* `md_dumps`, `fldump_dumps`: the text on the terminal can be read back as the rows of the RAM or of
  the chip. `do_fldump` calls `print_buffer` for each row and ignores what it returns.
-/

import K210Guard.Cli.Console
import K210Guard.Cli.DumpText
import K210Guard.Flash.DriverSpec

namespace K210Guard

open Printf (Piece)

/-! ### The formats -/

section Formats

/-- `%08X:` -/
def addressFormat : List Piece :=
  [.directive ⟨[.zero], some (.digits 8 (by decide)), .none, .none, .upperX, by
    rintro n fits ⟨⟩
    decide⟩, .char 0x3A (by decide)]

/-- ` %0*x` -/
def valueFormat : List Piece :=
  [.char 0x20 (by decide), .directive ⟨[.zero], some .star, .none, .none, .x, Printf.star_positive⟩]

def blankFormat : List Piece := [.char 0x20 (by decide)]

/-- `    %s`, with its newline -/
def textFormat : List Piece :=
  List.replicate 4 (.char 0x20 (by decide)) ++
    [.directive ⟨[], none, .none, .none, .s, Printf.none_positive⟩, .char 0x0A (by decide)]

def newlineFormat : List Piece := [.char 0x0A (by decide)]

theorem addressFormat_spell : formatBytes "%08X:" = Printf.spell addressFormat := by
  decide +kernel

theorem valueFormat_spell : formatBytes " %0*x" = Printf.spell valueFormat := by
  decide +kernel

theorem blankFormat_spell : formatBytes " " = Printf.spell blankFormat := by
  decide +kernel

theorem textFormat_spell : formatBytes "    %s\n" = Printf.spell textFormat := by
  decide +kernel

theorem newlineFormat_spell : formatBytes "\n" = Printf.spell newlineFormat := by
  decide +kernel

/-- A number with zeros in front. -/
theorem number_zeros (uc : Bool) (width n : Nat) :
    ({ lz := true, uc := uc, width := width } : Printf.Param).number 16 n =
      hexText uc width n := by
  have digits : 1 ≤ (Printf.textOf 16 uc n).length := by
    rw [Printf.textOf, List.length_map, Printf.digitsOf]
    split
    · exact Nat.le_refl _
    · rename_i nonzero
      rw [List.length_reverse]
      exact List.length_pos_iff.mpr (Nat.digits_ne_nil_iff_ne_zero.mpr nonzero)
  have body : List.leftpad 1 0x30 (Printf.textOf 16 uc n) = Printf.textOf 16 uc n := by
    simp [List.leftpad, Nat.sub_eq_zero_of_le digits]
  rw [Printf.Param.number, if_neg (by omega), Int.natAbs_natCast]
  show List.leftpad (width - 0) 0x30 (List.leftpad 1 0x30 (Printf.textOf 16 uc n)) = _
  rw [body]
  rfl

/-- The low word of a number that fits it. -/
theorem arg_low {n : Nat} (fits : n < 2 ^ 32) : (BitVec.ofNat 64 n).toNat % 2 ^ 32 = n := by
  rw [BitVec.toNat_ofNat]
  omega

theorem addressFormat_prints {addr : Nat} (fits : addr < 2 ^ 32) :
    Printf.print 0 addressFormat ([PrintArg.num addr].map PrintArg.arg) =
      some (hexText true 8 addr ++ [0x3A]) := by
  have prints (value : BitVec 64) : Printf.print 0 addressFormat [.word value] =
      some (({ lz := true, uc := true, width := (8 : Nat) } : Printf.Param).number 16
        (value.toNat % 2 ^ 32 : Nat) ++ [0x3A]) := rfl
  have printed := prints (BitVec.ofNat 64 addr)
  rw [arg_low fits, number_zeros] at printed
  exact printed

theorem valueFormat_prints (byte : Byte) :
    Printf.print 0 valueFormat ([PrintArg.num 2, .num byte.toNat].map PrintArg.arg) =
      some (column byte) := by
  have prints (value : BitVec 64) : Printf.print 0 valueFormat [.word 2, .word value] =
      some (0x20 :: (({ lz := true, width := (2 : Nat) } : Printf.Param).number 16
        (value.toNat % 2 ^ 32 : Nat) ++ [])) := rfl
  have fits : byte.toNat < 2 ^ 32 := byte.isLt.trans (by decide)
  have printed := prints (BitVec.ofNat 64 byte.toNat)
  rw [arg_low fits, number_zeros, List.append_nil] at printed
  exact printed

theorem textFormat_prints {bytes : List Byte} (short : bytes.length ≤ 16) :
    Printf.print 0 textFormat ([PrintArg.str (bytes.map asciiChar)].map PrintArg.arg) =
      some (List.replicate 4 0x20 ++ bytes.map asciiByte ++ [0x0A]) := by
  have good : ¬ ((bytes.map asciiByte).contains 0 ∨
      2 ^ 31 - 1 ≤ (bytes.map asciiByte).length) := by
    have nonzero : ∀ byte, asciiByte byte ≠ 0 := by decide +kernel
    rw [List.length_map]
    rintro (zero | long)
    · obtain ⟨byte, -, same⟩ := List.mem_map.mp (List.contains_iff_mem.mp zero)
      exact nonzero byte same
    · omega
  have shown : (bytes.map asciiChar).map (fun c => BitVec.ofNat 8 c.toNat) =
      bytes.map asciiByte := by
    rw [List.map_map]
    rfl
  have text : Printf.Conv.print .none ({} : Printf.Param) [.text (bytes.map asciiByte)] .s =
      some (bytes.map asciiByte, []) := by
    show (if _ then none else _) = _
    rw [if_neg good]
    simp [Printf.Param.field, Printf.Param.front, Printf.Param.body, Printf.Param.signOf,
      Printf.Param.prefixOf, List.leftpad]
  show Printf.print 0 textFormat [.text ((bytes.map asciiChar).map _)] = _
  rw [shown]
  have directive : Printf.Directive.print ⟨[], none, .none, .none, .s, Printf.none_positive⟩ 0
      [.text (bytes.map asciiByte)] = some (bytes.map asciiByte, []) := text
  rw [textFormat]
  simp only [List.replicate, List.cons_append, List.nil_append, Printf.print_char,
    Printf.print_directive directive]
  rfl

end Formats

/-! ### The rows -/

/-- The rows of a range that starts at an address; addresses wrap around at 2^32. -/
def dumpRows (addr : Nat) (data : List Byte) : List (Nat × List Byte) :=
  (groups 16 data).zipIdx.map fun (piece, i) => (u32 (addr + 16 * i), piece)

section Rows

variable {addr : Nat} {data : List Byte}

theorem dumpRows_nil (addr : Nat) : dumpRows addr [] = [] := by
  rw [dumpRows, groups_nil]
  rfl

/-- The first row and the others. -/
theorem dumpRows_more (addr : Nat) (more : data ≠ []) :
    dumpRows addr data =
      (u32 addr, data.take 16) :: dumpRows (addr + 16) (data.drop 16) := by
  rw [dumpRows, groups_more (by decide) more, List.zipIdx_cons, List.map_cons, List.zipIdx_succ,
    List.map_map]
  refine congrArg _ (List.map_congr_left fun ⟨piece, i⟩ _ => Prod.ext ?_ rfl)
  show u32 (addr + 16 * (i + 1)) = u32 (addr + 16 + 16 * i)
  exact congrArg u32 (by ring)

theorem dumpRows_u32 (addr : Nat) (data : List Byte) :
    dumpRows (u32 addr) data = dumpRows addr data := by
  refine List.map_congr_left fun ⟨piece, i⟩ _ => Prod.ext ?_ rfl
  show u32 (u32 addr + 16 * i) = u32 (addr + 16 * i)
  rw [u32, u32, u32, Nat.mod_add_mod]

theorem dumpRows_fit (addr : Nat) (data : List Byte) : ∀ row ∈ dumpRows addr data, RowFits row := by
  intro row member
  obtain ⟨⟨piece, i⟩, among, rfl⟩ := List.mem_map.mp member
  exact ⟨Nat.mod_lt _ (by decide), length_le_of_mem_groups (List.fst_mem_of_mem_zipIdx among)⟩

end Rows

/-! ### Printing a row -/

section Printing

variable {download : Download} {fetch : Nat → CmdProgram (List Byte)}
  {data : List Byte} {world : World}

/-- `fetch` gives the bytes of a range, and does nothing else. -/
def Fetches (download : Download) (fetch : Nat → CmdProgram (List Byte))
    (data : List Byte) (world : World) : Prop :=
  ∀ offset byte, data[offset]? = some byte → ∀ printed,
    Console.run download ⟨world, printed⟩ (fetch offset) = (some [byte], ⟨world, printed⟩)

/-- **The columns of a row**: the bytes of the range from `i` on. -/
theorem printValues_run (fetches : Fetches download fetch data world) (i : Nat) (bytes : List Byte)
    (inside : bytes <+: data.drop i) (before : List Byte) :
    Console.run download ⟨world, some before⟩ (printValues fetch 1 i bytes.length) =
      (some bytes, ⟨world, some (before ++ bytes.flatMap column)⟩) := by
  induction bytes generalizing i before with
  | nil => simp [printValues]; rfl
  | cons byte bytes ih =>
      obtain ⟨rest, split⟩ := inside
      have here : data[i]? = some byte := by
        rw [← List.head?_drop, ← split]
        rfl
      have later : bytes <+: data.drop (i + 1) :=
        ⟨rest, by rw [← List.tail_drop, ← split]; rfl⟩
      rw [List.length_cons, printValues, Nat.mul_one]
      refine (Prog.run_bind_of_eq _ (fetches i byte here _)).trans ?_
      refine (printk_spell download valueFormat_spell (by decide) (valueFormat_prints byte) world
        before _).trans ?_
      refine (Prog.run_bind_of_eq _ (ih (i + 1) later _)).trans ?_
      rw [List.flatMap_cons, List.append_assoc]
      rfl

/-- The blanks of a row. -/
theorem printBlanks_run (count : Nat) (before : List Byte) :
    Console.run download ⟨world, some before⟩ (printBlanks count) =
      (some (), ⟨world, some (before ++ List.replicate count 0x20)⟩) := by
  induction count generalizing before with
  | zero => simp [printBlanks]; rfl
  | succ count ih =>
      rw [printBlanks]
      have blank : Printf.print 0 blankFormat (([] : List PrintArg).map PrintArg.arg) =
          some [0x20] := rfl
      refine (printk_spell download blankFormat_spell (by decide) blank world before _).trans ?_
      rw [ih, List.replicate_succ, List.append_assoc]
      rfl

/-! ### The loop -/

/-- The machine after some polls of the receiver. -/
def World.afterPolls (world : World) (count : Nat) : World :=
  { world with uart := { world.uart with polls := world.uart.polls + count } }

theorem World.polled_afterPolls (world : World) (count : Nat) :
    world.polled.afterPolls count = world.afterPolls (count + 1) := by
  rw [afterPolls, afterPolls, Nat.add_comm count 1, ← Nat.add_assoc]
  rfl

theorem World.afterPolls_add (world : World) (first second : Nat) :
    (world.afterPolls first).afterPolls second = world.afterPolls (first + second) := by
  rw [afterPolls, afterPolls, afterPolls, ← Nat.add_assoc]

/-- Out of `total` rows with a poll behind each, `shown` are printed: a Ctrl-C at a poll stops the
rows behind it. -/
structure World.Shows (world : World) (total shown : Nat) : Prop where
  within : shown ≤ total
  quiet : world.Undisturbed (shown - 1)
  ended : shown = total ∨ 0 < shown ∧
    world.uart.received (world.uart.polls + (shown - 1)) = some 0x03#8

/-- Without a Ctrl-C all rows are printed. -/
theorem World.Shows.all {total shown : Nat} (shows' : world.Shows total shown)
    (quiet : world.Undisturbed total) : shown = total := by
  obtain whole | ⟨positive, stopped⟩ := shows'.ended
  · exact whole
  · have within := shows'.within
    exact absurd stopped (quiet (shown - 1) (by omega))

/-- A Ctrl-C behind the first row. -/
theorem World.Shows.one {total : Nat} (stopped : world.uart.holds = some 0x03#8) :
    world.Shows (total + 1) 1 :=
  ⟨Nat.succ_le_succ (Nat.zero_le total), fun _ bound => absurd bound (Nat.not_lt_zero _),
    .inr ⟨Nat.one_pos, stopped⟩⟩

/-- A row without a Ctrl-C behind it, and the others. -/
theorem World.Shows.succ {total shown : Nat} (silent : world.uart.holds ≠ some 0x03#8)
    (rest : world.polled.Shows total shown) : world.Shows (total + 1) (shown + 1) := by
  refine ⟨Nat.succ_le_succ rest.within, ?_, ?_⟩
  · cases shown with
    | zero => exact fun _ bound => absurd bound (Nat.not_lt_zero _)
    | succ shown => exact (world.undisturbed_succ shown).mpr ⟨silent, rest.quiet⟩
  · obtain whole | ⟨positive, stopped⟩ := rest.ended
    · exact .inl (congrArg Nat.succ whole)
    · refine .inr ⟨Nat.succ_pos shown, ?_⟩
      rw [← stopped]
      show world.uart.received _ = world.uart.received (world.uart.polls + 1 + (shown - 1))
      exact congrArg _ (by omega)

/-- A row is printed. -/
theorem printRow_run {β : Type} (fetches : Fetches download fetch data world) {addr : Nat}
    (fits : addr < 2 ^ 32) {i : Nat} {bytes : List Byte} (inside : bytes <+: data.drop i)
    (short : bytes.length ≤ 16) (before : List Byte) (rest : CmdProgram β) :
    Console.run download ⟨world, some before⟩ (do
      printk "%08X:" [.num addr]
      let row ← printValues fetch 1 i bytes.length
      printBlanks ((16 - bytes.length) * (1 * 2 + 1))
      printk "    %s\n" [.str (row.map asciiChar)]
      rest) = Console.run download ⟨world, some (before ++ rowText (addr, bytes))⟩ rest := by
  refine (printk_spell download addressFormat_spell (by decide) (addressFormat_prints fits) world
    before _).trans ?_
  refine (Prog.run_bind_of_eq _ (printValues_run fetches i bytes inside _)).trans ?_
  refine (Prog.run_bind_of_eq _ (printBlanks_run _ _)).trans ?_
  refine (printk_spell download textFormat_spell (by decide) (textFormat_prints short) world _
    _).trans ?_
  simp [rowText, rowBody]

/-- **The rows that are printed**, from byte `i` on. -/
theorem printLines_run (fetches : ∀ polls, Fetches download fetch data (world.afterPolls polls))
    (addr shown i count : Nat) (start : count ≠ 0 → shown = u32 addr)
    (whole : i + count = data.length) (before : List Byte) :
    ∃ rcode rows, world.Shows (dumpRows addr (data.drop i)).length rows ∧
      Console.run download ⟨world, some before⟩ (printLines fetch 1 16 shown i count) =
        (some rcode, ⟨world.afterPolls rows,
          some (before ++ ((dumpRows addr (data.drop i)).take rows).flatMap rowText)⟩) := by
  induction count using Nat.strong_induction_on generalizing world addr shown i before with
  | _ count ih =>
      rw [printLines]
      by_cases done : count = 0
      · rw [dif_pos done, List.drop_of_length_le (by omega), dumpRows_nil]
        refine ⟨0, 0, ⟨Nat.le_refl 0, fun _ bound => absurd bound (Nat.not_lt_zero _),
          .inl rfl⟩, ?_⟩
        rw [List.take_nil, List.flatMap_nil, List.append_nil]
        rfl
      rw [dif_neg done, dif_neg (by decide)]
      generalize piece : (data.drop i).take 16 = bytes
      have length : (if count < 16 then count else 16) = bytes.length := by
        rw [← piece, List.length_take, List.length_drop]
        split <;> omega
      have more : data.drop i ≠ [] := by
        rw [← List.length_pos_iff, List.length_drop]
        omega
      have same := start done
      have fits : shown < 2 ^ 32 := same ▸ Nat.mod_lt addr (by decide)
      have printed := printRow_run (fetches 0) fits (piece ▸ List.take_prefix 16 _)
        (piece ▸ List.length_take_le 16 _) before (β := Int)
      rw [dumpRows_more addr more, piece, ← same]
      dsimp only
      rw [length]
      by_cases stopped : world.uart.holds = some 0x03#8
      · refine ⟨-1, 1, .one stopped, (printed _).trans ?_⟩
        refine (onBus_bind download (uartCtrlc_run world) _ _).trans ?_
        rw [decide_eq_true stopped, if_pos rfl]
        simp
        rfl
      · have size : bytes.length = min count 16 := by
          rw [← length]
          split <;> omega
        have behind : (data.drop i).drop 16 = data.drop (i + bytes.length) := by
          rw [List.drop_drop]
          by_cases full : bytes.length = 16
          · rw [full]
          · rw [List.drop_of_length_le (by omega), List.drop_of_length_le (by omega)]
        have next : count - bytes.length ≠ 0 →
            u32 (shown + bytes.length * 1) = u32 (addr + 16) := by
          intro more
          have full : bytes.length = 16 := by omega
          rw [full, same, u32, u32, u32, Nat.mod_add_mod]
        have later (polls : Nat) : Fetches download fetch data (world.polled.afterPolls polls) :=
          world.polled_afterPolls polls ▸ fetches (polls + 1)
        obtain ⟨rcode, rows, shows', runs⟩ := ih (count - bytes.length) (by omega) later
          (addr + 16) (u32 (shown + bytes.length * 1)) (i + bytes.length) next (by omega)
          (before ++ rowText (shown, bytes))
        refine ⟨rcode, rows + 1, .succ stopped (behind ▸ shows'), (printed _).trans ?_⟩
        refine (onBus_bind download (uartCtrlc_run world) _ _).trans ?_
        rw [decide_eq_false stopped, if_neg Bool.false_ne_true, runs, behind,
          World.polled_afterPolls, List.take_succ_cons, List.flatMap_cons, List.append_assoc]

/-- `print_buffer` with a width of 1 and lines of 16 values. -/
theorem printBuffer_run (fetches : ∀ polls, Fetches download fetch data (world.afterPolls polls))
    (addr : Nat) (before : List Byte) :
    ∃ rcode rows, world.Shows (dumpRows addr data).length rows ∧
      Console.run download ⟨world, some before⟩
          (printBuffer (u32 addr) fetch 1 data.length 16) =
        (some rcode, ⟨world.afterPolls rows,
          some (before ++ ((dumpRows addr data).take rows).flatMap rowText)⟩) :=
  printLines_run fetches addr (u32 addr) 0 data.length (fun _ => rfl) (Nat.zero_add _) before

end Printing

/-! ### `md` -/

section Commands

variable {download : Download} {argv : Argv} {β : Type}

/-- The bytes of the RAM, one load each. -/
theorem load_fetches (world : World) (start count : Nat) :
    Fetches download (fun offset => onBus (Bus.issue (.load (start + offset) 1)))
      (readRange world.ram start count) world := by
  intro offset byte here printed
  obtain ⟨inside, same⟩ := List.getElem?_eq_some_iff.mp here
  rw [getElem_readRange] at same
  refine (onBus_run download _ world printed).trans ?_
  show (some (readRange world.ram (start + offset) 1), _) = _
  rw [readRange_succ, readRange_zero, same]
  rfl

/-- **`md` shows the RAM**: the text on the terminal is read back as rows of the range, from its
start to its end or to the row that a Ctrl-C stops behind; nothing but the receiver has changed. -/
theorem md_dumps (download : Download) (world : World) (argv : Argv)
    (ramaddr length : Nat) (first : argv.Spells 1 ramaddr) (second : argv.Spells 2 length) :
    ∃ text rows,
      Console.run download ⟨world, some []⟩ (doMd argv) =
        (some 0, ⟨world.afterPolls rows, some text⟩) ∧
      readDump text =
        (dumpRows ramaddr (readRange world.ram ramaddr (u32 length))).take rows ∧
      world.Shows (dumpRows ramaddr (readRange world.ram ramaddr (u32 length))).length rows ∧
      (world.Silent →
        readDump text = dumpRows ramaddr (readRange world.ram ramaddr (u32 length))) := by
  have fetches (polls : Nat) : Fetches download _ (readRange world.ram ramaddr (u32 length))
      (world.afterPolls polls) := load_fetches (world.afterPolls polls) ramaddr (u32 length)
  obtain ⟨rcode, rows, shows', runs⟩ := printBuffer_run fetches ramaddr []
  have fit : ∀ row ∈ (dumpRows ramaddr (readRange world.ram ramaddr (u32 length))).take rows,
      RowFits row := fun row member => dumpRows_fit ramaddr _ row (List.mem_of_mem_take member)
  refine ⟨_, rows, ?_, readDump_text fit, shows', fun silent => ?_⟩
  · refine (argument_spells download first _ _).trans ((argument_spells download second _ _).trans
      ((argument_spells download first _ _).trans ?_))
    rw [readRange_length] at runs
    exact Prog.run_bind_of_eq _ runs
  · rw [readDump_text fit, shows'.all (silent.undisturbed _), List.take_length]

/-- Eighteen bytes of the RAM at 0x80000000. -/
theorem md_dumps_eighteen :
    ∃ text rows,
      Console.run (fun _ world => (-1, world.ram, world.uart)) ⟨World.powerOn u8, some []⟩
          (doMd fun i => .word (if i = 1 then "80000000".toList else "12".toList)) =
        (some 0, ⟨(World.powerOn u8).afterPolls rows, some text⟩) ∧
      readDump text = (dumpRows 0x80000000 (readRange (World.powerOn u8).ram 0x80000000
        (u32 18))).take rows ∧
      (World.powerOn u8).Shows (dumpRows 0x80000000 (readRange (World.powerOn u8).ram 0x80000000
        (u32 18))).length rows ∧
      ((World.powerOn u8).Silent → readDump text = dumpRows 0x80000000
        (readRange (World.powerOn u8).ram 0x80000000 (u32 18))) :=
  md_dumps _ _ _ 0x80000000 18 ⟨_, rfl, by decide +kernel⟩ ⟨_, rfl, by decide +kernel⟩

/-! ### `fldump` -/

/-- A single row is printed whatever the receiver holds. -/
theorem World.Shows.single {world : World} {rows : Nat} (shows' : world.Shows 1 rows) :
    rows = 1 := by
  have within := shows'.within
  obtain whole | ⟨positive, -⟩ := shows'.ended
  · exact whole
  · omega

theorem Chip.read_length (chip : Chip) (addr length : Nat) :
    (chip.read addr length).length = length := readRange_length _ _ _

/-- The bytes of a buffer. -/
theorem buffer_fetches (buf : List Byte) (world : World) :
    Fetches download (fun offset => pure ((buf.drop offset).take 1)) buf world := by
  intro offset byte here printed
  obtain ⟨inside, same⟩ := List.getElem?_eq_some_iff.mp here
  have single : (buf.drop offset).take 1 = [byte] := by
    rw [List.drop_eq_getElem_cons inside, same]
    rfl
  show (some ((buf.drop offset).take 1), _) = _
  rw [single]

/-- A row of the chip. -/
theorem dumpRow_run (download : Download) {world : World} (spi3 : world.driver.OnSpi3) (addr : Nat)
    {count : Nat} (positive : 0 < count) (short : count ≤ 16) (before : List Byte)
    (rest : CmdProgram β) :
    Console.run download ⟨world, some before⟩ (do
      let buf ← onBus (flashReadData (u32 addr) count .quadSingle)
      let _ ← printBuffer (u32 addr) (fun offset => pure ((buf.drop offset).take 1)) 1 count 16
      rest) =
    Console.run download ⟨world.afterPolls 1,
      some (before ++ rowText (u32 addr, world.chip.read addr count))⟩ rest := by
  have wraps : u32 addr % chipSize = addr % chipSize := Nat.mod_mod_of_dvd _ (by decide)
  have length := world.chip.read_length addr count
  have more : world.chip.read addr count ≠ [] := readRange_ne_nil _ _ (Nat.ne_of_gt positive)
  have single : dumpRows addr (world.chip.read addr count) =
      [(u32 addr, world.chip.read addr count)] := by
    rw [dumpRows_more addr more, List.take_of_length_le (by omega),
      List.drop_of_length_le (by omega), dumpRows_nil]
  have fetches (polls : Nat) : Fetches download
      (fun offset => pure (((world.chip.read addr count).drop offset).take 1))
      (world.chip.read addr count) (world.afterPolls polls) := buffer_fetches _ _
  obtain ⟨rcode, rows, shows', runs⟩ := printBuffer_run fetches addr before
  rw [single] at shows' runs
  obtain rfl := shows'.single
  rw [length] at runs
  refine (onBus_bind download (flashReadData_run world (u32 addr) count .quadSingle spi3) _
    _).trans ?_
  rw [world.chip.read_congr _ wraps]
  refine (Prog.run_bind_of_eq _ runs).trans ?_
  simp

/-- **The rows of the chip**, from row `i` on. -/
theorem dumpLines_run (download : Download) (offset i length : Nat)
    (world : World) (spi3 : world.driver.OnSpi3) (before : List Byte) :
    ∃ polls, Console.run download ⟨world, some before⟩ (dumpLines offset i length) =
      (some (), ⟨world.afterPolls polls, some (before ++
        (dumpRows (offset + i * 16) (world.chip.read (offset + i * 16) length)).flatMap
          rowText)⟩) := by
  induction length using Nat.strong_induction_on generalizing i world before with
  | _ length ih =>
      rw [dumpLines]
      by_cases done : length = 0
      · subst done
        refine ⟨0, ?_⟩
        rw [dif_pos rfl, Chip.read, readRange_zero, dumpRows_nil, List.flatMap_nil,
          List.append_nil]
        rfl
      rw [dif_neg done]
      dsimp only
      generalize size : (if length > 16 then 16 else length) = j
      have bound : 0 < j ∧ j ≤ 16 ∧ j + (length - 16) = length ∧ (j = 16 ∨ length - 16 = 0) := by
        rw [← size]
        split <;> omega
      obtain ⟨polls, runs⟩ := ih (length - 16) (by omega) (i + 1) (world.afterPolls 1) spi3
        (before ++ rowText (u32 (offset + i * 16), world.chip.read (offset + i * 16) j))
      refine ⟨1 + polls, (dumpRow_run download spi3 (offset + i * 16) bound.1 bound.2.1 before
        _).trans (runs.trans ?_)⟩
      have more : world.chip.read (offset + i * 16) length ≠ [] := readRange_ne_nil _ _ done
      have rows : dumpRows (offset + i * 16) (world.chip.read (offset + i * 16) length) =
          (u32 (offset + i * 16), world.chip.read (offset + i * 16) j) ::
            dumpRows (offset + (i + 1) * 16)
              (world.chip.read (offset + (i + 1) * 16) (length - 16)) := by
        have parts : world.chip.read (offset + i * 16) length =
            world.chip.read (offset + i * 16) j ++
              world.chip.read (offset + i * 16 + j) (length - 16) := by
          rw [← Chip.read_add, bound.2.2.1]
        rw [dumpRows_more _ more, parts]
        obtain rfl | last := bound.2.2.2
        · rw [List.take_left' (world.chip.read_length _ _),
            List.drop_left' (world.chip.read_length _ _),
            show offset + i * 16 + 16 = offset + (i + 1) * 16 by ring]
        · have nothing (addr : Nat) : world.chip.read addr 0 = [] := readRange_zero _ _
          have fits : (world.chip.read (offset + i * 16) j).length ≤ 16 :=
            (world.chip.read_length _ _).trans_le bound.2.1
          rw [last, nothing, nothing, List.append_nil, List.take_of_length_le fits,
            List.drop_of_length_le fits, dumpRows_nil, dumpRows_nil]
      rw [rows, List.flatMap_cons, List.append_assoc, ← World.afterPolls_add]
      rfl

/-- **`fldump` shows the chip**: the text on the terminal, up to an empty line, is read back as the
rows of the range, to its end; neither the cells nor the RAM have changed. -/
theorem fldump_dumps (download : Download) (world : World) (argv : Argv)
    (offset length : Nat) (first : argv.Spells 1 offset) (second : argv.Spells 2 length) :
    ∃ text after,
      Console.run download ⟨world, some []⟩ (doFldump argv) =
        (some 0, ⟨after, some (text ++ [0x0A])⟩) ∧
      readDump text = dumpRows offset (world.chip.read offset (int32 length).toNat) ∧
      after.chip.cells = world.chip.cells ∧ after.ram = world.ram := by
  have wraps : (u32 offset + 0 * 16) % chipSize = offset % chipSize := by
    rw [Nat.zero_mul, Nat.add_zero]
    exact Nat.mod_mod_of_dvd _ (by decide)
  have same : world.broughtUp.chip.read (u32 offset + 0 * 16) (int32 length).toNat =
      world.chip.read offset (int32 length).toNat := by
    rw [Chip.read, world.broughtUp_cells]
    exact world.chip.read_congr _ wraps
  obtain ⟨polls, runs⟩ := dumpLines_run download (u32 offset) 0 (int32 length).toNat
    world.broughtUp quadDriver_onSpi3 []
  rw [same, Nat.zero_mul, Nat.add_zero, dumpRows_u32] at runs
  refine ⟨_, world.broughtUp.afterPolls polls, ?_, readDump_text (dumpRows_fit offset _),
    world.broughtUp_cells, world.broughtUp_ram⟩
  have newline : Printf.print 0 newlineFormat (([] : List PrintArg).map PrintArg.arg) =
      some [0x0A] := rfl
  refine (argument_spells download first _ _).trans ((argument_spells download second _ _).trans ?_)
  refine (bringUp_bind download world _ _).trans ((Prog.run_bind_of_eq _ runs).trans ?_)
  exact printk_spell download newlineFormat_spell (by decide) newline _ _ _

/-- Twenty bytes over the end of the chip. -/
theorem fldump_dumps_overEnd :
    ∃ text after,
      Console.run (fun _ world => (-1, world.ram, world.uart)) ⟨World.powerOn u8, some []⟩
          (doFldump fun i => .word (if i = 1 then "fffff8".toList else "14".toList)) =
        (some 0, ⟨after, some (text ++ [0x0A])⟩) ∧
      readDump text =
        dumpRows 0xFFFFF8 ((World.powerOn u8).chip.read 0xFFFFF8 (int32 20).toNat) ∧
      after.chip.cells = (World.powerOn u8).chip.cells ∧ after.ram = (World.powerOn u8).ram :=
  fldump_dumps _ _ _ 0xFFFFF8 20 ⟨_, rfl, by decide +kernel⟩ ⟨_, rfl, by decide +kernel⟩

end Commands

end K210Guard
