/-
**What the flash driver does on an ideal chip.**

On a chip that carries every command out before the next transaction:

* the status functions answer at once and change no cell (`flashCheckStatus_run` and the lemmas
  around it);
* `flashReadData_run`: in every mode a read returns the chip's bytes, modulo the chip's size;
* `flashSectorErase_run`, `flashPageProgramFun_run`: one erase or program command each;
* `flashWriteData_run`: the commands of a write stream its data, whichever page program function
  is selected; `flashWriteData_ands` says what that makes of the cells.
-/

import K210Guard.Flash.Driver

namespace K210Guard

open NorFlash (Command Streams replay)

/-! ### Worlds after a command -/

/-- The world after the chip has carried out a command. -/
def World.carryOut (world : World) (command : Command) : World :=
  { world with
    chip := { world.chip with
      cells := command.apply chipGeometry world.chip.cells
      log := world.chip.log ++ [command]
      writeEnabled := false } }

/-- The world after the chip has carried out a list of commands. -/
def World.carryOutAll (world : World) (commands : List Command) : World :=
  commands.foldl World.carryOut world

theorem World.carryOutAll_cons (world : World) (command : Command) (rest : List Command) :
    world.carryOutAll (command :: rest) = (world.carryOut command).carryOutAll rest := rfl

theorem World.carryOutAll_append (world : World) (first second : List Command) :
    world.carryOutAll (first ++ second) = (world.carryOutAll first).carryOutAll second :=
  List.foldl_append

@[simp] theorem World.carryOutAll_cells (world : World) (commands : List Command) :
    (world.carryOutAll commands).chip.cells = replay chipGeometry commands world.chip.cells := by
  induction commands generalizing world with
  | nil => rfl
  | cons command rest ih => exact ih (world.carryOut command)

@[simp] theorem World.carryOutAll_log (world : World) (commands : List Command) :
    (world.carryOutAll commands).chip.log = world.chip.log ++ commands := by
  induction commands generalizing world with
  | nil => exact (List.append_nil _).symm
  | cons command rest ih =>
      rw [World.carryOutAll_cons, ih]
      exact List.append_assoc _ _ _

@[simp] theorem World.carryOutAll_driver (world : World) (commands : List Command) :
    (world.carryOutAll commands).driver = world.driver := by
  induction commands generalizing world with
  | nil => rfl
  | cons command rest ih => exact ih (world.carryOut command)

@[simp] theorem World.carryOutAll_ram (world : World) (commands : List Command) :
    (world.carryOutAll commands).ram = world.ram := by
  induction commands generalizing world with
  | nil => rfl
  | cons command rest ih => exact ih (world.carryOut command)

@[simp] theorem World.carryOutAll_uart (world : World) (commands : List Command) :
    (world.carryOutAll commands).uart = world.uart := by
  induction commands generalizing world with
  | nil => rfl
  | cons command rest ih => exact ih (world.carryOut command)

@[simp] theorem World.carryOutAll_otpKeyOutput (world : World) (commands : List Command) :
    (world.carryOutAll commands).otpKeyOutput = world.otpKeyOutput := by
  induction commands generalizing world with
  | nil => rfl
  | cons command rest ih => exact ih (world.carryOut command)

/-- The world after a write of the status registers. -/
def World.setRegs (world : World) (reg1 reg2 : Byte) : World :=
  { world with chip := { world.chip with reg1 := reg1, reg2 := reg2, writeEnabled := false } }

/-- The driver's static variables after `flash_init(1)` and `flash_enable_quad_mode()`. -/
def quadDriver : FlashDriver := ⟨0, 10, 22, .quad⟩

/-- The offsets `flash_init(1)` sets. -/
structure FlashDriver.OnSpi3 (driver : FlashDriver) : Prop where
  dfs : driver.dfsOffset = 0
  tmod : driver.tmodOffset = 10
  frf : driver.frfOffset = 22

theorem quadDriver_onSpi3 : quadDriver.OnSpi3 := ⟨rfl, rfl, rfl⟩

/-- One of the two page program functions is selected; the quad one takes the offsets too. -/
def FlashDriver.Programs (driver : FlashDriver) : Prop :=
  driver.pageProgramFun = .standard ∨ driver.pageProgramFun = .quad ∧ driver.OnSpi3

theorem quadDriver_programs : quadDriver.Programs := Or.inr ⟨rfl, quadDriver_onSpi3⟩

/-! ### Status -/

theorem flashReadStatusReg1_run (world : World) :
    world.run flashReadStatusReg1 = (some world.chip.status1, world) := rfl

theorem flashReadStatusReg2_run (world : World) :
    world.run flashReadStatusReg2 = (some world.chip.reg2, world) := rfl

/-- The chip is never busy between two transactions. -/
theorem Chip.status1_ready (chip : Chip) : chip.status1 &&& 0x01#8 = 0 := by
  unfold Chip.status1
  rw [BitVec.and_or_distrib_right, BitVec.and_assoc]
  cases chip.writeEnabled <;> simp

theorem pollReady_run (world : World) (tries : Nat) :
    world.run (pollReady (tries + 1)) = (some true, world) := by
  rw [pollReady]
  refine (World.run_bind_of_eq (flashReadStatusReg1_run world)).trans ?_
  rw [if_pos world.chip.status1_ready]
  rfl

theorem flashCheckStatus_run (world : World) :
    world.run flashCheckStatus = (some .ok, world) := by
  unfold flashCheckStatus
  refine (World.run_bind_of_eq (flashReadStatusReg1_run world)).trans ?_
  refine (World.run_bind_of_eq (flashReadStatusReg2_run world)).trans ?_
  exact World.run_bind_of_eq (pollReady_run world 0xFFFFFE)

/-- The world with the write enable latch set. -/
def World.latched (world : World) : World :=
  { world with chip := { world.chip with writeEnabled := true } }

theorem flashWriteEnable_run (world : World) :
    world.run flashWriteEnable = (some .ok, world.latched) := rfl

theorem flashSendData_run (world : World) (cmd data : List Byte) :
    world.run (flashSendData cmd data) =
      (some (), { world with chip := world.chip.send data cmd }) := rfl

theorem flashSendDataEnhanced_run (world : World) (ctrlr0 spiCtrlr0 : Nat) (cmd : List Nat)
    (data : List Byte) :
    world.run (flashSendDataEnhanced ctrlr0 spiCtrlr0 cmd data) =
      (some (), { world with
        chip := world.chip.sendEnhanced (spiFormat ctrlr0 spiCtrlr0) data cmd }) := rfl

theorem getDriver_run (world : World) :
    world.run getDriver = (some world.driver, world) := rfl

theorem flashWriteStatusReg_run (world : World) (reg1 reg2 : Byte) :
    world.run (flashWriteStatusReg reg1 reg2) = (some .ok, world.setRegs reg1 reg2) := rfl

theorem flashDisableProtect_run (world : World) :
    world.run flashDisableProtect =
      (some .ok, world.setRegs 0x00#8 (world.chip.reg2 &&& 0x03#8)) := by
  unfold flashDisableProtect
  refine (World.run_bind_of_eq (flashReadStatusReg1_run world)).trans ?_
  refine (World.run_bind_of_eq (flashReadStatusReg2_run world)).trans ?_
  refine (World.run_bind_of_eq (flashWriteStatusReg_run world _ _)).trans ?_
  refine (World.run_bind_of_eq (flashReadStatusReg1_run _)).trans ?_
  refine (World.run_bind_of_eq (flashReadStatusReg2_run _)).trans ?_
  exact flashCheckStatus_run _

/-- The world after `flash_init(1)` and `flash_enable_quad_mode()`. -/
def World.broughtUp (world : World) : World :=
  { (if world.chip.reg2 &&& 0x02#8 = 0 then
      world.setRegs world.chip.status1 (world.chip.reg2 ||| 0x02#8) else world) with
    driver := quadDriver }

@[simp] theorem World.broughtUp_cells (world : World) :
    world.broughtUp.chip.cells = world.chip.cells := by
  unfold World.broughtUp
  split <;> rfl

@[simp] theorem World.broughtUp_log (world : World) :
    world.broughtUp.chip.log = world.chip.log := by
  unfold World.broughtUp
  split <;> rfl

@[simp] theorem World.broughtUp_driver (world : World) : world.broughtUp.driver = quadDriver := rfl

@[simp] theorem World.broughtUp_ram (world : World) : world.broughtUp.ram = world.ram := by
  unfold World.broughtUp
  split <;> rfl

@[simp] theorem World.broughtUp_uart (world : World) : world.broughtUp.uart = world.uart := by
  unfold World.broughtUp
  split <;> rfl

@[simp] theorem World.broughtUp_otpKeyOutput (world : World) :
    world.broughtUp.otpKeyOutput = world.otpKeyOutput := by
  unfold World.broughtUp
  split <;> rfl

theorem flashInit_run (world : World) :
    world.run (flashInit 1) = (some .ok, { world with driver := ⟨0, 10, 22, .standard⟩ }) := rfl

theorem flashEnableQuadMode_run (world : World) (spi3 : world.driver = ⟨0, 10, 22, .standard⟩) :
    world.run flashEnableQuadMode = (some .ok, world.broughtUp) := by
  unfold flashEnableQuadMode World.broughtUp
  refine (World.run_bind_of_eq (flashReadStatusReg2_run world)).trans ?_
  have select : quadDriver = { world.driver with pageProgramFun := .quad } := by
    rw [spi3]
    rfl
  rw [select]
  split
  · exact flashCheckStatus_run _
  · exact flashCheckStatus_run _

/-! ### Erasing and programming -/

/-- The three address bytes carry the low 24 bits. -/
theorem address_addressBytes (addr : Nat) :
    Chip.address (u8 (addr >>> 16)) (u8 (addr >>> 8)) (u8 addr) = addr % chipSize := by
  simp only [Chip.address, u8, BitVec.toNat_ofNat, Nat.shiftRight_eq_div_pow, chipSize]
  omega

/-- A latched chip carries out an erase command. -/
theorem World.latched_erase (world : World) (addr : Nat) :
    { world.latched with chip := world.latched.chip.send [] (0x20#8 :: addressBytes addr) } =
      world.carryOut (.erase (addr % chipSize)) := by
  rw [← address_addressBytes]
  rfl

/-- A latched chip carries out a page program command. -/
theorem World.latched_program (world : World) (addr : Nat) (data : List Byte) :
    { world.latched with chip := world.latched.chip.send data (0x02#8 :: addressBytes addr) } =
      world.carryOut (.program (addr % chipSize) data) := by
  rw [← address_addressBytes]
  rfl

/-- The frame `flash_quad_page_program` sends is the chip's. -/
theorem World.latched_quadProgram (world : World) (addr : Nat) (data : List Byte) :
    { world.latched with
      chip := world.latched.chip.sendEnhanced
        (spiFormat (0x01 <<< 10 ||| 0x07 <<< 0 ||| 0x02 <<< 22) (0x06 <<< 2 ||| 0x02 <<< 8))
        data [0x32, addr] } =
      world.carryOut (.program (addr % chipSize) data) := rfl

theorem flashSectorErase_run (world : World) (addr : Nat) :
    world.run (flashSectorErase addr) =
      (some .ok, world.carryOut (.erase (addr % chipSize))) := by
  unfold flashSectorErase
  refine (World.run_bind_of_eq (flashWriteEnable_run world)).trans ?_
  refine (World.run_bind_of_eq (flashSendData_run _ _ _)).trans ?_
  rw [World.latched_erase]
  exact flashCheckStatus_run _

theorem flashPageProgram_run (world : World) (addr : Nat) (data : List Byte) :
    world.run (flashPageProgram addr data) =
      (some .ok, world.carryOut (.program (addr % chipSize) data)) := by
  unfold flashPageProgram
  refine (World.run_bind_of_eq (flashWriteEnable_run world)).trans ?_
  refine (World.run_bind_of_eq (flashSendData_run _ _ _)).trans ?_
  rw [World.latched_program]
  exact flashCheckStatus_run _

theorem flashQuadPageProgram_run (world : World) (addr : Nat) (data : List Byte)
    (spi3 : world.driver.OnSpi3) :
    world.run (flashQuadPageProgram addr data) =
      (some .ok, world.carryOut (.program (addr % chipSize) data)) := by
  unfold flashQuadPageProgram
  refine (World.run_bind_of_eq (flashWriteEnable_run world)).trans ?_
  refine (World.run_bind_of_eq (getDriver_run _)).trans ?_
  rw [show world.latched.driver = world.driver from rfl, spi3.dfs, spi3.tmod, spi3.frf]
  refine (World.run_bind_of_eq (flashSendDataEnhanced_run _ _ _ _ _)).trans ?_
  rw [World.latched_quadProgram]
  exact flashCheckStatus_run _

/-- A call through the function pointer, once it is set. -/
theorem flashPageProgramFun_run (world : World) (addr : Nat) (data : List Byte)
    (programs : world.driver.Programs) :
    world.run (flashPageProgramFun addr data) =
      (some .ok, world.carryOut (.program (addr % chipSize) data)) := by
  unfold flashPageProgramFun
  refine (World.run_bind_of_eq (getDriver_run world)).trans ?_
  rcases programs with standard | ⟨quad, spi3⟩
  · rw [standard]
    exact flashPageProgram_run world addr data
  · rw [quad]
    exact flashQuadPageProgram_run world addr data spi3

/-! ### Reading -/

/-- The chip takes 24 bits of an address. -/
theorem Chip.read_congr (chip : Chip) {first second : Nat} (length : Nat)
    (same : first % chipSize = second % chipSize) :
    chip.read first length = chip.read second length := by
  refine readRange_eq_iff.mpr fun index _ => congrArg chip.cells ?_
  rw [Nat.add_mod, same, ← Nat.add_mod]

theorem Chip.read_add (chip : Chip) (addr first second : Nat) :
    chip.read addr (first + second) = chip.read addr first ++ chip.read (addr + first) second :=
  readRange_add _ addr first second

theorem flashReceiveData_run (world : World) (cmd : List Byte) (rxLen : Nat) :
    world.run (flashReceiveData cmd rxLen) = (some (world.chip.receive rxLen cmd), world) := rfl

theorem flashReceiveDataEnhanced_run (world : World) (ctrlr0 spiCtrlr0 : Nat) (cmd : List Nat)
    (rxLen : Nat) :
    world.run (flashReceiveDataEnhanced ctrlr0 spiCtrlr0 cmd rxLen) =
      (some (world.chip.receiveEnhanced (spiFormat ctrlr0 spiCtrlr0) rxLen cmd), world) := rfl

/-- A frame in the format of its opcode is answered with the bytes at its address. -/
theorem Chip.receiveEnhanced_of_format (chip : Chip) {opcode : Nat} {format : SpiFormat}
    (known : Chip.readFormat opcode = some format) (rxLen word : Nat) :
    chip.receiveEnhanced format rxLen [opcode, word] =
      chip.read (Chip.frameAddress format word) rxLen := if_pos known

/-- An address of 24 bits is sent as it is. -/
theorem Chip.read_frame24 (chip : Chip) {format : SpiFormat} (bits : format.addressBits = 24)
    (addr length : Nat) :
    chip.read (Chip.frameAddress format addr) length = chip.read addr length := by
  apply chip.read_congr
  rw [Chip.frameAddress, bits, if_neg (by decide), Nat.mod_mod]

/-- An address of 32 bits is sent with the mode byte below it. -/
theorem Chip.read_frame32 (chip : Chip) {format : SpiFormat} (bits : format.addressBits = 32)
    (addr length : Nat) :
    chip.read (Chip.frameAddress format (u32 (addr <<< 8))) length = chip.read addr length := by
  apply chip.read_congr
  rw [Chip.frameAddress, bits, if_pos rfl, Nat.mod_mod, u32, Nat.shiftLeft_eq]
  simp only [chipSize]
  omega

/-- **Every read mode reads the chip's bytes.** -/
theorem flashRead_run (world : World) (addr length : Nat) (mode : FlashRead)
    (spi3 : world.driver.OnSpi3) :
    world.run (flashRead addr length mode) = (some (world.chip.read addr length), world) := by
  have low : addr % chipSize % chipSize = addr % chipSize := Nat.mod_mod _ _
  cases mode with
  | standard =>
      refine (flashReceiveData_run world _ _).trans ?_
      show (some (world.chip.read (Chip.address _ _ _) length), world) = _
      rw [address_addressBytes, world.chip.read_congr length low]
  | standardFast =>
      refine (flashReceiveData_run world _ _).trans ?_
      show (some (world.chip.read (Chip.address _ _ _) length), world) = _
      rw [address_addressBytes, world.chip.read_congr length low]
  | dual =>
      refine (World.run_bind_of_eq (getDriver_run world)).trans ?_
      rw [spi3.dfs, spi3.tmod, spi3.frf, flashReceiveDataEnhanced_run,
        Chip.receiveEnhanced_of_format _ (by decide), Chip.read_frame24 _ (by decide)]
  | dualSingle =>
      refine (World.run_bind_of_eq (getDriver_run world)).trans ?_
      rw [spi3.dfs, spi3.tmod, spi3.frf, flashReceiveDataEnhanced_run,
        Chip.receiveEnhanced_of_format _ (by decide), Chip.read_frame32 _ (by decide)]
  | quad =>
      refine (World.run_bind_of_eq (getDriver_run world)).trans ?_
      rw [spi3.dfs, spi3.tmod, spi3.frf, flashReceiveDataEnhanced_run,
        Chip.receiveEnhanced_of_format _ (by decide), Chip.read_frame24 _ (by decide)]
  | quadSingle =>
      refine (World.run_bind_of_eq (getDriver_run world)).trans ?_
      rw [spi3.dfs, spi3.tmod, spi3.frf, flashReceiveDataEnhanced_run,
        Chip.receiveEnhanced_of_format _ (by decide), Chip.read_frame32 _ (by decide)]

/-- **A read returns the chip's bytes and changes nothing.** -/
theorem flashReadData_run (world : World) (addr length : Nat) (mode : FlashRead)
    (spi3 : world.driver.OnSpi3) :
    world.run (flashReadData addr length mode) =
      (some (world.chip.read addr length), world) := by
  induction length using Nat.strong_induction_on generalizing addr with
  | _ length ih =>
      rw [flashReadData]
      by_cases more : length ≠ 0
      · rw [dif_pos more]
        generalize size : (if length > 32 then 32 else length) = readLen
        have bound : 0 < readLen ∧ readLen ≤ length := by
          rw [← size]
          split <;> omega
        refine (World.run_bind_of_eq (flashRead_run world addr readLen mode spi3)).trans ?_
        refine (World.run_bind_of_eq (ih (length - readLen) (by omega) _)).trans ?_
        have wraps : u32 (addr + readLen) % chipSize = (addr + readLen) % chipSize :=
          Nat.mod_mod_of_dvd _ (by decide)
        rw [world.chip.read_congr _ wraps, World.run_pure, ← Chip.read_add,
          Nat.add_sub_cancel' bound.2]
      · rw [dif_neg more, not_not.mp more]
        rfl

/-! ### Writing -/

/-- `2 ^ 24` addresses are far below the wrap of `uint32_t`. -/
theorem u32_of_onChip {addr : Nat} (onChip : addr ≤ chipSize) : u32 addr = addr :=
  Nat.mod_eq_of_lt (lt_of_le_of_lt onChip (by decide))

/-- **One page's worth of data** is programmed in pieces that stream it. -/
theorem programPieces_run (addr : Nat) (data : List Byte)
    (fits : addr % 256 + data.length ≤ 256) (onChip : addr + data.length ≤ chipSize) :
    ∃ commands, Streams chipGeometry addr data 0 commands data.length ∧
      ∀ world : World, world.driver.Programs →
        world.run (programPieces addr data) = (some (), world.carryOutAll commands) := by
  induction size : data.length using Nat.strong_induction_on generalizing addr data with
  | _ length ih =>
      by_cases more : data ≠ []
      · have positive := List.length_pos_iff.mpr more
        generalize piece : (if data.length > 32 then 32 else data.length) = len
        have bound : 0 < len ∧ len ≤ data.length := by
          rw [← piece]
          split <;> omega
        obtain ⟨rest, streams, runs⟩ := ih (data.length - len) (by omega) (addr + len)
          (data.drop len) (by rw [List.length_drop]; omega) (by rw [List.length_drop]; omega)
          List.length_drop
        refine ⟨.program addr (data.take len) :: rest, ?_, fun world programs => ?_⟩
        · rw [← size]
          exact Streams.cons bound.2 (show addr % 256 + len ≤ 256 by omega) streams
        · rw [programPieces, dif_pos more, piece]
          refine (World.run_bind_of_eq (flashPageProgramFun_run world _ _ programs)).trans ?_
          rw [u32_of_onChip (show addr + len ≤ chipSize by omega), Nat.mod_eq_of_lt (by omega)]
          exact runs (world.carryOut _) programs
      · rw [not_not.mp more] at size ⊢
        refine ⟨[], ?_, fun world _ => ?_⟩
        · rw [← size]
          exact .done 0
        · rw [programPieces, dif_neg (by simp)]
          rfl

/-- **Data on any number of pages** is programmed page by page. -/
theorem writePages_run (addr : Nat) (data : List Byte) (onChip : addr + data.length ≤ chipSize) :
    ∃ commands, Streams chipGeometry addr data 0 commands data.length ∧
      ∀ world : World, world.driver.Programs →
        world.run (writePages addr data) = (some (), world.carryOutAll commands) := by
  induction size : data.length using Nat.strong_induction_on generalizing addr data with
  | _ length ih =>
      by_cases more : data ≠ []
      · have positive := List.length_pos_iff.mpr more
        have masked : addr &&& 255 = addr % 256 := Nat.and_two_pow_sub_one_eq_mod addr 8
        generalize piece :
          (if data.length < 256 - addr % 256 then data.length else 256 - addr % 256) = writeLen
        have bound : 0 < writeLen ∧ writeLen ≤ data.length ∧ addr % 256 + writeLen ≤ 256 := by
          rw [← piece]
          split <;> omega
        have taken : (data.take writeLen).length = writeLen := by
          rw [List.length_take]
          omega
        obtain ⟨page, pageStreams, pageRuns⟩ := programPieces_run addr (data.take writeLen)
          (by omega) (by omega)
        obtain ⟨rest, streams, runs⟩ := ih (data.length - writeLen) (by omega) (addr + writeLen)
          (data.drop writeLen) (by rw [List.length_drop]; omega) List.length_drop
        refine ⟨page ++ rest, ?_, fun world programs => ?_⟩
        · rw [taken] at pageStreams
          rw [← size]
          exact Streams.concat bound.2.1 pageStreams streams
        · rw [writePages, dif_pos more, masked]
          dsimp only
          rw [piece]
          refine (World.run_bind_of_eq (pageRuns world programs)).trans ?_
          rw [u32_of_onChip (show addr + writeLen ≤ chipSize by omega),
            World.carryOutAll_append]
          exact runs _ (by rwa [World.carryOutAll_driver])
      · rw [not_not.mp more] at size ⊢
        refine ⟨[], ?_, fun world _ => ?_⟩
        · rw [← size]
          exact .done 0
        · rw [writePages, dif_neg (by simp)]
          rfl

/-- **A write programs its data**, in commands that stream it. -/
theorem flashWriteData_run (addr : Nat) (data : List Byte)
    (onChip : addr + data.length ≤ chipSize) :
    ∃ commands, Streams chipGeometry addr data 0 commands data.length ∧
      ∀ world : World, world.driver.Programs →
        world.run (flashWriteData addr data) = (some .ok, world.carryOutAll commands) := by
  obtain ⟨commands, streams, runs⟩ := writePages_run addr data onChip
  refine ⟨commands, streams, fun world programs => ?_⟩
  refine (World.run_bind_of_eq (runs world programs)).trans ?_
  exact flashCheckStatus_run _

/-- **A write ANDs its data into the cells at its address and changes no other cell**, whichever
page program function is selected. -/
theorem flashWriteData_ands (world : World) (programs : world.driver.Programs) (addr : Nat)
    (data : List Byte) (onChip : addr + data.length ≤ chipSize) :
    ∃ after, world.run (flashWriteData addr data) = (some .ok, after) ∧
      (∀ index (bound : index < data.length),
        after.chip.cells (addr + index) = world.chip.cells (addr + index) &&& data[index]) ∧
      ∀ x, x < addr ∨ addr + data.length ≤ x → after.chip.cells x = world.chip.cells x := by
  obtain ⟨commands, streams, runs⟩ := flashWriteData_run addr data onChip
  have overlaid : (world.carryOutAll commands).chip.cells =
      NorFlash.overlay world.chip.cells addr data := by
    have streamed := streams.replay world.chip.cells
    rw [List.take_zero, NorFlash.overlay_nil, List.take_length] at streamed
    rw [World.carryOutAll_cells, streamed]
  refine ⟨_, runs world programs, fun index bound => ?_, fun x outside => ?_⟩
  · rw [overlaid, NorFlash.overlay_inside _ (Nat.le_add_right _ _)
      (by rwa [Nat.add_sub_cancel_left])]
    simp only [Nat.add_sub_cancel_left]
  · rw [overlaid, NorFlash.overlay_outside _ outside]

/-- The standard function over a page boundary, on a chip that holds `0x0F` everywhere. -/
theorem flashWriteData_ands_standard :
    ∃ after, World.run { World.powerOn (fun _ => 0x0F#8) with driver := ⟨0, 10, 22, .standard⟩ }
        (flashWriteData 255 [0x3C#8, 0xA5#8]) = (some .ok, after) ∧
      (∀ index (bound : index < 2), after.chip.cells (255 + index) =
        0x0F#8 &&& [0x3C#8, 0xA5#8][index]) ∧
      ∀ x, x < 255 ∨ 255 + 2 ≤ x → after.chip.cells x = 0x0F#8 :=
  flashWriteData_ands _ (Or.inl rfl) 255 [0x3C#8, 0xA5#8] (by decide)

end K210Guard
