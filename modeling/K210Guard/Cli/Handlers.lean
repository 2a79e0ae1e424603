/-
**The command functions** (`cli/command.c`, `bsp/strto.c`, `cli/crc16.c`).

A command function is a program that reads slots of `argv`, works the machine and prints. Reading
an argument is an operation of its own, so that what a function reads can be spoken about; its
answer is the slot of the array the function was called with. A NULL or unset argument has no
number: there the program stops.

* `Handler.run` — the command functions.
-/

import K210Guard.Cli.Lookup
import K210Guard.Cli.ParseLine
import K210Guard.Flash.Commands
import K210Guard.Memory.LittleEndian

namespace K210Guard

/-! ### Numbers -/

def isxdigit (c : Char) : Bool := c.isDigit || ('a' ≤ c && c ≤ 'f') || ('A' ≤ c && c ≤ 'F')

/-- `_parse_integer_fixup_radix` -/
def parseIntegerFixupRadix (s : List Char) (base : Nat) : List Char × Nat :=
  let base :=
    if base = 0 then
      match s with
      | '0' :: x :: digit :: _ => if x.toLower = 'x' ∧ isxdigit digit then 16 else 8
      | '0' :: _ => 8
      | _ => 10
    else base
  match s with
  | '0' :: x :: rest => if base = 16 ∧ x.toLower = 'x' then (rest, base) else (s, base)
  | _ => (s, base)

/-- The value of a digit. -/
def digitValue (c : Char) : Nat :=
  if c.isDigit then c.toNat - '0'.toNat else c.toUpper.toNat - 'A'.toNat + 10

/-- The loop of `simple_strtoul`; `unsigned long` has 64 bits. -/
def strtoulDigits (base : Nat) : (result : Nat) → List Char → Nat
  | result, [] => result
  | result, c :: cp =>
      if isxdigit c ∧ digitValue c < base then
        strtoulDigits base ((result * base + digitValue c) % 2 ^ 64) cp
      else result

def simpleStrtoul (cp : List Char) (base : Nat) : Nat :=
  let fixed := parseIntegerFixupRadix cp base
  strtoulDigits fixed.2 0 fixed.1

/-- An entry of `crc_tab16`. -/
def crcTab16 (i : Nat) : Nat :=
  ((List.range 8).foldl (fun (crc, c) _ =>
    (if (crc ^^^ c) &&& 1 ≠ 0 then crc >>> 1 ^^^ 0xA001 else crc >>> 1, c >>> 1)) (0, i)).1

/-- The loop of `crc_16`. -/
def crc16Of (bytes : List Byte) : Nat :=
  bytes.foldl (fun crc byte => crc >>> 8 ^^^ crcTab16 ((crc ^^^ byte.toNat) &&& 0xFF)) 0

/-! ### Programs of the command line -/

/-- An argument of `printk`. -/
inductive PrintArg
  | num (value : Nat)
  | int (value : Int)
  | str (text : List Char)

inductive CmdOp
  /-- A read of `argv[i]`. -/
  | argv (i : Nat)
  | bus (op : Bus)
  | printk (format : String) (values : List PrintArg)
  | loadSerialBin (ramaddr : Nat)
  | sysctlReset

abbrev CmdOp.Answer : CmdOp → Type
  | .bus op => op.Answer
  | .loadSerialBin _ => Int
  | _ => Unit

/-- A program of a command function. -/
abbrev CmdProgram (α : Type) := Prog CmdOp CmdOp.Answer α

/-- A program of one operation. -/
abbrev CmdOp.issue (op : CmdOp) : CmdProgram op.Answer := Prog.perform op

def printk (format : String) (values : List PrintArg) : CmdProgram Unit :=
  CmdOp.issue (.printk format values)

/-- A program of the drivers inside a command function. -/
def onBus {α : Type} (program : Firmware α) : CmdProgram α :=
  program.interpret fun op => CmdOp.issue (.bus op)

/-- `simple_strtoul(argv[i], NULL, 16)` -/
def argument (argv : Argv) (i : Nat) : CmdProgram Nat := do
  CmdOp.issue (.argv i)
  match argv i with
  | .word text => pure (simpleStrtoul text 16)
  | _ => .spin

/-- `crc_16` of a range of the RAM. -/
def crc16 (inputStr numBytes : Nat) : CmdProgram Nat :=
  if inputStr = 0 then pure 0
  else do
    let bytes ← onBus (Bus.issue (.load inputStr numBytes))
    pure (crc16Of bytes)

/-! ### `print_buffer` -/

/-- The values of one line, with the bytes they are made of. -/
def printValues (fetch : Nat → CmdProgram (List Byte)) (width : Nat) :
    (i thislinelen : Nat) → CmdProgram (List Byte)
  | _, 0 => pure []
  | i, thislinelen + 1 => do
      let bytes ← fetch (i * width)
      printk " %0*x" [.num (width * 2), .num (leNat bytes)]
      let rest ← printValues fetch width (i + 1) thislinelen
      pure (bytes ++ rest)

/-- The blanks in place of missing values. -/
def printBlanks : Nat → CmdProgram Unit
  | 0 => pure ()
  | count + 1 => do
      printk " " []
      printBlanks count

/-- A byte in the text column. -/
def asciiChar (byte : Byte) : Char :=
  if 0x20 ≤ byte.toNat ∧ byte.toNat < 0x7F then Char.ofNat byte.toNat else '.'

/-- The lines from value `i` on. -/
def printLines (fetch : Nat → CmdProgram (List Byte)) (width linelen addr i count : Nat) :
    CmdProgram Int :=
  if _done : count = 0 then pure 0
  else if _stuck : linelen = 0 then .spin
  else do
    printk "%08X:" [.num addr]
    let thislinelen := if count < linelen then count else linelen
    let bytes ← printValues fetch width i thislinelen
    printBlanks ((linelen - thislinelen) * (width * 2 + 1))
    printk "    %s\n" [.str (bytes.map asciiChar)]
    if (← onBus uartCtrlc) then
      pure (-1)
    else
      printLines fetch width linelen (u32 (addr + thislinelen * width)) (i + thislinelen)
        (count - thislinelen)
termination_by count
decreasing_by split <;> omega

/-- `fetch offset` is the value at `data + offset`. -/
def printBuffer (addr : Nat) (fetch : Nat → CmdProgram (List Byte)) (width count linelen : Nat) :
    CmdProgram Int :=
  let linelen := if linelen * width > 64 then 64 / width else linelen
  let linelen := if linelen < 1 then 16 / width else linelen
  printLines fetch width linelen addr 0 count

/-! ### The functions -/

def cmdUsage (cmdtp : CmdTbl) : CmdProgram Nat := do
  printk "%s - %s\n\n" [.str cmdtp.name, .str cmdtp.usage.toList]
  pure 1

/-- The short help. -/
def printShortHelp : List CmdTbl → CmdProgram Unit
  | [] => pure ()
  | entry :: rest => do
      printk "%-*s- %s\n" [.num 8, .str entry.name, .str entry.usage.toList]
      printShortHelp rest

/-- The long help, from `argv[i]` on. -/
def printLongHelp (array : CmdArray) (argv : Argv) : (i remaining : Nat) → Nat → CmdProgram Nat
  | _, 0, rcode => pure rcode
  | i, remaining + 1, rcode => do
      CmdOp.issue (.argv i)
      match argv i with
      | .word text =>
          match array.find text with
          | some cmdtp =>
              let rc ← cmdUsage cmdtp
              printLongHelp array argv (i + 1) remaining (rcode ||| rc)
          | none =>
              printk "Unknown command '%s' - try 'help' without arguments for list of all known commands\n\n"
                [.str text]
              printLongHelp array argv (i + 1) remaining 1
      | _ => .spin

def doHelp (array : CmdArray) (argc : Nat) (argv : Argv) : CmdProgram (Int × CmdArray) :=
  if argc = 1 then do
    printShortHelp array.sorted.entries
    pure (0, array.sorted)
  else do
    let rcode ← printLongHelp array argv 1 (argc - 1) 0
    pure (rcode, array)

/-- The loop of `do_fldump`. -/
def dumpLines (offset i length : Nat) : CmdProgram Unit :=
  if _done : length = 0 then pure ()
  else do
    let addr := u32 (offset + i * 16)
    let j := if length > 16 then 16 else length
    let buf ← onBus (flashReadData addr j .quadSingle)
    let _ ← printBuffer addr (fun offset => pure ((buf.drop offset).take 1)) 1 j 16
    dumpLines offset (i + 1) (length - 16)
termination_by length

def doFldump (argv : Argv) : CmdProgram Int := do
  let offset ← argument argv 1
  let length ← argument argv 2
  let _ ← onBus (flashInit 1)
  let _ ← onBus flashEnableQuadMode
  dumpLines (u32 offset) 0 (int32 length).toNat
  printk "\n" []
  pure 0

def doFlread (argv : Argv) : CmdProgram Int := do
  let offset ← argument argv 1
  let length ← argument argv 2
  let ramaddr ← argument argv 3
  let _ ← onBus (flashInit 1)
  let _ ← onBus flashEnableQuadMode
  let data ← onBus (flashReadData (u32 offset) (u32 length) .quadSingle)
  onBus (Bus.issue (.store ramaddr data))
  pure 0

def doFlerase (argv : Argv) : CmdProgram Int := do
  let offset ← argument argv 1
  let length ← argument argv 2
  onBus (doFlashErase (u32 offset) (u32 length))

def doFlwrite (argv : Argv) : CmdProgram Int := do
  let offset ← argument argv 1
  let length ← argument argv 2
  let ramaddr ← argument argv 3
  if (← onBus (doFlashErase (u32 offset) (u32 length))) ≠ 0 then
    pure (-1)
  else
    onBus (doFlashWrite (u32 offset) (u32 length) ramaddr)

def doCrc16 (argv : Argv) : CmdProgram Int := do
  let dataP ← argument argv 1
  let length ← argument argv 2
  let crc ← crc16 dataP (u32 length)
  printk "## Caculated CRC16: 0x%04X\n\n" [.num crc]
  pure 0

/-- The CRC is taken also after an aborted download, whose size is -1. -/
def doLoadb (argv : Argv) : CmdProgram Int := do
  let ramaddr ← argument argv 1
  printk "## Ready for binary (kermit) download to 0x%08lX...\n" [.num ramaddr]
  let size ← CmdOp.issue (.loadSerialBin ramaddr)
  if size = -1 then
    printk "## Binary (kermit) download aborted\n" []
  else
    printk "## Start Addr      = 0x%08lX\n" [.num ramaddr]
  printk "## Total Size      = 0x%08X = %d Bytes\n" [.int size, .int size]
  let crc ← crc16 ramaddr (size % 2 ^ 64).toNat
  printk "## Caculated CRC16 = 0x%04X\n" [.num crc]
  pure (if size = -1 then 1 else 0)

def doMd (argv : Argv) : CmdProgram Int := do
  let dataP ← argument argv 1
  let length ← argument argv 2
  let addr ← argument argv 1
  let _ ← printBuffer (u32 addr) (fun offset => onBus (Bus.issue (.load (dataP + offset) 1))) 1
    (u32 length) 16
  pure 0

def doReset : CmdProgram Int := do
  CmdOp.issue .sysctlReset
  pure 0

/-- A function that leaves `cmd_array` alone. -/
def keeping (array : CmdArray) (program : CmdProgram Int) : CmdProgram (Int × CmdArray) := do
  let rcode ← program
  pure (rcode, array)

/-- The call through `cmdtp->cmd`; only `do_help` touches `cmd_array`. -/
def Handler.run (handler : Handler) (array : CmdArray) (argc : Nat) (argv : Argv) :
    CmdProgram (Int × CmdArray) :=
  match handler with
  | .help => doHelp array argc argv
  | .fldump => keeping array (doFldump argv)
  | .flread => keeping array (doFlread argv)
  | .flwrite => keeping array (doFlwrite argv)
  | .flerase => keeping array (doFlerase argv)
  | .crc16 => keeping array (doCrc16 argv)
  | .loadb => keeping array (doLoadb argv)
  | .md => keeping array (doMd argv)
  | .reset => keeping array doReset

end K210Guard
