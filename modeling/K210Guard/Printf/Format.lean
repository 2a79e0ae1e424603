/-
**The formatter** (`tfp_format`, `bsp/printf.c`).

A format is its bytes in front of the NUL; a list that begins with the character just read stands
for `ch` and the rest of `fmt`. The arguments come one after the other: words of a register, and
strings. `p` stands outside of the loop, and no directive resets `p.base`: it holds what the stack
held there, then the base of the last number.

* `tfpFormat_safe`: whatever the format, the arguments and the stack, no conversion overflows its
  buffer, and every loop ends.
* `tfpVsnprintf_bounded`: what `tfp_vsnprintf` leaves in memory, for every format and size.
-/

import Mathlib.Logic.Function.Basic
import K210Guard.Printf.Conversion

namespace K210Guard

namespace Printf

/-- An argument; a text goes as far as its first NUL, if it has one. -/
inductive Arg
  | word (value : BitVec 64)
  | text (bytes : List Byte)

/-! ### Arguments -/

/-- `va_arg(va, int)` and `va_arg(va, unsigned int)` -/
def vaInt : List Arg → Except Fault (BitVec 32 × List Arg)
  | .word value :: args => .ok (value.setWidth 32, args)
  | _ => .error .argument

/-- `va_arg(va, long)` and its like -/
def vaLong : List Arg → Except Fault (BitVec 64 × List Arg)
  | .word value :: args => .ok (value, args)
  | _ => .error .argument

/-- `va_arg(va, char *)` -/
def vaText : List Arg → Except Fault (List Byte × List Arg)
  | .text bytes :: args => .ok (bytes, args)
  | _ => .error .argument

/-! ### Reading a directive -/

/-- `IS_DIGIT` -/
def isDigit (ch : Byte) : Bool := 0x30 ≤ ch && ch ≤ 0x39

def a2d (ch : Byte) : Option Nat :=
  if isDigit ch then some (ch.toNat - 0x30)
  else if 0x61 ≤ ch ∧ ch ≤ 0x66 then some (ch.toNat - 0x61 + 10)
  else if 0x41 ≤ ch ∧ ch ≤ 0x46 then some (ch.toNat - 0x41 + 10)
  else none

/-- The loop of `a2u`; a digit that equals the base passes its check. -/
def a2u (base : Nat) : (num : Nat) → List Byte → Nat × List Byte
  | num, [] => (num, [])
  | num, ch :: p =>
      match a2d ch with
      | none => (num, ch :: p)
      | some digit =>
          if digit > base then (num, ch :: p) else a2u base ((num * base + digit) % 2 ^ 32) p

/-- A number in the format, as an `int`. -/
def number (fmt : List Byte) : Int × List Byte :=
  ((BitVec.ofNat 32 (a2u 10 0 fmt).1).toInt, (a2u 10 0 fmt).2)

/-- The flags `-`, `0` and `#`. -/
def scanFlags (p : Param) : List Byte → Param × List Byte
  | [] => (p, [])
  | ch :: fmt =>
      if ch = 0x2D then scanFlags { p with alignLeft := true } fmt
      else if ch = 0x30 then scanFlags { p with lz := true } fmt
      else if ch = 0x23 then scanFlags { p with alt := true } fmt
      else (p, ch :: fmt)

/-- The width; a negative one aligns to the left, but leaves the leading zeros on. -/
def scanWidth (p : Param) (fmt : List Byte) (args : List Arg) :
    Except Fault (Param × List Byte × List Arg) :=
  match fmt with
  | [] => pure (p, [], args)
  | ch :: rest =>
      if ch = 0x2A then do
        let (value, args) ← vaInt args
        let width := value.toInt
        let p := if width < 0 then { p with alignLeft := true, width := -width }
          else { p with width := width }
        pure (p, rest, args)
      else if isDigit ch then
        pure ({ p with width := (number fmt).1 }, (number fmt).2, args)
      else pure (p, fmt, args)

/-- The precision behind its point. -/
def scanPrecAt (p : Param) (fmt : List Byte) (args : List Arg) :
    Except Fault (Param × List Byte × List Arg) :=
  match fmt with
  | [] => pure ({ p with prec := 0 }, [], args)
  | ch :: rest =>
      if ch = 0x2A then do
        let (value, args) ← vaInt args
        let prec := value.toInt
        pure ({ p with prec := if prec < 0 then -1 else prec }, rest, args)
      else if isDigit ch then
        pure ({ p with prec := (number fmt).1 }, (number fmt).2, args)
      else pure ({ p with prec := 0 }, fmt, args)

def scanPrec (p : Param) (fmt : List Byte) (args : List Arg) :
    Except Fault (Param × List Byte × List Arg) :=
  match fmt with
  | [] => pure (p, [], args)
  | ch :: rest => if ch = 0x2E then scanPrecAt p rest args else pure (p, fmt, args)

/-- `z`, `l` or `ll`, as `lng`. -/
def scanLength : List Byte → Nat × List Byte
  | [] => (0, [])
  | ch :: fmt =>
      if ch = 0x7A then (1, fmt)
      else if ch = 0x6C then (if fmt.head? = some 0x6C then (2, fmt.tail) else (1, fmt))
      else (0, ch :: fmt)

/-! ### Conversions -/

/-- `if (p.prec < 0) p.prec = 1;` -/
def Param.toBase (p : Param) (base : Nat) : Param :=
  { p with base := base, prec := if p.prec < 0 then 1 else p.prec }

/-- An unsigned number, as `lng` says. -/
def printUnsigned (lng : Nat) (p : Param) (args : List Arg) :
    Except Fault (List Byte × List Arg) :=
  if lng = 2 then do
    let (num, args) ← vaLong args
    let p ← ulli2a num p
    pure (putchw p, args)
  else if lng = 1 then do
    let (num, args) ← vaLong args
    let p ← uli2a num p
    pure (putchw p, args)
  else do
    let (num, args) ← vaInt args
    let p ← ui2a num p
    pure (putchw p, args)

/-- A signed number, as `lng` says. -/
def printSigned (lng : Nat) (p : Param) (args : List Arg) :
    Except Fault (List Byte × List Arg) :=
  if lng = 2 then do
    let (num, args) ← vaLong args
    let p ← lli2a num p
    pure (putchw p, args)
  else if lng = 1 then do
    let (num, args) ← vaLong args
    let p ← li2a num p
    pure (putchw p, args)
  else do
    let (num, args) ← vaInt args
    let p ← i2a num p
    pure (putchw p, args)

/-- `%o` reads an `unsigned int`, whatever `lng` says. -/
def printOctal (p : Param) (args : List Arg) : Except Fault (List Byte × List Arg) := do
  let (num, args) ← vaInt args
  let p ← ui2a num p
  pure (putchw p, args)

/-- A string, up to the precision. -/
def printText (p : Param) (args : List Arg) : Except Fault (List Byte × List Arg) := do
  let (bytes, args) ← vaText args
  let b := (bytes.take (BitVec.ofInt 32 p.prec).toNat).takeWhile (· ≠ 0)
  pure (putchw { p with bf := b, prec := -1 }, args)

/-- `switch (ch)` -/
def convert (ch : Byte) (lng : Nat) (p : Param) (args : List Arg) :
    Except Fault (List Byte × List Arg) :=
  if ch = 0x75 then printUnsigned lng (p.toBase 10) args
  else if ch = 0x64 ∨ ch = 0x69 then printSigned lng (p.toBase 10) args
  else if ch = 0x70 then printUnsigned 1 ({ p with alt := true, uc := false }.toBase 16) args
  else if ch = 0x78 ∨ ch = 0x58 then
    printUnsigned lng ({ p with uc := ch = 0x58 }.toBase 16) args
  else if ch = 0x6F then printOctal (p.toBase 8) args
  else if ch = 0x63 then do
    let (value, args) ← vaInt args
    pure ([value.setWidth 8], args)
  else if ch = 0x73 then printText p args
  else if ch = 0x25 then pure ([ch], args)
  else pure ([], args)

/-- `p.base` after the `switch`. -/
def baseAfter (ch : Byte) (base : Nat) : Nat :=
  if ch = 0x75 ∨ ch = 0x64 ∨ ch = 0x69 then 10
  else if ch = 0x70 ∨ ch = 0x78 ∨ ch = 0x58 then 16
  else if ch = 0x6F then 8
  else base

/-- "Init parameter struct": all but the base. -/
def Param.init (base : Nat) : Param := { base := base }

/-- What follows a `%`: the bytes printed, `p.base`, and the rest of the format and of the
arguments. A format that ends in a directive ends the call. -/
def directive (base : Nat) (fmt : List Byte) (args : List Arg) :
    Except Fault (List Byte × Nat × List Byte × List Arg) := do
  let (p, fmt) := scanFlags (.init base) fmt
  let p := if p.alignLeft then { p with lz := false } else p
  let (p, fmt, args) ← scanWidth p fmt args
  let (p, fmt, args) ← scanPrec p fmt args
  let p := if p.prec ≥ 0 then { p with lz := false } else p
  let (lng, fmt) := scanLength fmt
  match fmt with
  | [] => pure ([], base, [], args)
  | ch :: fmt => do
      let (out, args) ← convert ch lng p args
      pure (out, baseAfter ch base, fmt, args)

/-- A directive whose width and precision are read. -/
theorem directive_of_scans {p q : Param} {base : Nat} {fmt second third : List Byte}
    {args middle more : List Arg}
    (widths : scanWidth (if (scanFlags (.init base) fmt).1.alignLeft then
      { (scanFlags (.init base) fmt).1 with lz := false } else (scanFlags (.init base) fmt).1)
        (scanFlags (.init base) fmt).2 args = .ok (p, second, middle))
    (precisions : scanPrec p second middle = .ok (q, third, more)) :
    directive base fmt args = match (scanLength third).2 with
      | [] => pure ([], base, [], more)
      | ch :: fmt => convert ch (scanLength third).1
          (if q.prec ≥ 0 then { q with lz := false } else q) more >>= fun made =>
            pure (made.1, baseAfter ch base, fmt, made.2) := by
  rw [directive]
  dsimp only
  rw [widths]
  show (scanPrec p second middle >>= _) = _
  rw [precisions]
  rfl

/-! ### A directive is consumed -/

/-- A sequence that went well went through the result of its first part. -/
theorem bind_ok {α β : Type} {first : Except Fault α} {rest : α → Except Fault β} {result : β}
    (whole : first >>= rest = .ok result) :
    ∃ value, first = .ok value ∧ rest value = .ok result := by
  cases first with
  | error fault => cases whole
  | ok value => exact ⟨value, rfl, whole⟩

section Length

variable {p q : Param} {fmt rest : List Byte} {args more : List Arg}

theorem a2u_length (base num : Nat) (fmt : List Byte) :
    (a2u base num fmt).2.length ≤ fmt.length := by
  induction fmt generalizing num with
  | nil => simp [a2u]
  | cons ch fmt ih =>
      rw [a2u]
      split
      · exact Nat.le_refl _
      · split
        · exact Nat.le_refl _
        · exact Nat.le_succ_of_le (ih _)

theorem scanFlags_length (p : Param) (fmt : List Byte) :
    (scanFlags p fmt).2.length ≤ fmt.length := by
  induction fmt generalizing p with
  | nil => simp [scanFlags]
  | cons ch fmt ih =>
      rw [scanFlags]
      split_ifs
      · exact Nat.le_succ_of_le (ih _)
      · exact Nat.le_succ_of_le (ih _)
      · exact Nat.le_succ_of_le (ih _)
      · exact Nat.le_refl _

theorem scanWidth_length (scans : scanWidth p fmt args = .ok (q, rest, more)) :
    rest.length ≤ fmt.length := by
  cases fmt with
  | nil =>
      cases scans
      exact Nat.le_refl _
  | cons ch fmt =>
      rw [scanWidth] at scans
      split at scans
      · obtain ⟨⟨value, after⟩, -, scans⟩ := bind_ok scans
        cases scans
        exact Nat.le_succ _
      · split at scans
        · cases scans
          exact a2u_length 10 0 _
        · cases scans
          exact Nat.le_refl _

theorem scanPrecAt_length (scans : scanPrecAt p fmt args = .ok (q, rest, more)) :
    rest.length ≤ fmt.length := by
  cases fmt with
  | nil =>
      cases scans
      exact Nat.le_refl _
  | cons ch fmt =>
      rw [scanPrecAt] at scans
      split at scans
      · obtain ⟨⟨value, after⟩, -, scans⟩ := bind_ok scans
        cases scans
        exact Nat.le_succ _
      · split at scans
        · cases scans
          exact a2u_length 10 0 _
        · cases scans
          exact Nat.le_refl _

theorem scanPrec_length (scans : scanPrec p fmt args = .ok (q, rest, more)) :
    rest.length ≤ fmt.length := by
  cases fmt with
  | nil =>
      cases scans
      exact Nat.le_refl _
  | cons ch fmt =>
      rw [scanPrec] at scans
      split at scans
      · exact Nat.le_succ_of_le (scanPrecAt_length scans)
      · cases scans
        exact Nat.le_refl _

theorem scanLength_length (fmt : List Byte) : (scanLength fmt).2.length ≤ fmt.length := by
  cases fmt with
  | nil => exact Nat.le_refl _
  | cons ch fmt =>
      rw [scanLength]
      split_ifs
      · exact Nat.le_succ _
      · simp only [List.length_tail, List.length_cons]
        omega
      · exact Nat.le_succ _
      · exact Nat.le_refl _

/-- What is left of the format behind a directive. -/
theorem directive_length {out : List Byte} {base after : Nat}
    (reads : directive base fmt args = .ok (out, after, rest, more)) :
    rest.length ≤ fmt.length := by
  have flags := scanFlags_length (.init base) fmt
  rw [directive] at reads
  obtain ⟨⟨p, first, args⟩, widths, reads⟩ := bind_ok reads
  obtain ⟨⟨q, second, args⟩, precisions, reads⟩ := bind_ok reads
  have width := scanWidth_length widths
  have precision := scanPrec_length precisions
  have length := scanLength_length second
  dsimp only at reads
  split at reads
  · cases reads
    exact Nat.zero_le _
  · rename_i ch third found
    obtain ⟨⟨text, args⟩, -, reads⟩ := bind_ok reads
    cases reads
    rw [found, List.length_cons] at length
    omega

end Length

/-! ### The whole format -/

/-- **`tfp_format`**: the bytes given to `putf`, in their order. At the call, `base` is what the
stack holds in the place of `p.base`. -/
def tfpFormat (base : Nat) : List Byte → List Arg → Except Fault (List Byte)
  | [], _ => .ok []
  | ch :: fmt, args =>
      if ch ≠ 0x25 then (ch :: ·) <$> tfpFormat base fmt args
      else
        match _reads : directive base fmt args with
        | .error fault => .error fault
        | .ok (out, base, rest, args) => (out ++ ·) <$> tfpFormat base rest args
termination_by fmt => fmt.length
decreasing_by
  · exact Nat.lt_succ_self _
  · exact Nat.lt_succ_of_le (directive_length _reads)

/-! ### No fault but a wrong argument -/

/-- The only fault is an argument that is missing or of another type. -/
def Safe {α : Type} (result : Except Fault α) : Prop :=
  ∀ fault, result = .error fault → fault = .argument

theorem Safe.ok {α : Type} (value : α) : Safe (.ok value) := nofun

theorem Safe.bind {α β : Type} {first : Except Fault α} {rest : α → Except Fault β}
    (begins : Safe first) (goesOn : ∀ value, first = .ok value → Safe (rest value)) :
    Safe (first >>= rest) := by
  cases first with
  | error fault =>
      intro other same
      cases same
      exact begins fault rfl
  | ok value => exact goesOn value rfl

theorem vaInt_safe (args : List Arg) : Safe (vaInt args) := by
  rintro fault fails
  cases args with
  | nil => cases fails; rfl
  | cons arg args => cases arg <;> cases fails; rfl

theorem vaLong_safe (args : List Arg) : Safe (vaLong args) := by
  rintro fault fails
  cases args with
  | nil => cases fails; rfl
  | cons arg args => cases arg <;> cases fails; rfl

theorem vaText_safe (args : List Arg) : Safe (vaText args) := by
  rintro fault fails
  cases args with
  | nil => cases fails; rfl
  | cons arg args => cases arg <;> cases fails; rfl

section Safe

variable {p : Param} {fmt : List Byte} {args : List Arg}

theorem scanWidth_safe (p : Param) (fmt : List Byte) (args : List Arg) :
    Safe (scanWidth p fmt args) := by
  cases fmt with
  | nil => exact .ok _
  | cons ch fmt =>
      rw [scanWidth]
      split_ifs
      · exact (vaInt_safe args).bind fun value _ => .ok _
      · exact .ok _
      · exact .ok _

theorem scanPrec_safe (p : Param) (fmt : List Byte) (args : List Arg) :
    Safe (scanPrec p fmt args) := by
  cases fmt with
  | nil => exact .ok _
  | cons ch fmt =>
      rw [scanPrec]
      split_ifs
      · cases fmt with
        | nil => exact .ok _
        | cons ch fmt =>
            rw [scanPrecAt]
            split_ifs
            · exact (vaInt_safe args).bind fun value _ => .ok _
            · exact .ok _
            · exact .ok _
      · exact .ok _

/-- An unsigned number to base 10 or 16 has room in the buffer. -/
theorem printUnsigned_safe (large : 10 ≤ p.base) (lng : Nat) (args : List Arg) :
    Safe (printUnsigned lng p args) := by
  have wide (num : BitVec 64) : unsignedToA 64 num.toNat p = .ok (p.filled num.toNat) :=
    unsignedToA_eq (by omega) num.isLt (room_of_base large num.isLt.le)
  have narrow (num : BitVec 32) : unsignedToA 32 num.toNat p = .ok (p.filled num.toNat) :=
    unsignedToA_eq (by omega) num.isLt (room_of_base large (by have := num.isLt; omega))
  rw [printUnsigned]
  split_ifs
  · refine (vaLong_safe args).bind fun ⟨num, more⟩ _ => ?_
    show Safe (unsignedToA 64 num.toNat p >>= _)
    rw [wide]
    exact .ok _
  · refine (vaLong_safe args).bind fun ⟨num, more⟩ _ => ?_
    show Safe (unsignedToA 64 num.toNat p >>= _)
    rw [wide]
    exact .ok _
  · refine (vaInt_safe args).bind fun ⟨num, more⟩ _ => ?_
    show Safe (unsignedToA 32 num.toNat p >>= _)
    rw [narrow]
    exact .ok _

/-- So has a signed one. -/
theorem printSigned_safe (large : 10 ≤ p.base) (lng : Nat) (args : List Arg) :
    Safe (printSigned lng p args) := by
  have wide (num : BitVec 64) : ∃ q, signedToA 64 num.toInt p = .ok q := by
    have low := BitVec.le_toInt num
    have high := BitVec.toInt_lt (x := num)
    exact ⟨_, signedToA_eq (by omega) (by omega) (room_of_base large (by omega))⟩
  have narrow (num : BitVec 32) : ∃ q, signedToA 32 num.toInt p = .ok q := by
    have low := BitVec.le_toInt num
    have high := BitVec.toInt_lt (x := num)
    exact ⟨_, signedToA_eq (by omega) (by omega) (room_of_base large (by omega))⟩
  rw [printSigned]
  split_ifs
  · refine (vaLong_safe args).bind fun ⟨num, more⟩ _ => ?_
    obtain ⟨q, same⟩ := wide num
    show Safe (signedToA 64 num.toInt p >>= _)
    rw [same]
    exact .ok _
  · refine (vaLong_safe args).bind fun ⟨num, more⟩ _ => ?_
    obtain ⟨q, same⟩ := wide num
    show Safe (signedToA 64 num.toInt p >>= _)
    rw [same]
    exact .ok _
  · refine (vaInt_safe args).bind fun ⟨num, more⟩ _ => ?_
    obtain ⟨q, same⟩ := narrow num
    show Safe (signedToA 32 num.toInt p >>= _)
    rw [same]
    exact .ok _

/-- To base 8 there is room for the digits of 32 bits; 64 bits would have 22 of them. -/
theorem printOctal_safe (octal : p.base = 8) (args : List Arg) : Safe (printOctal p args) := by
  refine (vaInt_safe args).bind fun ⟨num, more⟩ _ => ?_
  have room : num.toNat < p.base ^ bfMax := by
    rw [octal]
    exact num.isLt.trans (by decide)
  show Safe (unsignedToA 32 num.toNat p >>= _)
  rw [unsignedToA_eq (by omega) num.isLt room]
  exact .ok _

theorem convert_safe (ch : Byte) (lng : Nat) (p : Param) (args : List Arg) :
    Safe (convert ch lng p args) := by
  rw [convert]
  split_ifs
  · exact printUnsigned_safe (le_refl 10) lng args
  · exact printSigned_safe (le_refl 10) lng args
  · exact printUnsigned_safe (by decide : 10 ≤ 16) 1 args
  · exact printUnsigned_safe (by decide : 10 ≤ 16) lng args
  · exact printOctal_safe rfl args
  · exact (vaInt_safe args).bind fun value _ => .ok _
  · exact (vaText_safe args).bind fun value _ => .ok _
  · exact .ok _
  · exact .ok _

theorem directive_safe (base : Nat) (fmt : List Byte) (args : List Arg) :
    Safe (directive base fmt args) := by
  rw [directive]
  refine (scanWidth_safe _ _ args).bind fun width _ => ?_
  refine (scanPrec_safe _ _ _).bind fun precision _ => ?_
  dsimp only
  split
  · exact .ok _
  · exact (convert_safe _ _ _ _).bind fun out _ => .ok _

end Safe

/-! ### Steps of the loop -/

section Steps

variable {base after : Nat} {fmt rest out : List Byte} {args more : List Arg}

@[simp] theorem tfpFormat_nil (base : Nat) (args : List Arg) : tfpFormat base [] args = .ok [] := by
  rw [tfpFormat]

/-- A character of its own. -/
theorem tfpFormat_cons {ch : Byte} (plain : ch ≠ 0x25) (base : Nat) (fmt : List Byte)
    (args : List Arg) :
    tfpFormat base (ch :: fmt) args = (ch :: ·) <$> tfpFormat base fmt args := by
  rw [tfpFormat, if_pos plain]

/-- A directive. -/
theorem tfpFormat_directive (reads : directive base fmt args = .ok (out, after, rest, more)) :
    tfpFormat base (0x25 :: fmt) args = (out ++ ·) <$> tfpFormat after rest more := by
  rw [tfpFormat, if_neg (not_not.mpr rfl)]
  split
  · rename_i fault fails
    rw [reads] at fails
    cases fails
  · rename_i other next others arguments found
    rw [reads] at found
    cases found
    rfl

theorem tfpFormat_fault {fault : Fault} (fails : directive base fmt args = .error fault) :
    tfpFormat base (0x25 :: fmt) args = .error fault := by
  rw [tfpFormat, if_neg (not_not.mpr rfl)]
  split
  · rename_i other found
    rw [fails] at found
    cases found
    rfl
  · rename_i other next others arguments found
    rw [fails] at found
    cases found

end Steps

/-- **Every call comes to its end within its buffers**: the only fault is an argument that is
missing or of another type. -/
theorem tfpFormat_safe (base : Nat) (fmt : List Byte) (args : List Arg) :
    tfpFormat base fmt args = .error .argument ∨ ∃ out, tfpFormat base fmt args = .ok out := by
  induction base, fmt, args using tfpFormat.induct with
  | case1 base args => exact .inr ⟨[], tfpFormat_nil base args⟩
  | case2 base ch fmt args plain ih =>
      rw [tfpFormat_cons plain]
      obtain fails | ⟨out, prints⟩ := ih
      · rw [fails]
        exact .inl rfl
      · rw [prints]
        exact .inr ⟨_, rfl⟩
  | case3 base ch fmt args percent fault fails =>
      obtain rfl := not_not.mp percent
      rw [tfpFormat_fault fails, directive_safe base fmt args fault fails]
      exact .inl rfl
  | case4 base ch fmt args percent out after rest more reads ih =>
      obtain rfl := not_not.mp percent
      rw [tfpFormat_directive reads]
      obtain fails | ⟨out, prints⟩ := ih
      · rw [fails]
        exact .inl rfl
      · rw [prints]
        exact .inr ⟨_, rfl⟩

/-! ### Into memory -/

/-- The memory, and `num_chars`. -/
abbrev Sink := (Nat → Byte) × Nat

/-- `_vsnprintf_putcf` -/
def vsnprintfPutcf (destCapacity dest : Nat) (data : Sink) (c : Byte) : Sink :=
  (if data.2 < destCapacity then Function.update data.1 (dest + data.2) c else data.1, data.2 + 1)

/-- `_vsprintf_putcf` -/
def vsprintfPutcf (dest : Nat) (data : Sink) (c : Byte) : Sink :=
  (Function.update data.1 (dest + data.2) c, data.2 + 1)

/-- The returned count, as an `int`. -/
def countOf (numChars : Nat) : Int := (BitVec.ofNat 32 numChars).toInt

/-- `base` is what the stack holds for `tfp_format`. -/
def tfpVsnprintf (base : Nat) (ram : Nat → Byte) (str size : Nat) (format : List Byte)
    (ap : List Arg) : Except Fault (Int × (Nat → Byte)) :=
  if size < 1 then pure (0, ram)
  else do
    let destCapacity := size - 1
    let out ← tfpFormat base format ap
    let (ram, numChars) := out.foldl (vsnprintfPutcf destCapacity str) (ram, 0)
    let ram := if numChars < destCapacity then Function.update ram (str + numChars) 0
      else Function.update ram (str + destCapacity) 0
    pure (countOf numChars, ram)

def tfpVsprintf (base : Nat) (ram : Nat → Byte) (str : Nat) (format : List Byte)
    (ap : List Arg) : Except Fault (Int × (Nat → Byte)) := do
  let out ← tfpFormat base format ap
  let (ram, numChars) := out.foldl (vsprintfPutcf str) (ram, 0)
  pure (countOf numChars, Function.update ram (str + numChars) 0)

theorem writeRange_singleton (ram : Nat → Byte) (a : Nat) (c : Byte) :
    writeRange ram a [c] = Function.update ram a c := by
  funext x
  by_cases here : x = a
  · subst here
    simp [writeRange]
  · rw [Function.update_of_ne here, writeRange_outside]
    simp only [List.length_singleton]
    omega

theorem vsnprintfPutcf_foldl (destCapacity dest : Nat) (ram : Nat → Byte) (out : List Byte) :
    out.foldl (vsnprintfPutcf destCapacity dest) (ram, 0) =
      (writeRange ram dest (out.take destCapacity), out.length) := by
  induction out using List.reverseRecOn with
  | nil => simp
  | append_singleton out c ih =>
      rw [List.foldl_append, ih, List.foldl_cons, List.foldl_nil, vsnprintfPutcf]
      by_cases room : out.length < destCapacity
      · rw [if_pos room, List.take_of_length_le (by omega), List.take_of_length_le (by simp; omega),
          writeRange_append, writeRange_singleton]
        simp
      · rw [if_neg room, List.take_append_of_le_length (by omega)]
        simp

theorem vsprintfPutcf_foldl (dest : Nat) (ram : Nat → Byte) (out : List Byte) :
    out.foldl (vsprintfPutcf dest) (ram, 0) = (writeRange ram dest out, out.length) := by
  induction out using List.reverseRecOn with
  | nil => simp
  | append_singleton out c ih =>
      rw [List.foldl_append, ih, List.foldl_cons, List.foldl_nil, vsprintfPutcf, writeRange_append,
        writeRange_singleton]
      simp

/-- A text is cut to the size of its place, and ends in a NUL there. -/
theorem tfpVsnprintf_ok {base : Nat} (ram : Nat → Byte) (str : Nat) {size : Nat}
    {format : List Byte} {ap : List Arg} {out : List Byte} (place : 1 ≤ size)
    (prints : tfpFormat base format ap = .ok out) :
    tfpVsnprintf base ram str size format ap =
      .ok (countOf out.length, writeRange ram str (out.take (size - 1) ++ [0])) := by
  rw [tfpVsnprintf, if_neg (Nat.not_lt.mpr place), prints]
  show (Except.ok (countOf _, _) : Except Fault _) = _
  rw [vsnprintfPutcf_foldl]
  dsimp only
  rw [writeRange_append, writeRange_singleton, List.length_take]
  by_cases short : out.length < size - 1
  · rw [if_pos short, min_eq_right short.le]
  · rw [if_neg short, min_eq_left (not_lt.mp short)]

/-- Without a size, it is stored as a whole. -/
theorem tfpVsprintf_ok {base : Nat} (ram : Nat → Byte) (str : Nat) {format : List Byte}
    {ap : List Arg} {out : List Byte} (prints : tfpFormat base format ap = .ok out) :
    tfpVsprintf base ram str format ap =
      .ok (countOf out.length, writeRange ram str (out ++ [0])) := by
  rw [tfpVsprintf, prints]
  show (Except.ok (countOf _, _) : Except Fault _) = _
  rw [vsprintfPutcf_foldl, writeRange_append, writeRange_singleton]

/-- **Any format and any arguments**, whatever the stack holds: either an argument is missing or of
another type, or the call comes to its end within the buffer of the conversions, and stores the
text, cut to the size of its place and with a NUL at its end, and nothing else. A text that fits is
the one `tfp_vsprintf` stores. -/
theorem tfpVsnprintf_bounded (base : Nat) (ram : Nat → Byte) (str size : Nat)
    (format : List Byte) (ap : List Arg) (place : 1 ≤ size) :
    tfpVsnprintf base ram str size format ap = .error .argument ∨
    ∃ out, tfpFormat base format ap = .ok out ∧ tfpVsnprintf base ram str size format ap =
        .ok (countOf out.length, writeRange ram str (out.take (size - 1) ++ [0])) ∧
      (out.length < size →
        tfpVsprintf base ram str format ap = tfpVsnprintf base ram str size format ap) := by
  obtain fails | ⟨out, prints⟩ := tfpFormat_safe base format ap
  · rw [tfpVsnprintf, if_neg (Nat.not_lt.mpr place), fails]
    exact .inl rfl
  · refine .inr ⟨out, prints, tfpVsnprintf_ok ram str place prints, fun fits => ?_⟩
    rw [tfpVsnprintf_ok ram str place prints, tfpVsprintf_ok ram str prints,
      List.take_of_length_le (by omega)]

/-- `%x%#s` in a place of four bytes: the string has the prefix of the number's base. -/
theorem tfpVsnprintf_bounded_four :
    tfpVsnprintf 0 (fun _ => 0) 0x80000000 4 [0x25, 0x78, 0x25, 0x23, 0x73]
        [.word 1, .text [0x61]] = .error .argument ∨
    ∃ out, tfpFormat 0 [0x25, 0x78, 0x25, 0x23, 0x73] [.word 1, .text [0x61]] = .ok out ∧
      tfpVsnprintf 0 (fun _ => 0) 0x80000000 4 [0x25, 0x78, 0x25, 0x23, 0x73]
          [.word 1, .text [0x61]] =
        .ok (countOf out.length,
          writeRange (fun _ => 0) 0x80000000 (out.take (4 - 1) ++ [0])) ∧
      (out.length < 4 →
        tfpVsprintf 0 (fun _ => 0) 0x80000000 [0x25, 0x78, 0x25, 0x23, 0x73]
            [.word 1, .text [0x61]] =
          tfpVsnprintf 0 (fun _ => 0) 0x80000000 4 [0x25, 0x78, 0x25, 0x23, 0x73]
            [.word 1, .text [0x61]]) :=
  tfpVsnprintf_bounded 0 _ _ 4 _ _ (by decide)

end Printf

end K210Guard
