/-
**The language of formats** (`bsp/printf.c`).

A format is spelled from characters and directives; a directive has flags, a width, a precision, a
length and a conversion, and what it prints is said here without the text it is spelled by. A
number leaves its base to the directives after it: `%#s` has the prefix of the number before it.

* `tfpFormat_spell`: the formatter prints what the pieces of its format mean, for every list of
  pieces and all arguments that go with them.
-/

import K210Guard.Printf.Format

namespace K210Guard

namespace Printf

/-! ### Directives -/

inductive Flag
  | minus
  | zero
  | hash
  deriving DecidableEq

def Flag.byte : Flag → Byte
  | .minus => 0x2D
  | .zero => 0x30
  | .hash => 0x23

/-- A number in a directive, or in place of it an argument. -/
inductive Count
  | digits (n : Nat) (fits : n < 2 ^ 31)
  | star

inductive Precision
  | none
  | bare
  | given (count : Count)

inductive Length
  | none
  | z
  | l
  | ll

inductive Conv
  | u
  | d
  | i
  | p
  | x
  | upperX
  | o
  | c
  | s
  | percent
  deriving DecidableEq

/-- A directive; a width of 0 would be spelled like a flag. -/
structure Directive where
  flags : List Flag
  width : Option Count
  precision : Precision
  length : Length
  conv : Conv
  positive : ∀ n fits, width = some (.digits n fits) → 0 < n

/-- A width that is an argument is not 0 in the format. -/
theorem star_positive : ∀ n fits, some Count.star = some (.digits n fits) → 0 < n :=
  fun _ _ same => absurd (Option.some.inj same) (by simp)

/-- Nor is one that is missing. -/
theorem none_positive : ∀ n fits, none = some (Count.digits n fits) → 0 < n :=
  fun _ _ same => absurd same (by simp)

/-! ### How they are spelled -/

def Count.spell : Count → List Byte
  | .digits n _ => textOf 10 false n
  | .star => [0x2A]

def Precision.spell : Precision → List Byte
  | .none => []
  | .bare => [0x2E]
  | .given count => 0x2E :: count.spell

def Length.spell : Length → List Byte
  | .none => []
  | .z => [0x7A]
  | .l => [0x6C]
  | .ll => [0x6C, 0x6C]

def Conv.byte : Conv → Byte
  | .u => 0x75
  | .d => 0x64
  | .i => 0x69
  | .p => 0x70
  | .x => 0x78
  | .upperX => 0x58
  | .o => 0x6F
  | .c => 0x63
  | .s => 0x73
  | .percent => 0x25

/-- A width that may be missing. -/
def spellWidth : Option Count → List Byte
  | none => []
  | some count => count.spell

/-- A directive behind its `%`. -/
def Directive.spell (d : Directive) : List Byte :=
  d.flags.map Flag.byte ++ spellWidth d.width ++ d.precision.spell ++ d.length.spell ++
    [d.conv.byte]

/-! ### What they mean -/

/-- The value of a number, and the arguments that are left. -/
def Count.value : Count → List Arg → Option (Int × List Arg)
  | .digits n _, args => some (n, args)
  | .star, .word value :: args => some ((value.setWidth 32).toInt, args)
  | .star, _ => none

/-- A negative width aligns to the left. The lowest `int` has no opposite. -/
def setWidth (p : Param) : Option Count → List Arg → Option (Param × List Arg)
  | none, args => some (p, args)
  | some count, args => do
      let (width, args) ← count.value args
      if width = -2 ^ 31 then none
      else pure ({ p with alignLeft := p.alignLeft || width < 0, width := width.natAbs }, args)

/-- A negative precision is none. -/
def setPrecision (p : Param) : Precision → List Arg → Option (Param × List Arg)
  | .none, args => some (p, args)
  | .bare, args => some ({ p with prec := 0 }, args)
  | .given count, args => do
      let (prec, args) ← count.value args
      pure ({ p with prec := max prec (-1) }, args)

/-- The flags of a directive; a flag `0` stands back behind a flag `-`. -/
def Directive.flagged (d : Directive) (base : Nat) : Param where
  lz := .zero ∈ d.flags ∧ .minus ∉ d.flags
  alt := .hash ∈ d.flags
  alignLeft := .minus ∈ d.flags
  base := base

/-- The field of a directive: a flag `0` stands back behind a precision, but not behind a width that
aligns to the left. -/
def Directive.param (d : Directive) (base : Nat) (args : List Arg) :
    Option (Param × List Arg) := do
  let (p, args) ← setWidth (d.flagged base) d.width args
  let (p, args) ← setPrecision p d.precision args
  pure ({ p with lz := p.lz ∧ p.prec < 0 }, args)

/-- An unsigned argument: 32 bits of it, or all. -/
def Length.unsigned : Length → List Arg → Option (Nat × List Arg)
  | .none, .word value :: args => some (value.toNat % 2 ^ 32, args)
  | _, .word value :: args => some (value.toNat, args)
  | _, _ => Option.none

/-- A signed argument: 32 bits of it, or all. -/
def Length.signed : Length → List Arg → Option (Int × List Arg)
  | .none, .word value :: args => some ((value.setWidth 32).toInt, args)
  | _, .word value :: args => some (value.toInt, args)
  | _, _ => Option.none

/-- A number to a base, in its field. -/
def Param.number (p : Param) (base : Nat) (num : Int) : List Byte :=
  ((if num < 0 then { p.toBase base with sign := 0x2D } else p.toBase base).filled num.natAbs).field

/-- What a conversion prints, and the arguments that are left. -/
def Conv.print (lng : Length) (p : Param) (args : List Arg) :
    Conv → Option (List Byte × List Arg)
  | .u => do
      let (num, args) ← lng.unsigned args
      pure (p.number 10 num, args)
  | .d | .i => do
      let (num, args) ← lng.signed args
      pure (p.number 10 num, args)
  | .p => do
      let (num, args) ← Length.l.unsigned args
      pure ({ p with alt := true }.number 16 num, args)
  | .x => do
      let (num, args) ← lng.unsigned args
      pure (p.number 16 num, args)
  | .upperX => do
      let (num, args) ← lng.unsigned args
      pure ({ p with uc := true }.number 16 num, args)
  | .o => do
      let (num, args) ← Length.none.unsigned args
      pure (p.number 8 num, args)
  | .c =>
      match args with
      | .word value :: args => some ([value.setWidth 8], args)
      | _ => none
  | .s =>
      match args with
      | .text bytes :: args =>
          if bytes.contains 0 ∨ 2 ^ 31 - 1 ≤ bytes.length then none
          else
            let shown := if p.prec < 0 then bytes else bytes.take p.prec.toNat
            some ({ p with bf := shown, prec := -1 }.field, args)
      | _ => none
  | .percent => some ([0x25], args)

/-- The base that a conversion leaves behind. -/
def Conv.leaves (base : Nat) : Conv → Nat
  | .u | .d | .i => 10
  | .p | .x | .upperX => 16
  | .o => 8
  | .c | .s | .percent => base

/-- What a directive prints, and the arguments that are left. -/
def Directive.print (d : Directive) (base : Nat) (args : List Arg) :
    Option (List Byte × List Arg) := do
  let (p, args) ← d.param base args
  d.conv.print d.length p args

/-- A piece of a format, which ends at a NUL. -/
inductive Piece
  | char (ch : Byte) (plain : ch ≠ 0 ∧ ch ≠ 0x25)
  | directive (d : Directive)

def Piece.spell : Piece → List Byte
  | .char ch _ => [ch]
  | .directive d => 0x25 :: d.spell

/-- The format that is spelled by its pieces. -/
def spell (pieces : List Piece) : List Byte := pieces.flatMap Piece.spell

/-- What the pieces print, behind a base; `none` if the arguments do not go with them. -/
def print (base : Nat) : List Piece → List Arg → Option (List Byte)
  | [], _ => some []
  | .char ch _ :: pieces, args => (ch :: ·) <$> print base pieces args
  | .directive d :: pieces, args => do
      let (out, args) ← d.print base args
      (out ++ ·) <$> print (d.conv.leaves base) pieces args

theorem print_char {ch : Byte} (plain : ch ≠ 0 ∧ ch ≠ 0x25) (base : Nat) (pieces : List Piece)
    (args : List Arg) :
    print base (.char ch plain :: pieces) args = (print base pieces args).map (ch :: ·) := rfl

/-- A directive that goes with its arguments. -/
theorem print_directive {d : Directive} {base : Nat} {args more : List Arg} {out : List Byte}
    (prints : d.print base args = some (out, more)) (pieces : List Piece) :
    print base (.directive d :: pieces) args =
      (print (d.conv.leaves base) pieces more).map (out ++ ·) := by
  rw [print, prints]
  rfl

/-! ### Reading numbers back -/

/-- What may stand behind a width or a precision: the point, a length or a conversion. -/
def followers : List Byte :=
  [0x2E, 0x7A, 0x6C, 0x75, 0x64, 0x69, 0x70, 0x78, 0x58, 0x6F, 0x63, 0x73, 0x25]

/-- The format goes on with one of them. -/
def Follows (fmt : List Byte) : Prop := ∃ ch tail, fmt = ch :: tail ∧ ch ∈ followers

theorem a2d_digitByte {d : Nat} (small : d < 10) : a2d (digitByte false d) = some d := by
  revert d
  decide

theorem isDigit_digitByte {d : Nat} (small : d < 10) : isDigit (digitByte false d) = true := by
  revert d
  decide

/-- No number goes on with a follower; `c` and `d` pass for digits, but are too large. -/
theorem Follows.a2u_stops {fmt : List Byte} (follows : Follows fmt) (num : Nat) :
    a2u 10 num fmt = (num, fmt) := by
  obtain ⟨ch, tail, rfl, member⟩ := follows
  have stops : ∀ ch ∈ followers, a2d ch = none ∨ ∃ digit, a2d ch = some digit ∧ 10 < digit :=
    List.forall_iff_forall_mem.mp (by decide +kernel)
  rw [a2u]
  obtain no | ⟨digit, some, large⟩ := stops ch member
  · rw [no]
  · rw [some]
    exact if_pos large

theorem a2u_digits {rest : List Byte} (follows : Follows rest) (digits : List Nat)
    (small : ∀ d ∈ digits, d < 10) (num : Nat) :
    (a2u 10 num (digits.map (digitByte false) ++ rest)).1 ≡ Radix.read 10 num digits [MOD 2 ^ 32] ∧
      (a2u 10 num (digits.map (digitByte false) ++ rest)).2 = rest := by
  induction digits generalizing num with
  | nil =>
      rw [List.map_nil, List.nil_append, follows.a2u_stops]
      exact ⟨.refl _, rfl⟩
  | cons d digits ih =>
      have below := small d List.mem_cons_self
      obtain ⟨value, left⟩ := ih (fun e later => small e (List.mem_cons_of_mem d later))
        ((num * 10 + d) % 2 ^ 32)
      rw [List.map_cons, List.cons_append, a2u, a2d_digitByte below]
      dsimp only
      rw [if_neg (by omega)]
      refine ⟨value.trans ?_, left⟩
      show _ ≡ Radix.read 10 (num * 10 + d) digits [MOD 2 ^ 32]
      rw [Radix.read_eq, Radix.read_eq]
      exact ((Nat.mod_modEq _ _).mul_right _).add_right _

theorem digitsOf_lt {base : Nat} (large : 1 < base) (n : Nat) :
    ∀ d ∈ digitsOf base n, d < base := by
  rw [digitsOf]
  split
  · simpa using Nat.zero_lt_of_lt large
  · intro d member
    exact Nat.digits_lt_base large (List.mem_reverse.mp member)

/-- The digits make the number. -/
theorem read_digitsOf (base n : Nat) : Radix.read base 0 (digitsOf base n) = n := by
  rw [Radix.read_eq, digitsOf, zero_mul, zero_add]
  split
  · rename_i zero
    simp [zero]
  · rw [List.reverse_reverse, Nat.ofDigits_digits]

/-- **A number in the format is read as it was spelled.** -/
theorem number_spell {n : Nat} (fits : n < 2 ^ 31) {rest : List Byte} (follows : Follows rest) :
    number (textOf 10 false n ++ rest) = ((n : Int), rest) := by
  obtain ⟨value, left⟩ :=
    a2u_digits follows (digitsOf 10 n) (digitsOf_lt (by decide) n) 0
  rw [read_digitsOf] at value
  have same : BitVec.ofNat 32 (a2u 10 0 (textOf 10 false n ++ rest)).1 = BitVec.ofNat 32 n :=
    BitVec.eq_of_toNat_eq (by rw [BitVec.toNat_ofNat, BitVec.toNat_ofNat]; exact value)
  rw [number, same]
  refine Prod.ext ?_ left
  rw [BitVec.toInt_eq_toNat_of_lt (by rw [BitVec.toNat_ofNat]; omega), BitVec.toNat_ofNat]
  simp only
  omega

/-- The text of a number starts with a digit, and with one other than 0 if the number is not 0. -/
theorem textOf_head (n : Nat) :
    ∃ d tail, textOf 10 false n = digitByte false d :: tail ∧ d < 10 ∧ (0 < n → 0 < d) := by
  by_cases zero : n = 0
  · subst zero
    exact ⟨0, [], rfl, by decide, id⟩
  · have digits : digitsOf 10 n = (Nat.digits 10 n).reverse := by
      rw [digitsOf, if_neg zero]
    have nonempty : Nat.digits 10 n ≠ [] := Nat.digits_ne_nil_iff_ne_zero.mpr zero
    obtain ⟨front, d, split⟩ := (List.eq_nil_or_concat (Nat.digits 10 n)).resolve_left nonempty
    have last : d ≠ 0 := by
      have nonzero := Nat.getLast_digit_ne_zero 10 zero
      simpa [split] using nonzero
    refine ⟨d, front.reverse.map (digitByte false), ?_, ?_, fun _ => Nat.pos_of_ne_zero last⟩
    · rw [textOf, digits, split]
      simp
    · exact Nat.digits_lt_base (by decide) (by rw [split]; simp)

/-! ### Reading a directive back -/

section Scan

variable {p q : Param} {rest : List Byte} {args more : List Arg}

/-- The flags, in any order and any number. -/
theorem scanFlags_spell (p : Param) (flags : List Flag)
    (stops : ∀ flag : Flag, rest.head? ≠ some flag.byte) :
    scanFlags p (flags.map Flag.byte ++ rest) =
      ({ p with
          alignLeft := p.alignLeft || .minus ∈ flags
          lz := p.lz || .zero ∈ flags
          alt := p.alt || .hash ∈ flags }, rest) := by
  induction flags generalizing p with
  | nil =>
      cases rest with
      | nil => simp [scanFlags]
      | cons ch tail =>
          have no (flag : Flag) : ch ≠ flag.byte := fun same => stops flag (congrArg some same)
          rw [List.map_nil, List.nil_append, scanFlags,
            if_neg (show ch ≠ 0x2D from no .minus), if_neg (show ch ≠ 0x30 from no .zero),
            if_neg (show ch ≠ 0x23 from no .hash)]
          simp
  | cons flag flags ih =>
      rw [List.map_cons, List.cons_append, scanFlags]
      cases flag <;> simp [Flag.byte, ih]

/-- What stands behind a width and a precision is neither of them. -/
theorem Follows.head {fmt : List Byte} (follows : Follows fmt) :
    ∃ ch tail, fmt = ch :: tail ∧ ch ≠ 0x2A ∧ isDigit ch = false ∧ ch ∈ followers := by
  obtain ⟨ch, tail, rfl, member⟩ := follows
  have plain : ∀ ch ∈ followers, ch ≠ 0x2A ∧ isDigit ch = false :=
    List.forall_iff_forall_mem.mp (by decide +kernel)
  exact ⟨ch, tail, rfl, (plain ch member).1, (plain ch member).2, member⟩

/-- A digit is not a star. -/
theorem isDigit_star {ch : Byte} (digit : isDigit ch = true) : ch ≠ 0x2A := by
  rintro rfl
  exact absurd digit (by decide)

theorem scanWidth_spell {width : Option Count}
    (positive : ∀ n fits, width = some (.digits n fits) → 0 < n) (follows : Follows rest)
    (sets : setWidth p width args = some (q, more)) :
    scanWidth p (spellWidth width ++ rest) args = .ok (q, rest, more) := by
  cases width with
  | none =>
      obtain ⟨ch, tail, rfl, star, digit, -⟩ := follows.head
      cases sets
      rw [spellWidth, List.nil_append, scanWidth, if_neg star, if_neg (by simp [digit])]
      rfl
  | some count =>
  cases count with
  | digits n fits =>
      obtain ⟨d, tail, text, small, -⟩ := textOf_head n
      have digit := isDigit_digitByte small
      have reads := number_spell fits follows
      rw [text, List.cons_append] at reads
      have inside : (n : Int) ≠ -2 ^ 31 := by omega
      rw [setWidth] at sets
      replace sets : (if (n : Int) = -2 ^ 31 then none
          else some ({ p with
            alignLeft := p.alignLeft || (n : Int) < 0
            width := (n : Int).natAbs }, args)) = some (q, more) := sets
      rw [if_neg inside] at sets
      cases sets
      show scanWidth p (textOf 10 false n ++ rest) args = _
      rw [text, List.cons_append, scanWidth, if_neg (isDigit_star digit), if_pos digit, reads]
      have notLeft : decide ((n : Int) < 0) = false := decide_eq_false (by omega)
      rw [notLeft, Bool.or_false, Int.natAbs_natCast]
      rfl
  | star =>
      cases args with
      | nil => cases sets
      | cons arg args =>
      cases arg with
      | text bytes => cases sets
      | word value =>
          replace sets : (if (value.setWidth 32).toInt = -2 ^ 31 then none
              else some ({ p with
                alignLeft := p.alignLeft || (value.setWidth 32).toInt < 0
                width := (value.setWidth 32).toInt.natAbs }, args)) = some (q, more) := sets
          by_cases lowest : (value.setWidth 32).toInt = -2 ^ 31
          · rw [if_pos lowest] at sets
            cases sets
          · rw [if_neg lowest] at sets
            cases sets
            show scanWidth p (0x2A :: rest) (.word value :: more) = _
            rw [scanWidth, if_pos rfl]
            show Except.ok (if (value.setWidth 32).toInt < 0 then _ else _, rest, more) = _
            by_cases negative : (value.setWidth 32).toInt < 0
            · rw [if_pos negative, decide_eq_true negative, Bool.or_true,
                Int.ofNat_natAbs_of_nonpos negative.le]
            · rw [if_neg negative, decide_eq_false negative, Bool.or_false,
                Int.natAbs_of_nonneg (not_lt.mp negative)]

theorem scanPrec_spell {precision : Precision} (follows : Follows rest)
    (noPoint : rest.head? ≠ some 0x2E) (sets : setPrecision p precision args = some (q, more)) :
    scanPrec p (precision.spell ++ rest) args = .ok (q, rest, more) := by
  cases precision with
  | none =>
      obtain ⟨ch, tail, rfl, -⟩ := follows.head
      cases sets
      exact if_neg fun point => noPoint (congrArg some point)
  | bare =>
      obtain ⟨ch, tail, rfl, star, digit, -⟩ := follows.head
      cases sets
      show scanPrecAt p (ch :: tail) args = _
      rw [scanPrecAt, if_neg star, if_neg (by simp [digit])]
      rfl
  | given count =>
  cases count with
  | digits n fits =>
      obtain ⟨d, tail, text, small, -⟩ := textOf_head n
      have digit := isDigit_digitByte small
      have reads := number_spell fits follows
      rw [text, List.cons_append] at reads
      cases sets
      show scanPrecAt p (textOf 10 false n ++ rest) args = _
      rw [text, List.cons_append, scanPrecAt, if_neg (isDigit_star digit), if_pos digit, reads,
        max_eq_left (by omega)]
      rfl
  | star =>
      cases args with
      | nil => cases sets
      | cons arg args =>
      cases arg with
      | text bytes => cases sets
      | word value =>
          cases sets
          show scanPrecAt p (0x2A :: rest) (.word value :: more) = _
          rw [scanPrecAt, if_pos rfl]
          show Except.ok ({ p with
            prec := if (value.setWidth 32).toInt < 0 then -1 else (value.setWidth 32).toInt },
            rest, more) = _
          by_cases negative : (value.setWidth 32).toInt < 0
          · rw [if_pos negative, max_eq_right (by omega)]
          · rw [if_neg negative, max_eq_left (by omega)]

/-- `lng` -/
def Length.lng : Length → Nat
  | .none => 0
  | .z | .l => 1
  | .ll => 2

theorem scanLength_spell (rest : List Byte) (length : Length) (conv : Conv) :
    scanLength (length.spell ++ conv.byte :: rest) = (length.lng, conv.byte :: rest) := by
  have plain : conv.byte ≠ 0x7A ∧ conv.byte ≠ 0x6C := by cases conv <;> decide
  cases length with
  | none => exact (if_neg plain.1).trans (if_neg plain.2)
  | z => rfl
  | l =>
      show scanLength (0x6C :: conv.byte :: rest) = _
      rw [scanLength, if_neg (by decide), if_pos rfl, if_neg]
      · rfl
      · exact fun same => plain.2 (Option.some.inj same)
  | ll => rfl

end Scan

/-! ### Conversions -/

/-- What the flags, the width and the precision leave behind. -/
structure Param.Fresh (p : Param) : Prop where
  width : 0 ≤ p.width ∧ p.width < 2 ^ 31
  prec : -1 ≤ p.prec ∧ p.prec < 2 ^ 31
  sign : p.sign = 0
  bf : p.bf = []

theorem textOf_length {base n : Nat} (uc : Bool) (large : 1 < base) (room : n < base ^ bfMax) :
    (textOf base uc n).length ≤ bfMax := by
  rw [textOf, List.length_map, digitsOf]
  split
  · decide
  · rw [List.length_reverse]
    exact (Nat.digits_length_le_iff large n).mpr room

/-- Digits to base 16 and below are text. -/
theorem zero_notMem_textOf {base : Nat} (uc : Bool) (n : Nat) (large : 1 < base)
    (small : base ≤ 16) : 0 ∉ textOf base uc n := by
  have nonzero : ∀ d < 16, ∀ uc, digitByte uc d ≠ 0 := by decide
  rw [textOf, List.mem_map]
  rintro ⟨d, member, zero⟩
  exact nonzero d ((digitsOf_lt large n d member).trans_le small) uc zero

section Convert

variable {p : Param} {args more : List Arg} {out : List Byte}

/-- A number in its field is sane. -/
theorem Param.filled_sane (p : Param) (width : 0 ≤ p.width ∧ p.width < 2 ^ 31)
    (prec : -1 ≤ p.prec ∧ p.prec < 2 ^ 31) (bf : p.bf = []) (large : 1 < p.base)
    (small : p.base ≤ 16) {n : Nat} (room : n < p.base ^ bfMax) : (p.filled n).Sane := by
  rw [filled]
  split
  · exact ⟨width, prec, by rw [bf]; decide, by rw [bf]; exact List.not_mem_nil⟩
  · refine ⟨width, prec, ?_, zero_notMem_textOf p.uc n large small⟩
    exact (textOf_length p.uc large room).trans_lt (by decide)

/-- An unsigned number. -/
theorem Param.Fresh.unsigned (fresh : p.Fresh) {base w n : Nat} (large : 1 < base)
    (small : base ≤ 16) (fits : n < 2 ^ w) (room : n < base ^ bfMax) :
    ∃ q, unsignedToA w n (p.toBase base) = .ok q ∧ putchw q = p.number base n := by
  refine ⟨_, unsignedToA_eq large fits room, ?_⟩
  rw [number, if_neg (by omega), Int.natAbs_natCast]
  have prec : -1 ≤ (p.toBase base).prec ∧ (p.toBase base).prec < 2 ^ 31 := by
    have := fresh.prec
    show -1 ≤ (if p.prec < 0 then 1 else p.prec) ∧ (if p.prec < 0 then 1 else p.prec) < 2 ^ 31
    split <;> omega
  exact putchw_eq
    ((p.toBase base).filled_sane fresh.width prec fresh.bf large small room)

/-- A signed number. -/
theorem Param.Fresh.signed (fresh : p.Fresh) {base w : Nat} {num : Int} (large : 1 < base)
    (small : base ≤ 16) (fits : num.natAbs < 2 ^ w) (room : num.natAbs < base ^ bfMax) :
    ∃ q, signedToA w num (p.toBase base) = .ok q ∧ putchw q = p.number base num := by
  refine ⟨_, signedToA_eq large fits room, ?_⟩
  have prec : -1 ≤ (p.toBase base).prec ∧ (p.toBase base).prec < 2 ^ 31 := by
    have := fresh.prec
    show -1 ≤ (if p.prec < 0 then 1 else p.prec) ∧ (if p.prec < 0 then 1 else p.prec) < 2 ^ 31
    split <;> omega
  rw [number]
  split
  · exact putchw_eq (Param.filled_sane { p.toBase base with sign := 0x2D } fresh.width prec fresh.bf
      large small room)
  · exact putchw_eq ((p.toBase base).filled_sane fresh.width prec fresh.bf large small room)

theorem printUnsigned_spell (fresh : p.Fresh) {base : Nat} (large : 10 ≤ base) (small : base ≤ 16)
    (length : Length) (prints : (do
      let (num, args) ← length.unsigned args
      pure (p.number base num, args)) = some (out, more)) :
    printUnsigned length.lng (p.toBase base) args = .ok (out, more) := by
  match args with
  | [] => cases length <;> cases prints
  | .text bytes :: args => cases length <;> cases prints
  | .word value :: args =>
      obtain ⟨q, wide, prints64⟩ := fresh.unsigned (by omega : 1 < base) small value.isLt
        (room_of_base large value.isLt.le)
      cases length with
      | none =>
          have low : (value.setWidth 32).toNat = value.toNat % 2 ^ 32 := BitVec.toNat_setWidth ..
          obtain ⟨q, narrow, prints32⟩ := fresh.unsigned (by omega : 1 < base) small
            (value.setWidth 32).isLt (room_of_base large (by omega))
          cases prints
          show (unsignedToA 32 (value.setWidth 32).toNat (p.toBase base) >>= _) = _
          rw [narrow, ← low]
          exact congrArg (fun text => Except.ok (text, more)) prints32
      | z | l | ll =>
          cases prints
          show (unsignedToA 64 value.toNat (p.toBase base) >>= _) = _
          rw [wide]
          exact congrArg (fun text => Except.ok (text, more)) prints64

theorem printSigned_spell (fresh : p.Fresh) {base : Nat} (large : 10 ≤ base) (small : base ≤ 16)
    (length : Length) (prints : (do
      let (num, args) ← length.signed args
      pure (p.number base num, args)) = some (out, more)) :
    printSigned length.lng (p.toBase base) args = .ok (out, more) := by
  match args with
  | [] => cases length <;> cases prints
  | .text bytes :: args => cases length <;> cases prints
  | .word value :: args =>
      cases length with
      | none =>
          have low := BitVec.le_toInt (value.setWidth 32)
          have high := BitVec.toInt_lt (x := value.setWidth 32)
          obtain ⟨q, narrow, prints32⟩ := fresh.signed (by omega : 1 < base) small
            (by omega : (value.setWidth 32).toInt.natAbs < 2 ^ 32)
            (room_of_base large (by omega))
          cases prints
          show (signedToA 32 (value.setWidth 32).toInt (p.toBase base) >>= _) = _
          rw [narrow]
          exact congrArg (fun text => Except.ok (text, more)) prints32
      | z | l | ll =>
          have low := BitVec.le_toInt value
          have high := BitVec.toInt_lt (x := value)
          obtain ⟨q, wide, prints64⟩ := fresh.signed (by omega : 1 < base) small
            (by omega : value.toInt.natAbs < 2 ^ 64) (room_of_base large (by omega))
          cases prints
          show (signedToA 64 value.toInt (p.toBase base) >>= _) = _
          rw [wide]
          exact congrArg (fun text => Except.ok (text, more)) prints64

theorem printOctal_spell (fresh : p.Fresh) (prints : (do
      let (num, args) ← Length.none.unsigned args
      pure (p.number 8 num, args)) = some (out, more)) :
    printOctal (p.toBase 8) args = .ok (out, more) := by
  match args with
  | [] => cases prints
  | .text bytes :: args => cases prints
  | .word value :: args =>
      have low : (value.setWidth 32).toNat = value.toNat % 2 ^ 32 := BitVec.toNat_setWidth ..
      obtain ⟨q, narrow, prints32⟩ := fresh.unsigned (by decide : 1 < 8) (by decide)
        (value.setWidth 32).isLt ((value.setWidth 32).isLt.trans (by decide))
      cases prints
      show (unsignedToA 32 (value.setWidth 32).toNat (p.toBase 8) >>= _) = _
      rw [narrow, ← low]
      exact congrArg (fun text => Except.ok (text, more)) prints32

theorem printText_spell (fresh : p.Fresh) {length : Length}
    (prints : Conv.print length p args .s = some (out, more)) :
    printText p args = .ok (out, more) := by
  match args with
  | [] => cases prints
  | .word value :: args => cases prints
  | .text bytes :: args =>
      rw [Conv.print] at prints
      by_cases outside : bytes.contains 0 ∨ 2 ^ 31 - 1 ≤ bytes.length
      · rw [if_pos outside] at prints
        cases prints
      · rw [if_neg outside] at prints
        obtain ⟨text, short⟩ := not_or.mp outside
        have whole : 0 ∉ bytes.take (BitVec.ofInt 32 p.prec).toNat := fun zero =>
          text (List.contains_iff_mem.mpr (List.mem_of_mem_take zero))
        have shown : bytes.take (BitVec.ofInt 32 p.prec).toNat =
            if p.prec < 0 then bytes else bytes.take p.prec.toNat := by
          have := fresh.prec
          split
          · refine List.take_of_length_le ?_
            rw [BitVec.toNat_ofInt]
            omega
          · rw [BitVec.toNat_ofInt, Int.emod_eq_of_lt (by omega) (by omega)]
        cases prints
        show Except.ok (putchw { p with
          bf := (bytes.take (BitVec.ofInt 32 p.prec).toNat).takeWhile (· ≠ 0), prec := -1 },
            more) = _
        rw [takeWhile_nonzero whole, shown, putchw_eq]
        refine ⟨fresh.width, ⟨le_refl (-1), (by decide : (-1 : Int) < 2 ^ 31)⟩, ?_,
          fun zero => text (List.contains_iff_mem.mpr ?_)⟩
        · dsimp only
          split
          · omega
          · rw [List.length_take]
            omega
        · dsimp only at zero
          split at zero
          · exact zero
          · exact List.mem_of_mem_take zero

/-- **A conversion prints what it means.** -/
theorem convert_spell (fresh : p.Fresh) (lower : p.uc = false) {length : Length} {conv : Conv}
    (prints : conv.print length p args = some (out, more)) :
    convert conv.byte length.lng p args = .ok (out, more) := by
  cases conv with
  | u => exact printUnsigned_spell fresh (le_refl 10) (by decide) length prints
  | d => exact printSigned_spell fresh (le_refl 10) (by decide) length prints
  | i => exact printSigned_spell fresh (le_refl 10) (by decide) length prints
  | p =>
      have same : convert Conv.p.byte length.lng p args =
          printUnsigned 1 (Param.toBase { p with alt := true } 16) args := by
        cases p
        cases lower
        rfl
      have alternate : Param.Fresh { p with alt := true } :=
        ⟨fresh.width, fresh.prec, fresh.sign, fresh.bf⟩
      rw [same]
      exact printUnsigned_spell alternate (by decide : 10 ≤ 16) (le_refl 16) .l prints
  | x =>
      have same : convert Conv.x.byte length.lng p args =
          printUnsigned length.lng (p.toBase 16) args := by
        cases p
        cases lower
        rfl
      rw [same]
      exact printUnsigned_spell fresh (by decide : 10 ≤ 16) (le_refl 16) length prints
  | upperX =>
      have upper : Param.Fresh { p with uc := true } :=
        ⟨fresh.width, fresh.prec, fresh.sign, fresh.bf⟩
      exact printUnsigned_spell upper (by decide : 10 ≤ 16) (le_refl 16) length prints
  | o => exact printOctal_spell fresh prints
  | c =>
      match args with
      | .word value :: args =>
          cases prints
          show Except.ok ([(value.setWidth 32).setWidth 8], more) = _
          rw [BitVec.setWidth_setWidth_of_le _ (by decide)]
      | .text bytes :: args => cases prints
      | [] => cases prints
  | s => exact printText_spell fresh prints
  | percent =>
      cases prints
      rfl

end Convert

/-! ### Whole formats -/

/-- What follows the precision of a directive. -/
theorem Directive.ends (d : Directive) (rest : List Byte) :
    Follows (d.length.spell ++ d.conv.byte :: rest) ∧
      (d.length.spell ++ d.conv.byte :: rest).head? ≠ some 0x2E := by
  have conv : d.conv.byte ∈ followers ∧ some d.conv.byte ≠ some 0x2E := by
    cases d.conv <;> decide
  cases d.length with
  | none => exact ⟨⟨_, _, rfl, conv.1⟩, conv.2⟩
  | z | l | ll =>
      exact ⟨⟨_, _, rfl, by decide⟩, fun same => absurd (Option.some.inj same) (by decide)⟩

/-- What follows the width of a directive. -/
theorem Directive.follows (d : Directive) (rest : List Byte) :
    Follows (d.precision.spell ++ (d.length.spell ++ d.conv.byte :: rest)) := by
  cases d.precision with
  | none => exact (d.ends rest).1
  | bare | given count => exact ⟨_, _, rfl, by decide⟩

/-- No flag stands behind the flags. -/
theorem Directive.stops (d : Directive) (rest : List Byte) (flag : Flag) :
    (spellWidth d.width ++ (d.precision.spell ++ (d.length.spell ++ d.conv.byte :: rest))).head? ≠
      some flag.byte := by
  match width : d.width with
  | none =>
      obtain ⟨ch, tail, behind, member⟩ := d.follows rest
      rw [spellWidth, List.nil_append, behind]
      rintro ⟨⟩
      have plain : ∀ flag : Flag, flag.byte ∉ followers := by
        intro flag
        cases flag <;> decide
      exact plain flag member
  | some (.digits n fits) =>
      obtain ⟨digit, tail, text, small, positive⟩ := textOf_head n
      have nonzero := positive (d.positive n fits width)
      have plain : ∀ digit < 10, 0 < digit → ∀ flag : Flag, digitByte false digit ≠ flag.byte := by
        intro digit small nonzero flag
        cases flag <;> revert digit <;> decide
      rw [spellWidth, Count.spell, text]
      exact fun same => plain digit small nonzero flag (Option.some.inj same)
  | some .star => cases flag <;> exact fun same => absurd (Option.some.inj same) (by decide)

section Whole

variable {p q : Param} {args more : List Arg} {out : List Byte}

theorem Count.value_range {count : Count} {value : Int}
    (has : count.value args = some (value, more)) : -2 ^ 31 ≤ value ∧ value < 2 ^ 31 := by
  cases count with
  | digits n fits =>
      cases has
      omega
  | star =>
      match args with
      | .word word :: args =>
          cases has
          have low := BitVec.le_toInt (word.setWidth 32)
          have high := BitVec.toInt_lt (x := word.setWidth 32)
          omega
      | .text bytes :: args => cases has
      | [] => cases has

theorem setWidth_fresh {width : Option Count} (fresh : p.Fresh) (lower : p.uc = false)
    (sets : setWidth p width args = some (q, more)) : q.Fresh ∧ q.uc = false := by
  cases width with
  | none =>
      cases sets
      exact ⟨fresh, lower⟩
  | some count =>
      rw [setWidth, Option.bind_eq_bind, Option.bind_eq_some_iff] at sets
      obtain ⟨⟨value, left⟩, has, sets⟩ := sets
      have range := Count.value_range has
      dsimp only at sets
      by_cases lowest : value = -2 ^ 31
      · rw [if_pos lowest] at sets
        cases sets
      · rw [if_neg lowest] at sets
        cases sets
        refine ⟨⟨⟨Int.natCast_nonneg _, ?_⟩, fresh.prec, fresh.sign, fresh.bf⟩, lower⟩
        show (value.natAbs : Int) < 2 ^ 31
        omega

theorem setPrecision_fresh {precision : Precision} (fresh : p.Fresh) (lower : p.uc = false)
    (sets : setPrecision p precision args = some (q, more)) : q.Fresh ∧ q.uc = false := by
  cases precision with
  | none =>
      cases sets
      exact ⟨fresh, lower⟩
  | bare =>
      cases sets
      exact ⟨⟨fresh.width, (by decide : (-1 : Int) ≤ 0 ∧ (0 : Int) < 2 ^ 31), fresh.sign,
        fresh.bf⟩, lower⟩
  | given count =>
      rw [setPrecision, Option.bind_eq_bind, Option.bind_eq_some_iff] at sets
      obtain ⟨⟨value, left⟩, has, sets⟩ := sets
      have range := Count.value_range has
      cases sets
      refine ⟨⟨fresh.width, ⟨le_max_right _ _, ?_⟩, fresh.sign, fresh.bf⟩, lower⟩
      show max value (-1) < 2 ^ 31
      omega

/-- The steps to the field of a directive. -/
theorem Directive.param_steps {d : Directive} {base : Nat}
    (params : d.param base args = some (p, more)) :
    ∃ q second r, setWidth (d.flagged base) d.width args = some (q, second) ∧
      setPrecision q d.precision second = some (r, more) ∧
      p = { r with lz := r.lz ∧ r.prec < 0 } := by
  rw [Directive.param, Option.bind_eq_bind, Option.bind_eq_some_iff] at params
  obtain ⟨⟨q, second⟩, widths, params⟩ := params
  obtain ⟨⟨r, third⟩, precisions, params⟩ := Option.bind_eq_some_iff.mp params
  cases params
  exact ⟨q, second, r, widths, precisions, rfl⟩

/-- The field of a directive is fresh. -/
theorem Directive.param_fresh {d : Directive} {base : Nat}
    (params : d.param base args = some (p, more)) :
    p.Fresh ∧ p.uc = false := by
  obtain ⟨q, second, r, widths, precisions, rfl⟩ := Directive.param_steps params
  have bounds : (0 : Int) ≤ 0 ∧ (0 : Int) < 2 ^ 31 ∧ (-1 : Int) ≤ -1 ∧ (-1 : Int) < 2 ^ 31 := by
    decide
  obtain ⟨fresh, lower⟩ := setWidth_fresh
    ⟨⟨bounds.1, bounds.2.1⟩, ⟨bounds.2.2.1, bounds.2.2.2⟩, rfl, rfl⟩ rfl widths
  obtain ⟨fresh, lower⟩ := setPrecision_fresh fresh lower precisions
  exact ⟨⟨fresh.width, fresh.prec, fresh.sign, fresh.bf⟩, lower⟩

/-- **A directive is read as it was spelled**, and prints what it means. -/
theorem directive_spell {d : Directive} {base : Nat} (rest : List Byte)
    (prints : d.print base args = some (out, more)) :
    directive base (d.spell ++ rest) args = .ok (out, d.conv.leaves base, rest, more) := by
  have spelled : d.spell ++ rest = d.flags.map Flag.byte ++ (spellWidth d.width ++
      (d.precision.spell ++ (d.length.spell ++ d.conv.byte :: rest))) := by
    simp [Directive.spell]
  obtain ⟨⟨p, third⟩, params, prints⟩ := Option.bind_eq_some_iff.mp prints
  obtain ⟨fresh, lower⟩ := Directive.param_fresh params
  obtain ⟨q, second, r, widths, precisions, rfl⟩ := Directive.param_steps params
  have converts := convert_spell fresh lower prints
  have start : (let p : Param :=
        { Param.init base with
          alignLeft := (Param.init base).alignLeft || .minus ∈ d.flags
          lz := (Param.init base).lz || .zero ∈ d.flags
          alt := (Param.init base).alt || .hash ∈ d.flags }
      if p.alignLeft then { p with lz := false } else p) = d.flagged base := by
    by_cases minus : Flag.minus ∈ d.flags <;> simp [minus, Directive.flagged, Param.init]
  have zeros : (if r.prec ≥ 0 then { r with lz := false } else r) =
      { r with lz := r.lz ∧ r.prec < 0 } := by
    by_cases given : r.prec ≥ 0
    · simp [given]
    · simp [not_le.mp given]
  have after : baseAfter d.conv.byte base = d.conv.leaves base := by
    cases d.conv <;> rfl
  have scanned := scanFlags_spell (.init base) d.flags (d.stops rest)
  rw [spelled]
  refine (directive_of_scans ?_
    (scanPrec_spell (d.ends rest).1 (d.ends rest).2 precisions)).trans ?_
  · rw [scanned]
    dsimp only at start ⊢
    rw [start]
    exact scanWidth_spell d.positive (d.follows rest) widths
  · rw [scanLength_spell rest d.length d.conv, zeros]
    dsimp only
    rw [converts, after]
    rfl

/-- **The formatter prints what its format means**: every list of pieces, with all arguments that go
with them. -/
theorem tfpFormat_spell (base : Nat) (pieces : List Piece) (args : List Arg) (out : List Byte)
    (prints : print base pieces args = some out) :
    tfpFormat base (spell pieces) args = .ok out := by
  induction pieces generalizing base args out with
  | nil =>
      cases prints
      exact tfpFormat_nil base args
  | cons piece pieces ih =>
      cases piece with
      | char ch plain =>
          obtain ⟨rest, more, rfl⟩ := Option.map_eq_some_iff.mp prints
          show tfpFormat base (ch :: spell pieces) args = _
          rw [tfpFormat_cons plain.2, ih base args rest more]
          rfl
      | directive d =>
          obtain ⟨⟨text, args'⟩, first, later⟩ := Option.bind_eq_some_iff.mp prints
          obtain ⟨rest, more, rfl⟩ := Option.map_eq_some_iff.mp later
          show tfpFormat base (0x25 :: (d.spell ++ spell pieces)) args = _
          rw [tfpFormat_directive (directive_spell (spell pieces) first), ih _ args' rest more]
          rfl

/-- `%x%#s` with 1 and `a` prints `10xa`. -/
example : tfpFormat 0 (spell [.directive ⟨[], none, .none, .none, .x, none_positive⟩,
      .directive ⟨[.hash], none, .none, .none, .s, none_positive⟩]) [.word 1, .text [0x61]] =
    .ok [0x31, 0x30, 0x78, 0x61] := by
  decide +kernel

end Whole

/-- **The formatter prints what its format means**, and `tfp_vsnprintf` stores as much of it as its
place holds: for every list of pieces, all arguments that go with them, and whatever the stack
holds. -/
theorem printf_means (base : Nat) (pieces : List Piece) (args : List Arg) (out : List Byte)
    (prints : print base pieces args = some out) :
    tfpFormat base (spell pieces) args = .ok out ∧
      ∀ ram str size, 1 ≤ size → tfpVsnprintf base ram str size (spell pieces) args =
        .ok (countOf out.length, writeRange ram str (out.take (size - 1) ++ [0])) := by
  have formats := tfpFormat_spell base pieces args out prints
  refine ⟨formats, fun ram str size place => ?_⟩
  rw [tfpVsnprintf_ok ram str place formats]

/-- `[%-*s|%#.3x|%#s]` with the width 3. -/
def tableRow : List Piece :=
  [.char 0x5B (by decide), .directive ⟨[.minus], some .star, .none, .none, .s, star_positive⟩,
    .char 0x7C (by decide),
    .directive ⟨[.hash], none, .given (.digits 3 (by decide)), .none, .x, none_positive⟩,
    .char 0x7C (by decide), .directive ⟨[.hash], none, .none, .none, .s, none_positive⟩,
    .char 0x5D (by decide)]

/-- A row of a table, `[a  |0x01f|0xb]`. -/
theorem printf_means_row :
    tfpFormat 0 (spell tableRow) [.word 3, .text [0x61], .word 0x1F, .text [0x62]] =
        .ok [0x5B, 0x61, 0x20, 0x20, 0x7C, 0x30, 0x78, 0x30, 0x31, 0x66, 0x7C, 0x30, 0x78, 0x62,
          0x5D] ∧
      ∀ ram str size, 1 ≤ size →
        tfpVsnprintf 0 ram str size (spell tableRow)
            [.word 3, .text [0x61], .word 0x1F, .text [0x62]] =
          .ok (countOf 15, writeRange ram str ((([0x5B, 0x61, 0x20, 0x20, 0x7C, 0x30, 0x78, 0x30,
            0x31, 0x66, 0x7C, 0x30, 0x78, 0x62, 0x5D] : List Byte).take (size - 1)) ++ [0])) :=
  printf_means 0 tableRow _ _ (by decide +kernel)

end Printf

end K210Guard
