/-
**What is printed can be read** (`bsp/printf.c`, `bsp/strto.c`).

* `strtoul_reads`: for every directive that prints an unsigned number, whatever its flags, width and
  precision, `simple_strtoul` gives the number back behind the blanks.
-/

import K210Guard.Printf.Directives
import K210Guard.Cli.Handlers

namespace K210Guard

namespace Printf

/-! ### Characters -/

/-- A byte as a character. -/
def charOf (byte : Byte) : Char := Char.ofNat byte.toNat

/-- The digit as a character. -/
def digitCharOf (uc : Bool) (d : Nat) : Char := charOf (digitByte uc d)

theorem isxdigit_digitCharOf (uc : Bool) {d : Nat} (small : d < 16) :
    isxdigit (digitCharOf uc d) = true ∧ digitValue (digitCharOf uc d) = d := by
  have table : ∀ uc, ∀ d < 16, isxdigit (digitCharOf uc d) = true ∧
      digitValue (digitCharOf uc d) = d := by decide +kernel
  exact table uc d small

/-- The loop of `simple_strtoul` ends here. -/
def Ends (text : List Char) : Prop := ∀ c ∈ text.head?, isxdigit c = false

theorem Ends.strtoul {text : List Char} (ends : Ends text) (base result : Nat) :
    strtoulDigits base result text = result := by
  cases text with
  | nil => rfl
  | cons c text =>
      have no : isxdigit c = false := ends c rfl
      rw [strtoulDigits, if_neg (by simp [no])]

/-- **Digits are read as the number they make**, as long as it fits 64 bits. -/
theorem strtoulDigits_digits {base : Nat} (small : base ≤ 16) (uc : Bool) {rest : List Char}
    (ends : Ends rest) (digits : List Nat) (below : ∀ d ∈ digits, d < base) (result : Nat)
    (fits : Radix.read base result digits < 2 ^ 64) :
    strtoulDigits base result (digits.map (digitCharOf uc) ++ rest) =
      Radix.read base result digits := by
  induction digits generalizing result with
  | nil => exact ends.strtoul base result
  | cons d digits ih =>
      have digit := below d List.mem_cons_self
      obtain ⟨isDigit, value⟩ := isxdigit_digitCharOf uc (digit.trans_le small)
      have step : result * base + d ≤ Radix.read base result (d :: digits) := by
        show _ ≤ Radix.read base (result * base + d) digits
        rw [Radix.read_eq]
        exact le_add_right (Nat.le_mul_of_pos_right _ (Nat.pow_pos (Nat.zero_lt_of_lt digit)))
      rw [List.map_cons, List.cons_append, strtoulDigits, if_pos ⟨isDigit, value.trans_lt digit⟩,
        value, Nat.mod_eq_of_lt (step.trans_lt fits)]
      exact ih (fun e later => below e (List.mem_cons_of_mem d later)) _ fits

/-! ### The text of a field -/

/-- The bases of the formatter. -/
def Conv.base : Conv → Nat
  | .x | .upperX | .p => 16
  | .o => 8
  | _ => 10

/-- The unsigned conversions. -/
def unsignedConvs : List Conv := [.u, .p, .x, .upperX, .o]

/-- The number an unsigned conversion takes from a register. -/
def Directive.num (d : Directive) (value : BitVec 64) : Nat :=
  match d.conv, d.length with
  | .p, _ => value.toNat
  | .o, _ => value.toNat % 2 ^ 32
  | _, .none => value.toNat % 2 ^ 32
  | _, _ => value.toNat

/-- Blanks in front do not belong to a number. -/
def skipBlanks (text : List Byte) : List Char :=
  (text.dropWhile (· = 0x20)).map charOf

/-- A field without a sign: blanks, the prefix, zeros and the buffer, blanks. -/
theorem Param.field_shape {p : Param} (sign : p.sign = 0) :
    ∃ before zeros after, p.field = List.replicate before 0x20 ++
      (p.prefixOf ++ (List.replicate zeros 0x30 ++ p.bf) ++ List.replicate after 0x20) := by
  have front : p.front = p.prefixOf := by simp [Param.front, Param.signOf, sign]
  rw [Param.field, front]
  split
  · refine ⟨0, p.width.toNat - p.prefixOf.length - p.body.length +
      (p.prec.toNat - p.bf.length), 0, ?_⟩
    simp [List.leftpad, Param.body]
    rw [← List.replicate_append_replicate, List.append_assoc]
  · split
    · refine ⟨0, p.prec.toNat - p.bf.length, p.width.toNat - (p.prefixOf ++ p.body).length, ?_⟩
      simp [List.rightpad, List.leftpad, Param.body]
    · refine ⟨p.width.toNat - (p.prefixOf ++ p.body).length, p.prec.toNat - p.bf.length, 0, ?_⟩
      simp [List.leftpad, Param.body]

/-- Without an `x`, the number has no prefix to be skipped. -/
theorem parseIntegerFixupRadix_plain {text : List Char} {base : Nat} (given : base ≠ 0)
    (plain : ∀ c ∈ text, c.toLower ≠ 'x') : parseIntegerFixupRadix text base = (text, base) := by
  unfold parseIntegerFixupRadix
  rw [if_neg given]
  split
  · rename_i x rest
    exact if_neg fun both => plain x (by simp) both.2
  · rfl

section Number

variable {p : Param} {base n : Nat}

/-- The digits behind a prefix, with zeros in front and blanks behind. -/
theorem strtoulDigits_padded (small : base ≤ 16) (uc : Bool) (fits : n < 2 ^ 64)
    {digits : List Nat} (below : ∀ d ∈ digits, d < base) (reads : Radix.read base 0 digits = n)
    (positive : 0 < base) (zeros after : Nat) :
    strtoulDigits base 0 ((List.replicate zeros 0x30 ++ digits.map (digitByte uc) ++
      List.replicate after 0x20).map charOf) = n := by
  have text : (List.replicate zeros 0x30 ++ digits.map (digitByte uc) ++
      List.replicate after 0x20).map charOf =
      (List.replicate zeros 0 ++ digits).map (digitCharOf uc) ++ List.replicate after ' ' := by
    cases uc <;> simp [digitCharOf, charOf, digitByte]
  have ends : Ends (List.replicate after ' ') := by
    cases after with
    | zero =>
        intro c first
        exact absurd first (by simp)
    | succ after =>
        rintro c ⟨⟩
        decide
  have padded : Radix.read base 0 (List.replicate zeros 0 ++ digits) = n :=
    (Radix.read_zeros zeros digits).trans reads
  rw [text, strtoulDigits_digits small uc ends _ _ 0 (by rwa [padded]), padded]
  intro d member
  obtain zero | digit := List.mem_append.mp member
  · rwa [List.eq_of_mem_replicate zero]
  · exact below d digit

/-- No character of such a number starts a prefix. -/
theorem padded_plain (small : base ≤ 16) (uc : Bool) {digits : List Nat}
    (below : ∀ d ∈ digits, d < base) (zeros after : Nat) :
    ∀ c ∈ (List.replicate zeros 0x30 ++ digits.map (digitByte uc) ++
      List.replicate after 0x20).map charOf, c.toLower ≠ 'x' := by
  have table : ∀ uc, ∀ d < 16, (charOf (digitByte uc d)).toLower ≠ 'x' := by decide +kernel
  intro c member
  obtain ⟨byte, among, rfl⟩ := List.mem_map.mp member
  obtain front | blank := List.mem_append.mp among
  · obtain zero | digit := List.mem_append.mp front
    · rw [List.eq_of_mem_replicate zero]
      decide
    · obtain ⟨d, within, rfl⟩ := List.mem_map.mp digit
      exact table uc d ((below d within).trans_le small)
  · rw [List.eq_of_mem_replicate blank]
    decide

/-- A number without the prefix of base 16. -/
theorem strtoul_padded (large : 1 < base) (small : base ≤ 16) (uc : Bool) (fits : n < 2 ^ 64)
    {digits : List Nat} (below : ∀ d ∈ digits, d < base) (reads : Radix.read base 0 digits = n)
    (zeros after : Nat) :
    simpleStrtoul (skipBlanks (List.replicate zeros 0x30 ++ digits.map (digitByte uc) ++
      List.replicate after 0x20)) base = n := by
  have positive : 0 < base := Nat.zero_lt_of_lt large
  cases text : List.replicate zeros 0x30 ++ digits.map (digitByte uc) with
  | nil =>
      obtain ⟨-, none⟩ := List.append_eq_nil_iff.mp text
      obtain rfl := List.map_eq_nil_iff.mp none
      have skipped : skipBlanks ([] ++ List.replicate after 0x20) = [] := by
        simp [skipBlanks]
      rw [skipped, simpleStrtoul, parseIntegerFixupRadix_plain positive.ne' (by simp)]
      exact reads
  | cons first rest =>
      have notBlank : first ≠ 0x20 := by
        have table : ∀ uc, ∀ d < 16, digitByte uc d ≠ 0x20 := by decide +kernel
        have member : first ∈ List.replicate zeros 0x30 ++ digits.map (digitByte uc) := by
          rw [text]
          exact List.mem_cons_self
        obtain zero | digit := List.mem_append.mp member
        · rw [List.eq_of_mem_replicate zero]
          decide
        · obtain ⟨d, within, rfl⟩ := List.mem_map.mp digit
          exact table uc d ((below d within).trans_le small)
      have skipped : skipBlanks (first :: rest ++ List.replicate after 0x20) =
          (first :: rest ++ List.replicate after 0x20).map charOf := by
        rw [skipBlanks, List.cons_append, List.dropWhile_cons_of_neg (by simpa using notBlank)]
      rw [skipped, ← text, simpleStrtoul,
        parseIntegerFixupRadix_plain positive.ne' (padded_plain small uc below zeros after)]
      exact strtoulDigits_padded small uc fits below reads positive zeros after

/-- The buffer of a number holds digits that make it. -/
theorem Param.filled_digits (p : Param) (bf : p.bf = []) (large : 1 < p.base) (n : Nat) :
    ∃ digits : List Nat, (p.filled n).bf = digits.map (digitByte p.uc) ∧
      (∀ d ∈ digits, d < p.base) ∧ Radix.read p.base 0 digits = n := by
  rw [filled]
  split
  · rename_i none
    exact ⟨[], bf, fun _ member => absurd member List.not_mem_nil, none.2.symm⟩
  · exact ⟨digitsOf p.base n, rfl, digitsOf_lt large n, read_digitsOf p.base n⟩

/-- **A number in its field is read back.** -/
theorem Param.Fresh.strtoul (fresh : p.Fresh) (large : 1 < base) (small : base ≤ 16)
    (fits : n < 2 ^ 64) : simpleStrtoul (skipBlanks (p.number base n)) base = n := by
  obtain ⟨digits, bf, below, reads⟩ := (p.toBase base).filled_digits fresh.bf large n
  have kept : ((p.toBase base).filled n).sign = 0 ∧
      ((p.toBase base).filled n).prefixOf = (p.toBase base).prefixOf := by
    rw [filled]
    split
    · exact ⟨fresh.sign, rfl⟩
    · exact ⟨fresh.sign, rfl⟩
  obtain ⟨before, zeros, after, shape⟩ := Param.field_shape kept.1
  rw [number, if_neg (by omega), Int.natAbs_natCast, shape, bf, kept.2]
  have skipped (text : List Byte) :
      skipBlanks (List.replicate before 0x20 ++ text) = skipBlanks text := by
    rw [skipBlanks, skipBlanks, List.dropWhile_append_of_pos]
    simp
  rw [skipped, prefixOf]
  split
  · rename_i hex
    have sixteen : base = 16 := hex.2
    subst sixteen
    have body := strtoulDigits_padded small (p.toBase 16).uc fits below reads (by decide) zeros
      after
    cases upper : (p.toBase 16).uc with
    | false =>
        rw [upper] at body
        exact body
    | true =>
        rw [upper] at body
        exact body
  · split
    · have more := strtoul_padded large small (p.toBase base).uc fits below reads (zeros + 1) after
      simpa [List.replicate_succ] using more
    · simpa using strtoul_padded large small (p.toBase base).uc fits below reads zeros after

end Number

/-! ### Directives -/

/-- A field has at least its width. -/
theorem Param.width_le_field (p : Param) : p.width.toNat ≤ p.field.length := by
  rw [field]
  split
  · simp only [List.length_append, List.length_leftpad]
    omega
  · split
    · simp only [List.rightpad, List.length_append, List.length_replicate]
      omega
    · simp only [List.length_leftpad]
      omega

/-- What an unsigned directive prints: its number, in a field as wide as the directive says. -/
theorem Directive.print_unsigned {d : Directive} {base : Nat} {args more : List Arg} {p : Param}
    {value : BitVec 64} (params : d.param base args = some (p, .word value :: more))
    (unsigned : d.conv ∈ unsignedConvs) :
    ∃ q : Param, q.Fresh ∧ q.width = p.width ∧
      d.print base args = some (q.number d.conv.base (d.num value), more) := by
  obtain ⟨fresh, -⟩ := Directive.param_fresh params
  obtain ⟨flags, width, precision, length, conv, positive⟩ := d
  rw [Directive.print, params]
  cases conv with
  | u => exact ⟨p, fresh, rfl, by cases length <;> rfl⟩
  | x => exact ⟨p, fresh, rfl, by cases length <;> rfl⟩
  | o => exact ⟨p, fresh, rfl, rfl⟩
  | p =>
      exact ⟨{ p with alt := true }, ⟨fresh.width, fresh.prec, fresh.sign, fresh.bf⟩, rfl, rfl⟩
  | upperX =>
      exact ⟨{ p with uc := true }, ⟨fresh.width, fresh.prec, fresh.sign, fresh.bf⟩, rfl,
        by cases length <;> rfl⟩
  | d | i | c | s | percent => simp [unsignedConvs] at unsigned

/-- A number has at least the width of its field. -/
theorem Param.width_le_number (p : Param) (base n : Nat) :
    p.width.toNat ≤ (p.number base n).length := by
  have width : ((p.toBase base).filled n).width = p.width := by
    rw [filled]
    split <;> rfl
  rw [number, if_neg (by omega), Int.natAbs_natCast, ← width]
  exact Param.width_le_field _

theorem Directive.num_lt (d : Directive) (value : BitVec 64) : d.num value < 2 ^ 64 := by
  have low : value.toNat % 2 ^ 32 < 2 ^ 64 := by omega
  rw [num]
  split
  · exact value.isLt
  · exact low
  · exact low
  · exact value.isLt

/-- **What an unsigned directive prints is read back**: any flags, width and precision, in the
format or as arguments, whatever the stack holds. -/
theorem strtoul_reads (d : Directive) (base : Nat) (args more : List Arg) (p : Param)
    (value : BitVec 64) (params : d.param base args = some (p, .word value :: more))
    (unsigned : d.conv ∈ unsignedConvs) :
    ∃ out, tfpFormat base (0x25 :: d.spell) args = .ok out ∧ p.width.toNat ≤ out.length ∧
      simpleStrtoul (skipBlanks out) d.conv.base = d.num value := by
  obtain ⟨q, fresh, width, prints⟩ := Directive.print_unsigned params unsigned
  have formats : tfpFormat base (0x25 :: d.spell) args =
      .ok (q.number d.conv.base (d.num value)) := by
    have whole := directive_spell [] prints
    rw [List.append_nil] at whole
    rw [tfpFormat_directive whole, tfpFormat_nil]
    simp
  refine ⟨_, formats, ?_, fresh.strtoul ?_ ?_ (d.num_lt value)⟩
  · rw [← width]
    exact q.width_le_number _ _
  · cases d.conv <;> decide
  · cases d.conv <;> decide

/-- `%#*lx` with the width 8. -/
def wideHex : Directive := ⟨[.hash], some .star, .none, .l, .x, star_positive⟩

/-- An address in a field of eight characters. -/
theorem strtoul_reads_address :
    ∃ out, tfpFormat 8 (0x25 :: wideHex.spell) [.word 8, .word 0x80000000] = .ok out ∧
      8 ≤ out.length ∧ simpleStrtoul (skipBlanks out) 16 = 0x80000000 :=
  strtoul_reads wideHex 8 [.word 8, .word 0x80000000] [] { alt := true, width := 8, base := 8 }
    0x80000000 rfl (by decide)

end Printf

end K210Guard
