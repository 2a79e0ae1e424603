/-
**The formatter without arguments** (`bsp/printf.c`).

What the line editor prints asks for no arguments, and its formatter keeps track of none:
`tfpFormat_eq` says that it is the whole formatter, called without arguments.
-/

import K210Guard.Cli.Screen
import K210Guard.Printf.Format

namespace K210Guard

namespace Printf

theorem isDigit_iff (c : Byte) : isDigit c = true ↔ 0x30 ≤ c ∧ c ≤ 0x39 := by
  simp [isDigit]

/-- The loop of `a2u` passes over the same characters. -/
theorem a2u_rest (num : Nat) (fmt : List Byte) :
    (a2u 10 num fmt).2 = fmt.dropWhile isA2uDigit := by
  have table (c : Byte) : (∃ digit, a2d c = some digit ∧ digit ≤ 10) ↔ isA2uDigit c = true := by
    revert c
    decide +kernel
  induction fmt generalizing num with
  | nil => rfl
  | cons c fmt ih =>
      rw [a2u, List.dropWhile_cons]
      cases digit : a2d c with
      | none =>
          have no : isA2uDigit c = false := by
            rw [← Bool.not_eq_true, ← table, digit]
            simp
          simp [no]
      | some d =>
          dsimp only
          by_cases large : d > 10
          · have no : isA2uDigit c = false := by
              rw [← Bool.not_eq_true, ← table, digit]
              simpa using large
            simp [large, no]
          · have yes : isA2uDigit c = true := (table c).mp ⟨d, digit, not_lt.mp large⟩
            rw [if_neg large, if_pos yes]
            exact ih _

/-- A part of a directive that is read without arguments. -/
def Reads (scan : Except Fault (Param × List Byte × List Arg)) : Option (List Byte) → Prop
  | none => scan = .error .argument
  | some rest => ∃ p, scan = .ok (p, rest, [])

theorem scanWidth_reads (p : Param) (fmt : List Byte) :
    Reads (scanWidth p fmt []) (skipNumber fmt) := by
  cases fmt with
  | nil => exact ⟨p, rfl⟩
  | cons c fmt =>
      rw [scanWidth, skipNumber]
      by_cases star : c = 0x2A
      · rw [if_pos star, if_pos star]
        rfl
      · rw [if_neg star, if_neg star]
        by_cases digit : isDigit c = true
        · rw [if_pos digit, if_pos ((isDigit_iff c).mp digit), number, a2u_rest]
          exact ⟨_, rfl⟩
        · rw [if_neg digit, if_neg (digit ∘ (isDigit_iff c).mpr)]
          exact ⟨p, rfl⟩

theorem scanPrec_reads (p : Param) (fmt : List Byte) :
    Reads (scanPrec p fmt []) (skipPrecision fmt) := by
  cases fmt with
  | nil => exact ⟨p, rfl⟩
  | cons c fmt =>
      rw [scanPrec, skipPrecision]
      by_cases point : c = 0x2E
      · rw [if_pos point, if_pos point]
        cases fmt with
        | nil => exact ⟨_, rfl⟩
        | cons c fmt =>
            rw [scanPrecAt, skipNumber]
            by_cases star : c = 0x2A
            · rw [if_pos star, if_pos star]
              rfl
            · rw [if_neg star, if_neg star]
              by_cases digit : isDigit c = true
              · rw [if_pos digit, if_pos ((isDigit_iff c).mp digit), number, a2u_rest]
                exact ⟨_, rfl⟩
              · rw [if_neg digit, if_neg (digit ∘ (isDigit_iff c).mpr)]
                exact ⟨_, rfl⟩
      · rw [if_neg point, if_neg point]
        exact ⟨p, rfl⟩

theorem scanFlags_rest (p : Param) (fmt : List Byte) :
    (scanFlags p fmt).2 = fmt.dropWhile fun c => c = 0x2D || c = 0x30 || c = 0x23 := by
  induction fmt generalizing p with
  | nil => rfl
  | cons c fmt ih =>
      rw [scanFlags, List.dropWhile_cons]
      split_ifs <;> simp_all

theorem scanLength_rest (fmt : List Byte) : (scanLength fmt).2 = skipLength fmt := by
  cases fmt with
  | nil => rfl
  | cons c fmt =>
      rw [scanLength, skipLength]
      split_ifs <;> rfl

theorem printUnsigned_nil (lng : Nat) (p : Param) :
    printUnsigned lng p [] = .error .argument := by
  rw [printUnsigned]
  split_ifs <;> rfl

theorem printSigned_nil (lng : Nat) (p : Param) : printSigned lng p [] = .error .argument := by
  rw [printSigned]
  split_ifs <;> rfl

/-- A conversion without arguments. -/
theorem convert_nil (c : Byte) (lng : Nat) (p : Param) :
    convert c lng p [] = if c = 0x25 then .ok ([0x25], [])
      else if takesArgument c then .error .argument else .ok ([], []) := by
  by_cases takes : takesArgument c = true
  · have notPercent : c ≠ 0x25 := by
      rintro rfl
      exact absurd takes (by decide)
    rw [if_neg notPercent, if_pos takes]
    simp only [takesArgument, List.mem_cons, List.not_mem_nil, or_false, decide_eq_true_eq] at takes
    obtain rfl | rfl | rfl | rfl | rfl | rfl | rfl | rfl | rfl := takes
    · exact printUnsigned_nil lng _
    · exact printSigned_nil lng _
    · exact printSigned_nil lng _
    · exact printUnsigned_nil 1 _
    · exact printUnsigned_nil lng _
    · exact printUnsigned_nil lng _
    · rfl
    · rfl
    · rfl
  · have others := takes
    simp only [takesArgument, List.mem_cons, List.not_mem_nil, or_false, decide_eq_true_eq,
      not_or] at others
    obtain ⟨u, d, i, pointer, x, upperX, o, c', s⟩ := others
    rw [convert, if_neg u, if_neg (not_or.mpr ⟨d, i⟩), if_neg pointer,
      if_neg (not_or.mpr ⟨x, upperX⟩), if_neg o, if_neg c', if_neg s, if_neg takes]
    by_cases percent : c = 0x25
    · rw [if_pos percent, if_pos percent, percent]
      rfl
    · rw [if_neg percent, if_neg percent]
      rfl

/-- Nor does one that needs no argument set the base. -/
theorem baseAfter_other {c : Byte} (other : takesArgument c = false) (base : Nat) :
    baseAfter c base = base := by
  simp only [takesArgument, List.mem_cons, List.not_mem_nil, or_false, decide_eq_false_iff_not,
    not_or] at other
  obtain ⟨u, d, i, pointer, x, upperX, o, -, -⟩ := other
  rw [baseAfter, if_neg (not_or.mpr ⟨u, not_or.mpr ⟨d, i⟩⟩),
    if_neg (not_or.mpr ⟨pointer, not_or.mpr ⟨x, upperX⟩⟩), if_neg o]

/-- A directive without arguments. -/
theorem directive_nil (base : Nat) (fmt : List Byte) :
    directive base fmt [] = match conversionAt fmt with
      | none => .error .argument
      | some [] => .ok ([], base, [], [])
      | some (c :: rest) =>
          if c = 0x25 then .ok ([0x25], base, rest, [])
          else if takesArgument c then .error .argument else .ok ([], base, rest, []) := by
  have widths := scanWidth_reads (if (scanFlags (.init base) fmt).1.alignLeft then
    { (scanFlags (.init base) fmt).1 with lz := false } else (scanFlags (.init base) fmt).1)
    (scanFlags (.init base) fmt).2
  rw [conversionAt, ← scanFlags_rest (.init base) fmt]
  cases number : skipNumber (scanFlags (.init base) fmt).2 with
  | none =>
      rw [number] at widths
      rw [directive]
      dsimp only
      rw [show scanWidth _ _ _ = _ from widths]
      rfl
  | some second =>
      rw [number] at widths
      obtain ⟨p, widths⟩ := widths
      have precisions := scanPrec_reads p second
      cases number : skipPrecision second with
      | none =>
          rw [number] at precisions
          rw [directive]
          dsimp only
          rw [widths]
          show (scanPrec p second [] >>= _) = _
          rw [show scanPrec _ _ _ = _ from precisions]
          simp [number]
          rfl
      | some third =>
          rw [number] at precisions
          obtain ⟨q, precisions⟩ := precisions
          have length := scanLength_rest third
          rw [directive_of_scans widths precisions]
          simp only [Option.bind_eq_bind, Option.bind_some, number, Option.pure_def, length]
          cases skipLength third with
          | nil => rfl
          | cons c rest =>
              dsimp only
              rw [convert_nil]
              by_cases percent : c = 0x25
              · rw [if_pos percent, if_pos percent, percent]
                rfl
              · rw [if_neg percent, if_neg percent]
                by_cases takes : takesArgument c = true
                · rw [if_pos takes, if_pos takes]
                  rfl
                · rw [if_neg takes, if_neg takes]
                  show Except.ok ([], baseAfter c base, rest, []) = _
                  rw [baseAfter_other (Bool.eq_false_of_not_eq_true takes)]

end Printf

/-- A directive of the formatter of the line editor. -/
theorem tfpFormat_conversionAt (fmt : List Byte) :
    tfpFormat (0x25 :: fmt) = match conversionAt fmt with
      | none => none
      | some [] => some []
      | some (c :: rest) =>
          if c = 0x25 then (tfpFormat rest).map (0x25 :: ·)
          else if takesArgument c then none else tfpFormat rest := by
  rw [tfpFormat, if_neg (not_not.mpr rfl)]
  split <;> rename_i found <;> rw [found]

/-- **The formatter of the line editor** is the whole one, without arguments. -/
theorem tfpFormat_eq (base : Nat) (fmt : List Byte) :
    tfpFormat fmt = (Printf.tfpFormat base fmt []).toOption := by
  have prefixed (front : List Byte) (result : Except Printf.Fault (List Byte)) :
      result.toOption.map (front ++ ·) = ((front ++ ·) <$> result).toOption := by
    cases result <;> rfl
  induction fmt using tfpFormat.induct with
  | case1 => simp [tfpFormat, Except.toOption]
  | case2 c fmt plain ih =>
      rw [tfpFormat, if_pos plain, Printf.tfpFormat_cons plain, ih]
      exact prefixed [c] _
  | case3 c fmt percent found =>
      obtain rfl := not_not.mp percent
      have whole := Printf.directive_nil base fmt
      rw [tfpFormat_conversionAt, found]
      rw [found] at whole
      rw [Printf.tfpFormat_fault whole]
      rfl
  | case4 c fmt percent found =>
      obtain rfl := not_not.mp percent
      have whole := Printf.directive_nil base fmt
      rw [tfpFormat_conversionAt, found]
      rw [found] at whole
      rw [Printf.tfpFormat_directive whole, Printf.tfpFormat_nil]
      rfl
  | case5 c fmt percent rest found ih =>
      obtain rfl := not_not.mp percent
      have whole := Printf.directive_nil base fmt
      rw [found] at whole
      dsimp only at whole
      rw [if_pos rfl] at whole
      rw [tfpFormat_conversionAt, found]
      dsimp only
      rw [if_pos rfl, Printf.tfpFormat_directive whole, ih]
      exact prefixed [0x25] _
  | case6 c fmt percent conversion rest found other takes =>
      obtain rfl := not_not.mp percent
      have whole := Printf.directive_nil base fmt
      rw [found] at whole
      dsimp only at whole
      rw [if_neg other, if_pos takes] at whole
      rw [tfpFormat_conversionAt, found]
      dsimp only
      rw [if_neg other, if_pos takes, Printf.tfpFormat_fault whole]
      rfl
  | case7 c fmt percent conversion rest found other takes ih =>
      obtain rfl := not_not.mp percent
      have whole := Printf.directive_nil base fmt
      rw [found] at whole
      dsimp only at whole
      rw [if_neg other, if_neg takes] at whole
      rw [tfpFormat_conversionAt, found]
      dsimp only
      rw [if_neg other, if_neg takes, Printf.tfpFormat_directive whole, ih]
      simp

end K210Guard
