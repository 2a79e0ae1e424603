/-
**Where a command line is cut.**

`isSeparator` says which semicolons separate commands, by their positions in the whole line:
outside single quotes, not escaped and not the first character of a piece. `cutPieces` cuts the line
there.

* `pieces_eq_cutPieces` — the separator scan cuts a line exactly there, unless the line begins with
  a quote.
-/

import K210Guard.Cli.ParseLine

namespace K210Guard

/-! ### Separators by position -/

/-- A backslash in front of a position. -/
def escapedAt (str : List Char) : Nat → Bool
  | 0 => false
  | i + 1 => str[i]? = some '\\'

/-- The quotes in front of a position, without those behind a backslash. -/
def quotesBefore (str : List Char) (i : Nat) : Nat :=
  (List.range i).countP fun j => str[j]? = some '\x27' && !escapedAt str j

/-- The semicolons that separate: not the first character of a piece, not behind a backslash and
not between quotes. -/
def isSeparator (str : List Char) : Nat → Bool
  | 0 => false
  | i + 1 => str[i + 1]? = some ';' && !isSeparator str i && !escapedAt str (i + 1) &&
      quotesBefore str (i + 1) % 2 = 0

/-- The first position of the line, or one right behind a separator. -/
def beginsPiece (str : List Char) : Nat → Bool
  | 0 => true
  | i + 1 => isSeparator str i

/-- The rest of a line from a position on, cut at the separators. -/
def cutFrom (str : List Char) (i : Nat) (rest : List Char) : List (List (Char × Nat)) :=
  (rest.zipIdx i).splitOnP fun place => isSeparator str place.2

/-- The line cut at its separators; nothing behind the last one is no piece. -/
def cutPieces (str : List Char) : List (List Char) :=
  ((cutFrom str 0 str).map (List.map Prod.fst)).filter (· ≠ [])

/-! ### The scan finds them -/

/-- The scan at a position: what it remembers of the characters in front. -/
structure ScanAt (str : List Char) (i : Nat) (previous : Char) (start inquotes : Bool) : Prop where
  escaped : escapedAt str i = decide (previous = '\\')
  first : beginsPiece str i = start
  quotes : inquotes = decide (quotesBefore str i % 2 = 1)

section Scan

variable {str rest piece later : List Char} {i : Nat} {previous c : Char} {start inquotes : Bool}

theorem scanAt_start (notBackslash : previous ≠ '\\') : ScanAt str 0 previous true false where
  escaped := (decide_eq_false notBackslash).symm
  first := rfl
  quotes := rfl

/-- A separator is a semicolon. -/
theorem semicolon_of_isSeparator (separates : isSeparator str i = true) : str[i]? = some ';' := by
  cases i with
  | zero => exact absurd separates Bool.false_ne_true
  | succ i => simp_all [isSeparator]

/-- The state of the quotes behind a character. -/
theorem ScanAt.quotes_succ (scan : ScanAt str i previous start inquotes)
    (here : str[i]? = some c) :
    (if c = '\x27' ∧ previous ≠ '\\' then !inquotes else inquotes) =
      decide (quotesBefore str (i + 1) % 2 = 1) := by
  have counted : quotesBefore str (i + 1) = quotesBefore str i +
      if c = '\x27' ∧ previous ≠ '\\' then 1 else 0 := by
    unfold quotesBefore
    rw [List.range_succ, List.countP_append, List.countP_singleton, here, scan.escaped]
    simp
  rw [counted, scan.quotes]
  split
  · rw [← decide_not]
    exact decide_eq_decide.mpr (by omega)
  · rfl

/-- The scan stops at the separators. -/
theorem ScanAt.stops_iff (scan : ScanAt str i previous start inquotes) (here : str[i]? = some c) :
    ((if c = '\x27' ∧ previous ≠ '\\' then !inquotes else inquotes) = false ∧ c = ';' ∧
      start = false ∧ previous ≠ '\\') ↔ isSeparator str i = true := by
  have first := scan.first
  cases i with
  | zero =>
      rw [← first]
      simp [beginsPiece, isSeparator]
  | succ i =>
      by_cases semicolon : c = ';'
      · have noQuote : ¬ (c = '\x27' ∧ previous ≠ '\\') := by
          rw [semicolon]
          simp
        rw [if_neg noQuote, scan.quotes, isSeparator, here, scan.escaped, ← first, beginsPiece]
        simp [semicolon]
        exact and_comm
      · refine iff_of_false (fun stops => semicolon stops.2.1) fun separates => ?_
        rw [semicolon_of_isSeparator separates] at here
        exact semicolon (Option.some.inj here).symm

/-- Past a character that does not separate. -/
theorem ScanAt.next (scan : ScanAt str i previous start inquotes) (here : str[i]? = some c)
    (goesOn : ¬ isSeparator str i = true) :
    ScanAt str (i + 1) c false
      (if c = '\x27' ∧ previous ≠ '\\' then !inquotes else inquotes) where
  escaped := by simp [escapedAt, here]
  first := Bool.eq_false_iff.mpr goesOn
  quotes := scan.quotes_succ here

/-- Past a separator, where a NUL stands now. -/
theorem ScanAt.restart (scan : ScanAt str i previous start inquotes)
    (separates : isSeparator str i = true) : ScanAt str (i + 1) '\x00' true false := by
  have here := semicolon_of_isSeparator separates
  refine ⟨by simp [escapedAt, here], separates, ?_⟩
  rw [← scan.quotes_succ here]
  exact ((scan.stops_iff here).mpr separates).1.symm

theorem cutFrom_cons (str : List Char) (i : Nat) (c : Char) (rest : List Char) :
    cutFrom str i (c :: rest) = if isSeparator str i then [] :: cutFrom str (i + 1) rest
      else (cutFrom str (i + 1) rest).modifyHead ((c, i) :: ·) := by
  rw [cutFrom, List.zipIdx_cons, List.splitOnP_cons_eq_if_modifyHead]
  rfl

/-- One turn of the scan. -/
theorem scanSeparator_cons (scan : ScanAt str i previous start inquotes)
    (here : str[i]? = some c) :
    scanSeparator previous start inquotes (c :: rest) =
      if isSeparator str i then ([], some rest)
      else
        let scanned := scanSeparator c false
          (if c = '\x27' ∧ previous ≠ '\\' then !inquotes else inquotes) rest
        (c :: scanned.1, scanned.2) := by
  rw [scanSeparator]
  exact if_congr (scan.stops_iff here) rfl rfl

/-- The character at the head of a rest. -/
theorem getElem?_of_drop (suffix : str.drop i = c :: rest) :
    str[i]? = some c ∧ str.drop (i + 1) = rest := by
  refine ⟨?_, ?_⟩
  · have head := congrArg List.head? suffix
    rwa [List.head?_drop] at head
  · rw [← List.tail_drop, suffix, List.tail_cons]

/-- **The scan for the last piece** comes to the end of the line. -/
theorem cutFrom_last (scan : ScanAt str i previous start inquotes) (suffix : str.drop i = rest)
    (scanned : scanSeparator previous start inquotes rest = (piece, none)) :
    cutFrom str i rest = [piece.zipIdx i] := by
  induction rest generalizing i previous start inquotes piece with
  | nil =>
      obtain rfl : [] = piece := congrArg Prod.fst scanned
      rfl
  | cons c rest ih =>
      obtain ⟨here, tail⟩ := getElem?_of_drop suffix
      rw [scanSeparator_cons scan here] at scanned
      rw [cutFrom_cons]
      by_cases separates : isSeparator str i = true
      · rw [if_pos separates] at scanned
        exact absurd (congrArg Prod.snd scanned) (by simp)
      · rw [if_neg separates] at scanned
        cases next : scanSeparator c false
            (if c = '\x27' ∧ previous ≠ '\\' then !inquotes else inquotes) rest with
        | mk front remainder =>
            rw [next] at scanned
            obtain ⟨rfl, rfl⟩ := Prod.mk.inj scanned
            rw [if_neg separates, ih (scan.next here separates) tail next]
            rfl

/-- **The scan for another piece** comes to the next separator. -/
theorem cutFrom_more (scan : ScanAt str i previous start inquotes) (suffix : str.drop i = rest)
    (scanned : scanSeparator previous start inquotes rest = (piece, some later)) :
    ScanAt str (i + piece.length + 1) '\x00' true false ∧
      cutFrom str i rest = piece.zipIdx i :: cutFrom str (i + piece.length + 1) later := by
  induction rest generalizing i previous start inquotes piece with
  | nil => exact absurd (congrArg Prod.snd scanned) (by simp [scanSeparator])
  | cons c rest ih =>
      obtain ⟨here, tail⟩ := getElem?_of_drop suffix
      rw [scanSeparator_cons scan here] at scanned
      rw [cutFrom_cons]
      by_cases separates : isSeparator str i = true
      · rw [if_pos separates] at scanned
        obtain ⟨rfl, same⟩ := Prod.mk.inj scanned
        obtain rfl := Option.some.inj same
        rw [if_pos separates]
        exact ⟨scan.restart separates, rfl⟩
      · rw [if_neg separates] at scanned
        cases next : scanSeparator c false
            (if c = '\x27' ∧ previous ≠ '\\' then !inquotes else inquotes) rest with
        | mk front remainder =>
            rw [next] at scanned
            obtain ⟨rfl, rfl⟩ := Prod.mk.inj scanned
            obtain ⟨restarts, cut⟩ := ih (scan.next here separates) tail next
            have behind : i + 1 + front.length + 1 = i + (c :: front).length + 1 := by
              rw [List.length_cons]
              omega
            rw [behind] at restarts cut
            rw [if_neg separates, cut]
            exact ⟨restarts, rfl⟩

/-- The first character of a piece does not separate, so a piece is not empty. -/
theorem scanSeparator_start_ne_nil (more : rest ≠ []) :
    (scanSeparator previous true inquotes rest).1 ≠ [] := by
  obtain ⟨c, rest, rfl⟩ := List.exists_cons_of_ne_nil more
  rw [scanSeparator]
  dsimp only
  rw [if_neg fun stops => Bool.false_ne_true stops.2.2.1.symm]
  exact List.cons_ne_nil _ _

/-- A piece without its positions. -/
theorem map_fst_cut (i : Nat) (nonempty : piece ≠ []) (others : List (List (Char × Nat))) :
    ((piece.zipIdx i :: others).map (List.map Prod.fst)).filter (· ≠ []) =
      piece :: (others.map (List.map Prod.fst)).filter (· ≠ []) := by
  rw [List.map_cons, List.zipIdx_map_fst, List.filter_cons_of_pos (by simpa using nonempty)]

/-- The pieces of a rest. -/
theorem pieces_eq_cutFrom (previous : Char) (rest : List Char)
    (scan : ScanAt str i previous true false) (suffix : str.drop i = rest) :
    pieces previous rest = ((cutFrom str i rest).map (List.map Prod.fst)).filter (· ≠ []) := by
  induction previous, rest using pieces.induct generalizing i with
  | case1 previous =>
      rw [pieces, if_pos rfl]
      rfl
  | case2 previous rest more piece scanned =>
      have nonempty : (scanSeparator previous true false rest).1 ≠ [] :=
        scanSeparator_start_ne_nil more
      rw [scanned] at nonempty
      rw [pieces_last more scanned, cutFrom_last scan suffix scanned, map_fst_cut i nonempty]
      rfl
  | case3 previous rest more piece later scanned ih =>
      have nonempty : (scanSeparator previous true false rest).1 ≠ [] :=
        scanSeparator_start_ne_nil more
      rw [scanned] at nonempty
      have whole := scanSeparator_whole scanned
      obtain ⟨restarts, cut⟩ := cutFrom_more scan suffix scanned
      have behind : str.drop (i + piece.length + 1) = later := by
        rw [Nat.add_assoc, ← List.drop_drop, suffix, whole]
        simp [List.drop_append]
      rw [pieces_more more scanned, cut, map_fst_cut i nonempty, ih restarts behind]

end Scan

/-- **The scan cuts a line at its separators**, whatever stands in front of it, unless it begins
with a quote. -/
theorem pieces_eq_cutPieces (below : Char) {str : List Char}
    (noQuote : str.head? ≠ some '\x27') : pieces below str = cutPieces str := by
  have fromNul : pieces '\x00' str = cutPieces str :=
    pieces_eq_cutFrom '\x00' str (scanAt_start (by decide)) rfl
  cases str with
  | nil => rw [← fromNul, pieces, pieces, if_pos rfl, if_pos rfl]
  | cons c rest =>
      have plain : c ≠ '\x27' := fun quote => noQuote (by rw [quote]; rfl)
      have same : scanSeparator below true false (c :: rest) =
          scanSeparator '\x00' true false (c :: rest) := by
        simp [scanSeparator, plain]
      rw [← fromNul]
      cases scanned : scanSeparator '\x00' true false (c :: rest) with
      | mk piece remainder =>
          have more := List.cons_ne_nil c rest
          cases remainder with
          | none => rw [pieces_last more scanned, pieces_last more (same.trans scanned)]
          | some later => rw [pieces_more more scanned, pieces_more more (same.trans scanned)]

end K210Guard
