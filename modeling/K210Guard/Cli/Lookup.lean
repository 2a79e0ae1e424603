/-
**The command table** (`find_cmd_tbl`, `cmd_init` and the sort of `do_help`, `cli/command.c`).

* `findCmdTbl_eq` — what a lookup returns: the entry named by the query up to its first dot, or the
  only entry with that stem as a prefix.
* `findCmdTbl_perm` — the order of a table with distinct names does not matter.
* `bubbleSort_sorted` — the sort of `do_help` sorts: a pass carries the last name to the end of its
  range, and a pass without swaps has nothing left to do.
* `CmdArray` — `cmd_array` after `cmd_init` and any number of sorts; `find_eq` says that a lookup
  in it is a lookup in the table `cmd_init` made.
-/

import Mathlib.Data.List.Perm.Basic
import Mathlib.Data.List.Nodup

namespace K210Guard

/-! ### Entries and lookup -/

/-- The command functions. -/
inductive Handler
  | help
  | fldump
  | flread
  | flwrite
  | flerase
  | crc16
  | loadb
  | md
  | reset
  deriving DecidableEq

/-- `struct cmd_tbl_s` -/
structure CmdTbl where
  name : List Char
  maxargs : Nat
  cmd : Handler
  usage : String
  deriving DecidableEq

/-- The characters of a query up to its first dot. -/
def stem (cmd : List Char) : List Char := cmd.takeWhile (· ≠ '.')

/-- The loop of `find_cmd_tbl`, with `cmdtp_temp` and `n_found`. -/
def findCmdTblLoop (stem : List Char) : List CmdTbl → Option CmdTbl → Nat → Option CmdTbl
  | [], cmdtpTemp, nFound => if nFound = 1 then cmdtpTemp else none
  | entry :: table, cmdtpTemp, nFound =>
      if stem <+: entry.name then
        if stem.length = entry.name.length then some entry
        else findCmdTblLoop stem table (some entry) (nFound + 1)
      else findCmdTblLoop stem table cmdtpTemp nFound

def findCmdTbl (cmd : List Char) (table : List CmdTbl) : Option CmdTbl :=
  findCmdTblLoop (stem cmd) table table.head? 0

/-- The entries a stem abbreviates. -/
def abbreviated (stem : List Char) (table : List CmdTbl) : List CmdTbl :=
  table.filter (stem <+: ·.name)

/-- The entry with a given name. -/
def named (name : List Char) (table : List CmdTbl) : Option CmdTbl :=
  table.find? (·.name = name)

/-- A prefix as long as the name is the name. -/
theorem full_match_iff {stem : List Char} {entry : CmdTbl} (isPrefix : stem <+: entry.name) :
    stem.length = entry.name.length ↔ entry.name = stem :=
  ⟨fun same => (isPrefix.eq_of_length same).symm, fun same => by rw [same]⟩

theorem findCmdTblLoop_eq (stem : List Char) (table : List CmdTbl) (cmdtpTemp : Option CmdTbl)
    (nFound : Nat) :
    findCmdTblLoop stem table cmdtpTemp nFound = (named stem table).or
      (if nFound + (abbreviated stem table).length = 1 then
        (abbreviated stem table).getLast?.or cmdtpTemp
      else none) := by
  induction table generalizing cmdtpTemp nFound with
  | nil => rfl
  | cons entry table ih =>
      rw [findCmdTblLoop]
      by_cases isPrefix : stem <+: entry.name
      · rw [if_pos isPrefix]
        by_cases full : entry.name = stem
        · rw [if_pos ((full_match_iff isPrefix).mpr full), named,
            List.find?_cons_of_pos (by simpa using full), Option.some_or]
        · rw [if_neg (mt (full_match_iff isPrefix).mp full), ih, named, named,
            List.find?_cons_of_neg (by simpa using full), abbreviated, abbreviated,
            List.filter_cons_of_pos (by simpa using isPrefix), List.length_cons,
            List.getLast?_cons, Option.some_or]
          rw [show nFound + 1 + (table.filter (stem <+: ·.name)).length =
            nFound + ((table.filter (stem <+: ·.name)).length + 1) by omega]
          cases (table.filter (stem <+: ·.name)).getLast? <;> rfl
      · have other : entry.name ≠ stem := fun same => isPrefix (same ▸ List.prefix_rfl)
        rw [if_neg isPrefix, ih, named, named, List.find?_cons_of_neg (by simpa using other),
          abbreviated, abbreviated, List.filter_cons_of_neg (by simpa using isPrefix)]

/-- **What a lookup returns.** -/
theorem findCmdTbl_eq (cmd : List Char) (table : List CmdTbl) :
    findCmdTbl cmd table = (named (stem cmd) table).or
      (if (abbreviated (stem cmd) table).length = 1 then (abbreviated (stem cmd) table).head?
      else none) := by
  rw [findCmdTbl, findCmdTblLoop_eq, Nat.zero_add]
  congr 1
  split
  · next one =>
      obtain ⟨entry, only⟩ := List.length_eq_one_iff.mp one
      rw [only]
      rfl
  · rfl

/-- A lookup returns an entry of the table. -/
theorem findCmdTbl_mem {cmd : List Char} {table : List CmdTbl} {entry : CmdTbl}
    (found : findCmdTbl cmd table = some entry) : entry ∈ table := by
  rw [findCmdTbl_eq, Option.or_eq_some_iff] at found
  rcases found with full | ⟨-, short⟩
  · exact List.mem_of_find?_eq_some full
  · split at short
    · exact List.mem_of_mem_filter (List.mem_of_head? short)
    · exact absurd short (by simp)

/-! ### The order of the table -/

/-- In a table with distinct names, a name finds its entry. -/
theorem named_eq_some_iff {table : List CmdTbl} (distinct : (table.map CmdTbl.name).Nodup)
    {name : List Char} {entry : CmdTbl} :
    named name table = some entry ↔ entry ∈ table ∧ entry.name = name := by
  constructor
  · intro found
    exact ⟨List.mem_of_find?_eq_some found, by simpa using List.find?_some found⟩
  · rintro ⟨member, rfl⟩
    cases found : named entry.name table with
    | none => exact absurd (List.find?_eq_none.mp found entry member) (by simp)
    | some other =>
        have same : other.name = entry.name := by simpa using List.find?_some found
        rw [List.inj_on_of_nodup_map distinct (List.mem_of_find?_eq_some found) member same]

/-- A list without repetitions has only `entry`. -/
theorem eq_singleton_iff {entries : List CmdTbl} (nodup : entries.Nodup) (entry : CmdTbl) :
    entries = [entry] ↔ entry ∈ entries ∧ ∀ other ∈ entries, other = entry := by
  constructor
  · rintro rfl
    exact ⟨List.mem_singleton_self _, fun _ => List.mem_singleton.mp⟩
  · rintro ⟨member, only⟩
    have all := List.eq_replicate_of_mem only
    rw [all, List.nodup_replicate] at nodup
    have one : entries.length = 1 := Nat.le_antisymm nodup (List.length_pos_of_mem member)
    rw [all, one, List.replicate_one]

/-- The only abbreviated entry. -/
theorem abbreviated_eq_singleton_iff {table : List CmdTbl} (nodup : table.Nodup)
    (stem : List Char) (entry : CmdTbl) :
    abbreviated stem table = [entry] ↔ entry ∈ table ∧ stem <+: entry.name ∧
      ∀ other ∈ table, stem <+: other.name → other = entry := by
  rw [abbreviated, eq_singleton_iff (nodup.filter _)]
  simp only [List.mem_filter, decide_eq_true_eq, and_imp, and_assoc]

/-- **Which entry a lookup returns**: the one with the full name, or else the only one that the
stem abbreviates. -/
theorem findCmdTbl_eq_some_iff {table : List CmdTbl} (distinct : (table.map CmdTbl.name).Nodup)
    (cmd : List Char) (entry : CmdTbl) :
    findCmdTbl cmd table = some entry ↔ entry ∈ table ∧ (entry.name = stem cmd ∨
      (∀ other ∈ table, other.name ≠ stem cmd) ∧ stem cmd <+: entry.name ∧
        ∀ other ∈ table, stem cmd <+: other.name → other = entry) := by
  have absent : named (stem cmd) table = none ↔ ∀ other ∈ table, other.name ≠ stem cmd := by
    simp [named]
  have short : (if (abbreviated (stem cmd) table).length = 1 then
      (abbreviated (stem cmd) table).head? else none) = some entry ↔
        abbreviated (stem cmd) table = [entry] := by
    constructor
    · intro found
      split at found
      · next one =>
          obtain ⟨only, isOnly⟩ := List.length_eq_one_iff.mp one
          rw [isOnly] at found ⊢
          rw [Option.some.inj found]
      · exact absurd found (by simp)
    · intro only
      rw [only]
      rfl
  rw [findCmdTbl_eq, Option.or_eq_some_iff, named_eq_some_iff distinct, absent, short,
    abbreviated_eq_singleton_iff (distinct.of_map _)]
  tauto

variable {table other : List CmdTbl}

theorem named_perm (same : table.Perm other) (distinct : (table.map CmdTbl.name).Nodup)
    (name : List Char) : named name table = named name other := by
  have distinctOther := (same.map CmdTbl.name).nodup_iff.mp distinct
  refine Option.ext fun entry => ?_
  rw [named_eq_some_iff distinct, named_eq_some_iff distinctOther, same.mem_iff]

/-- **The order of the table does not matter.** -/
theorem findCmdTbl_perm (same : table.Perm other) (distinct : (table.map CmdTbl.name).Nodup)
    (cmd : List Char) : findCmdTbl cmd table = findCmdTbl cmd other := by
  have short : (abbreviated (stem cmd) table).Perm (abbreviated (stem cmd) other) :=
    same.filter _
  rw [findCmdTbl_eq, findCmdTbl_eq, named_perm same distinct, short.length_eq]
  congr 1
  split
  · next one =>
      obtain ⟨entry, only⟩ := List.length_eq_one_iff.mp one
      rw [only] at short ⊢
      rw [short.eq_singleton]
  · rfl

/-! ### The sort of `do_help` -/

/-- The inner loop of the bubble sort, over the first `i` neighbours, with the number of swaps. -/
def bubblePass : Nat → List CmdTbl → List CmdTbl × Nat
  | i + 1, first :: second :: rest =>
      if second.name < first.name then
        let passed := bubblePass i (first :: rest)
        (second :: passed.1, passed.2 + 1)
      else
        let passed := bubblePass i (second :: rest)
        (first :: passed.1, passed.2)
  | _, table => (table, 0)

/-- The outer loop, from `i` down; a pass without swaps ends it. -/
def bubbleSort : Nat → List CmdTbl → List CmdTbl
  | 0, table => table
  | i + 1, table =>
      let passed := bubblePass (i + 1) table
      if passed.2 = 0 then passed.1 else bubbleSort i passed.1

theorem bubblePass_perm (i : Nat) (table : List CmdTbl) : (bubblePass i table).1.Perm table := by
  induction i generalizing table with
  | zero => exact List.Perm.refl _
  | succ i ih =>
      match table with
      | [] => exact List.Perm.refl _
      | [_] => exact List.Perm.refl _
      | first :: second :: rest =>
          rw [bubblePass]
          split
          · exact ((ih (first :: rest)).cons second).trans (.swap first second rest)
          · exact (ih (second :: rest)).cons first

theorem bubbleSort_perm (i : Nat) (table : List CmdTbl) : (bubbleSort i table).Perm table := by
  induction i generalizing table with
  | zero => exact List.Perm.refl _
  | succ i ih =>
      rw [bubbleSort]
      split
      · exact bubblePass_perm _ _
      · exact (ih _).trans (bubblePass_perm _ _)

/-- Entries in the order of their names. -/
def SortedByName (table : List CmdTbl) : Prop :=
  table.Pairwise fun first second => ¬ second.name < first.name

theorem not_lt_trans {first second third : List Char} (before : ¬ second < first)
    (after : ¬ third < second) : ¬ third < first :=
  List.not_lt.mpr (List.le_trans (List.not_lt.mp before) (List.not_lt.mp after))

/-- A pass reads and writes no entry beyond its last neighbour. -/
theorem bubblePass_append {i : Nat} {front : List CmdTbl} (covers : front.length = i + 1)
    (back : List CmdTbl) :
    bubblePass i (front ++ back) = ((bubblePass i front).1 ++ back, (bubblePass i front).2) := by
  induction i generalizing front with
  | zero =>
      obtain ⟨only, rfl⟩ := List.length_eq_one_iff.mp covers
      rfl
  | succ i ih =>
      match front, covers with
      | first :: second :: rest, covers =>
          have shorter : ∀ entry : CmdTbl, (entry :: rest).length = i + 1 := fun _ =>
            Nat.succ.inj covers
          have later := fun entry => ih (shorter entry)
          simp only [List.cons_append] at later
          simp only [List.cons_append, bubblePass]
          split
          · rw [later first, List.cons_append]
          · rw [later second, List.cons_append]

/-- **A pass moves the last entry by name to the end.** -/
theorem bubblePass_last {i : Nat} {front : List CmdTbl} (covers : front.length = i + 1) :
    ∃ init last, (bubblePass i front).1 = init ++ [last] ∧ init.length = i ∧
      ∀ entry ∈ front, ¬ last.name < entry.name := by
  induction i generalizing front with
  | zero =>
      obtain ⟨only, rfl⟩ := List.length_eq_one_iff.mp covers
      refine ⟨[], only, rfl, rfl, fun entry member => ?_⟩
      rw [List.mem_singleton.mp member]
      exact List.lt_irrefl _
  | succ i ih =>
      match front, covers with
      | first :: second :: rest, covers =>
          have shorter : ∀ entry : CmdTbl, (entry :: rest).length = i + 1 := fun _ =>
            Nat.succ.inj covers
          simp only [bubblePass]
          split
          · next smaller =>
              obtain ⟨init, last, passed, size, greatest⟩ := ih (shorter first)
              refine ⟨second :: init, last, by rw [passed, List.cons_append], by simp [size], ?_⟩
              have ofFirst := greatest first List.mem_cons_self
              intro entry member
              rcases List.mem_cons.mp member with rfl | member
              · exact ofFirst
              rcases List.mem_cons.mp member with rfl | member
              · exact not_lt_trans (List.lt_asymm smaller) ofFirst
              · exact greatest entry (List.mem_cons_of_mem _ member)
          · next ordered =>
              obtain ⟨init, last, passed, size, greatest⟩ := ih (shorter second)
              refine ⟨first :: init, last, by rw [passed, List.cons_append], by simp [size], ?_⟩
              intro entry member
              rcases List.mem_cons.mp member with rfl | member
              · exact not_lt_trans ordered (greatest second List.mem_cons_self)
              · exact greatest entry member

/-- A pass without swaps changes nothing, and there was nothing to sort. -/
theorem bubblePass_noSwaps {i : Nat} {front : List CmdTbl} (covers : front.length = i + 1)
    (noSwaps : (bubblePass i front).2 = 0) :
    (bubblePass i front).1 = front ∧ SortedByName front := by
  induction i generalizing front with
  | zero =>
      obtain ⟨only, rfl⟩ := List.length_eq_one_iff.mp covers
      exact ⟨rfl, List.pairwise_singleton _ _⟩
  | succ i ih =>
      match front, covers with
      | first :: second :: rest, covers =>
          simp only [bubblePass] at noSwaps ⊢
          split at noSwaps
          · exact absurd noSwaps (Nat.succ_ne_zero _)
          · next ordered =>
              obtain ⟨same, sorted⟩ := ih (by simpa using covers) noSwaps
              rw [if_neg ordered, same]
              refine ⟨rfl, List.pairwise_cons.mpr ⟨?_, sorted⟩⟩
              intro entry member
              rcases List.mem_cons.mp member with rfl | member
              · exact ordered
              · exact not_lt_trans ordered ((List.pairwise_cons.mp sorted).1 entry member)

/-- **The outer loop sorts**, provided that what lies beyond its range is sorted and in place. -/
theorem bubbleSort_append (i : Nat) {front back : List CmdTbl} (covers : front.length = i + 1)
    (settled : SortedByName back)
    (inPlace : ∀ entry ∈ front, ∀ later ∈ back, ¬ later.name < entry.name) :
    SortedByName (bubbleSort i (front ++ back)) := by
  induction i generalizing front back with
  | zero =>
      obtain ⟨only, rfl⟩ := List.length_eq_one_iff.mp covers
      exact List.pairwise_cons.mpr ⟨inPlace only (List.mem_singleton_self _), settled⟩
  | succ i ih =>
      rw [bubbleSort, bubblePass_append covers]
      dsimp only
      split
      · next noSwaps =>
          obtain ⟨same, sorted⟩ := bubblePass_noSwaps covers noSwaps
          rw [same]
          exact List.pairwise_append.mpr ⟨sorted, settled, inPlace⟩
      · obtain ⟨init, last, passed, size, greatest⟩ := bubblePass_last covers
        have members : ∀ entry, entry ∈ init ++ [last] ↔ entry ∈ front := fun entry => by
          rw [← passed]
          exact (bubblePass_perm (i + 1) front).mem_iff
        have isLast : last ∈ front := (members last).mp (by simp)
        rw [passed, List.append_assoc]
        refine ih size (List.pairwise_cons.mpr ⟨inPlace last isLast, settled⟩) ?_
        intro entry member later isLater
        have before := (members entry).mp (List.mem_append_left _ member)
        rcases List.mem_cons.mp isLater with rfl | isLater
        · exact greatest entry before
        · exact inPlace entry before later isLater

/-- **The bubble sort of `do_help` sorts the table.** -/
theorem bubbleSort_sorted (table : List CmdTbl) :
    SortedByName (bubbleSort (table.length - 1) table) := by
  cases table with
  | nil => exact List.Pairwise.nil
  | cons first rest =>
      have sorted : SortedByName (bubbleSort rest.length (first :: rest ++ [])) :=
        bubbleSort_append rest.length rfl List.Pairwise.nil
          fun _ _ _ none => absurd none List.not_mem_nil
      rwa [List.append_nil] at sorted

/-! ### The commands of the loader -/

def cmdTblHelp : CmdTbl := ⟨['h', 'e', 'l', 'p'], 2, .help, "help <command>"⟩

def cmdTblFldump : CmdTbl :=
  ⟨['f', 'l', 'd', 'u', 'm', 'p'], 3, .fldump, "fldump <floffset> <length>"⟩

def cmdTblFlread : CmdTbl :=
  ⟨['f', 'l', 'r', 'e', 'a', 'd'], 4, .flread, "flread <floffset> <length> <ramaddr>"⟩

def cmdTblFlerase : CmdTbl :=
  ⟨['f', 'l', 'e', 'r', 'a', 's', 'e'], 3, .flerase, "flerase <floffset> <length>"⟩

def cmdTblFlwrite : CmdTbl :=
  ⟨['f', 'l', 'w', 'r', 'i', 't', 'e'], 4, .flwrite, "flwrite <floffset> <length> <ramaddr>"⟩

def cmdTblCrc16 : CmdTbl := ⟨['c', 'r', 'c', '1', '6'], 3, .crc16, "crc16 <ramaddr> <length>"⟩

def cmdTblLoadb : CmdTbl :=
  ⟨['l', 'o', 'a', 'd', 'b'], 2, .loadb, "loadb <ramaddr> (kermit mode)"⟩

def cmdTblMd : CmdTbl := ⟨['m', 'd'], 3, .md, "md <ramaddr> <length>"⟩

def cmdTblReset : CmdTbl := ⟨['r', 'e', 's', 'e', 't'], 1, .reset, "reset"⟩

/-- What `cmd_init` puts in `cmd_array`. -/
def cmdInit : List CmdTbl :=
  [cmdTblHelp, cmdTblFldump, cmdTblFlread, cmdTblFlwrite, cmdTblFlerase, cmdTblCrc16, cmdTblLoadb,
    cmdTblMd, cmdTblReset]

theorem cmdInit_distinct : (cmdInit.map CmdTbl.name).Nodup := by decide

/-- **Lookups are free of the order.** -/
theorem findCmdTbl_orderFree (table : List CmdTbl) (distinct : (table.map CmdTbl.name).Nodup) :
    (∀ cmd entry, findCmdTbl cmd table = some entry ↔
      entry ∈ table ∧ (entry.name = stem cmd ∨
        (∀ other ∈ table, other.name ≠ stem cmd) ∧ stem cmd <+: entry.name ∧
          ∀ other ∈ table, stem cmd <+: other.name → other = entry)) ∧
    (∀ other : List CmdTbl, other.Perm table →
      ∀ cmd, findCmdTbl cmd other = findCmdTbl cmd table) ∧
    SortedByName (bubbleSort (table.length - 1) table) ∧
    (bubbleSort (table.length - 1) table).Perm table ∧
    ∀ cmd, findCmdTbl cmd (bubbleSort (table.length - 1) table) = findCmdTbl cmd table := by
  refine ⟨findCmdTbl_eq_some_iff distinct, fun other same cmd => ?_, bubbleSort_sorted table,
    bubbleSort_perm _ _, fun cmd => ?_⟩
  · exact (findCmdTbl_perm same.symm distinct cmd).symm
  · exact (findCmdTbl_perm (bubbleSort_perm _ _).symm distinct cmd).symm

/-- The table of the loader. -/
theorem findCmdTbl_orderFree_cmdInit :
    SortedByName (bubbleSort (cmdInit.length - 1) cmdInit) ∧
    ∀ cmd, findCmdTbl cmd (bubbleSort (cmdInit.length - 1) cmdInit) = findCmdTbl cmd cmdInit :=
  let free := findCmdTbl_orderFree cmdInit cmdInit_distinct
  ⟨free.2.2.1, free.2.2.2.2⟩

/-- An abbreviation of one name, and one of several. -/
example : findCmdTbl ['f', 'l', 'e', '.', 'b'] cmdInit = some cmdTblFlerase ∧
    findCmdTbl ['f', 'l'] cmdInit = none := by decide

/-- `cmd_array` and `cmd_items` after `cmd_init`: some order of the commands. -/
structure CmdArray where
  entries : List CmdTbl
  isPerm : entries.Perm cmdInit

namespace CmdArray

def init : CmdArray := ⟨cmdInit, .refl _⟩

/-- The array after the sort of `do_help`. -/
def sorted (array : CmdArray) : CmdArray where
  entries := bubbleSort (array.entries.length - 1) array.entries
  isPerm := (bubbleSort_perm _ _).trans array.isPerm

/-- `find_cmd` -/
def find (array : CmdArray) (cmd : List Char) : Option CmdTbl := findCmdTbl cmd array.entries

/-- **A lookup does not depend on the sorts before it.** -/
theorem find_eq (array : CmdArray) (cmd : List Char) :
    array.find cmd = findCmdTbl cmd cmdInit :=
  findCmdTbl_perm array.isPerm ((array.isPerm.map CmdTbl.name).nodup_iff.mpr cmdInit_distinct) cmd

end CmdArray

end K210Guard
