/-
**A byte memory with 64-bit addresses.**

Addresses wrap around. `bytesAt` reads a range, `dword` reads 8 bytes as a little-endian number and
`storeDword` stores one. A row of doublewords at a base is a list of slots; `storeSlots` stores
into several of them, and `dword_storeSlots` says what each slot holds afterwards.
-/

import Mathlib.Data.List.OfFn
import K210Guard.Memory.LittleEndian

namespace K210Guard.Rv64

/-- A register, and an address. -/
abbrev Word := BitVec 64

abbrev Mem := Word → Byte

/-- The address `i` bytes above another. -/
abbrev Word.up (addr : Word) (i : Nat) : Word := addr + BitVec.ofNat 64 i

/-- The bytes of a range. -/
def bytesAt (mem : Mem) (addr : Word) (count : Nat) : List Byte :=
  List.ofFn fun i : Fin count => mem (addr.up i)

/-- A load of 8 bytes. -/
def dword (mem : Mem) (addr : Word) : Word := BitVec.ofNat 64 (leNat (bytesAt mem addr 8))

/-- A store of 8 bytes. -/
def storeDword (mem : Mem) (addr value : Word) : Mem := fun x =>
  if (x - addr).toNat < 8 then BitVec.ofNat 8 (value.toNat / 256 ^ (x - addr).toNat) else mem x

@[simp] theorem bytesAt_length (mem : Mem) (addr : Word) (count : Nat) :
    (bytesAt mem addr count).length = count := by
  simp [bytesAt]

theorem bytesAt_congr {mem other : Mem} {addr : Word} {count : Nat}
    (same : ∀ i < count, mem (addr.up i) = other (addr.up i)) :
    bytesAt mem addr count = bytesAt other addr count := by
  unfold bytesAt
  congr 1
  funext i
  exact same i i.isLt

/-- A range, then one more byte. -/
theorem bytesAt_succ (mem : Mem) (addr : Word) (count : Nat) :
    bytesAt mem addr (count + 1) = bytesAt mem addr count ++ [mem (addr.up count)] := by
  unfold bytesAt
  rw [List.ofFn_succ_last]
  rfl

/-! ### Stores -/

theorem storeDword_outside {mem : Mem} {addr value x : Word} (outside : 8 ≤ (x - addr).toNat) :
    storeDword mem addr value x = mem x := if_neg (by omega)

theorem up_sub_self (addr : Word) {i : Nat} (small : i < 2 ^ 64) :
    (addr.up i - addr).toNat = i := by
  bv_omega

/-- A load of what was stored. -/
theorem dword_storeDword_self (mem : Mem) (addr value : Word) :
    dword (storeDword mem addr value) addr = value := by
  have bytes : bytesAt (storeDword mem addr value) addr 8 = leBytes 8 value.toNat := by
    refine List.ext_getElem (by simp) fun i bound other => ?_
    have below : i < 8 := by simpa using other
    rw [getElem_leBytes]
    refine (List.getElem_ofFn _).trans ?_
    show storeDword mem addr value (addr.up i) = _
    rw [storeDword, up_sub_self addr (by omega), if_pos below]
  rw [dword, bytes, leNat_leBytes]
  apply BitVec.eq_of_toNat_eq
  have := value.isLt
  rw [BitVec.toNat_ofNat]
  omega

/-- A load of 8 other bytes. -/
theorem dword_storeDword_apart {mem : Mem} {addr value other : Word}
    (apart : ∀ i < 8, 8 ≤ (other.up i - addr).toNat) :
    dword (storeDword mem addr value) other = dword mem other := by
  rw [dword, dword, bytesAt_congr fun i below => storeDword_outside (apart i below)]

/-- Two loads of 8 bytes agree if and only if the bytes do. -/
theorem dword_eq_iff {mem other : Mem} {addr start : Word} :
    dword mem addr = dword other start ↔ ∀ i < 8, mem (addr.up i) = other (start.up i) := by
  have number : ∀ (mem : Mem) (addr : Word),
      (dword mem addr).toNat = leNat (bytesAt mem addr 8) := fun mem addr => by
    have range : 256 ^ (bytesAt mem addr 8).length = 2 ^ 64 :=
      congrArg (256 ^ ·) (bytesAt_length mem addr 8)
    have below : leNat (bytesAt mem addr 8) < 2 ^ 64 := range ▸ leNat_lt (bytesAt mem addr 8)
    rw [dword, BitVec.toNat_ofNat, Nat.mod_eq_of_lt below]
  have spelled : ∀ (mem : Mem) (addr : Word),
      leBytes 8 (dword mem addr).toNat = bytesAt mem addr 8 := fun mem addr => by
    have back := leBytes_leNat (bytesAt mem addr 8)
    rwa [bytesAt_length, ← number] at back
  constructor
  · intro same i below
    have bytes : bytesAt mem addr 8 = bytesAt other start 8 := by
      rw [← spelled, same, spelled]
    exact congrFun (List.ofFn_inj.mp bytes) ⟨i, below⟩
  · intro same
    have bytes : bytesAt mem addr 8 = bytesAt other start 8 :=
      List.ofFn_inj.mpr (funext fun i => same i i.isLt)
    rw [dword, dword, bytes]

/-! ### Slots -/

/-- The address of a slot. -/
abbrev slotAddr (base : Word) (slot : Nat) : Word := base.up (8 * slot)

theorem slots_apart (base : Word) {slot other : Nat} (differ : slot ≠ other) (bound : slot < 64)
    (boundOther : other < 64) :
    ∀ i < 8, 8 ≤ ((slotAddr base other).up i - slotAddr base slot).toNat := by
  intro i below
  bv_omega

/-- The slots from one number to another hold the same if and only if their bytes do. -/
theorem slots_eq_iff {mem other : Mem} (base : Word) (first : Nat) {count : Nat}
    (fits : 8 * count < 2 ^ 64) :
    (∀ slot, first ≤ slot → slot < count →
        dword mem (slotAddr base slot) = dword other (slotAddr base slot)) ↔
      ∀ x, 8 * first ≤ (x - base).toNat → (x - base).toNat < 8 * count → mem x = other x := by
  constructor
  · intro slots x after before
    have there : (slotAddr base ((x - base).toNat / 8)).up ((x - base).toNat % 8) = x := by
      bv_omega
    rw [← there]
    exact dword_eq_iff.mp (slots _ (by omega) (by omega)) _ (Nat.mod_lt _ (by decide))
  · intro bytes slot after before
    refine dword_eq_iff.mpr fun i below => bytes _ ?_ ?_
    · bv_omega
    · bv_omega

/-- The slots a list names, each stored with its value. -/
def storeSlots (base : Word) (values : Nat → Word) (slots : List Nat) (mem : Mem) : Mem :=
  slots.foldl (fun mem slot => storeDword mem (slotAddr base slot) (values slot)) mem

theorem dword_storeSlots (base : Word) (values : Nat → Word) (slots : List Nat)
    (bounds : ∀ slot ∈ slots, slot < 64) (mem : Mem) {slot : Nat} (bound : slot < 64) :
    dword (storeSlots base values slots mem) (slotAddr base slot) =
      if slot ∈ slots then values slot else dword mem (slotAddr base slot) := by
  induction slots generalizing mem with
  | nil => rfl
  | cons first slots ih =>
      obtain ⟨firstBound, bounds⟩ := List.forall_mem_cons.mp bounds
      show dword
        (storeSlots base values slots (storeDword mem (slotAddr base first) (values first)))
        (slotAddr base slot) = _
      rw [ih bounds]
      by_cases later : slot ∈ slots
      · rw [if_pos later, if_pos (List.mem_cons_of_mem _ later)]
      rw [if_neg later]
      by_cases same : slot = first
      · rw [same, if_pos List.mem_cons_self, dword_storeDword_self]
      · rw [if_neg (by simp [same, later]),
          dword_storeDword_apart (slots_apart base (Ne.symm same) firstBound bound)]

/-- Storing slots leaves the memory outside them alone. -/
theorem storeSlots_outside (base : Word) (values : Nat → Word) (slots : List Nat)
    (bounds : ∀ slot ∈ slots, slot < 64) (mem : Mem) {x : Word}
    (outside : 512 ≤ (x - base).toNat) : storeSlots base values slots mem x = mem x := by
  induction slots generalizing mem with
  | nil => rfl
  | cons first slots ih =>
      obtain ⟨firstBound, bounds⟩ := List.forall_mem_cons.mp bounds
      refine (ih bounds (storeDword mem (slotAddr base first) (values first))).trans ?_
      exact storeDword_outside (by bv_omega)

end K210Guard.Rv64
