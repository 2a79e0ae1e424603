/-
**Stores.**

The encoding of the RV64 stores and what each does. A store is also a list of byte stores, each an
address with its byte; `storeBytes_byteStores` says what the memory holds after those of a range.
-/

import K210Guard.Rv64.Hart

namespace K210Guard.Rv64

/-! ### Byte stores -/

/-- The byte stores of the low `count` bytes of a value, in order. -/
def byteStores (addr value : Word) (count : Nat) : List (Word × Byte) :=
  List.ofFn fun i : Fin count => (addr.up i, value.extractLsb' (8 * i) 8)

/-- The memory after some byte stores. -/
def storeBytes (mem : Mem) (writes : List (Word × Byte)) : Mem :=
  writes.foldl (fun mem write => Function.update mem write.1 write.2) mem

theorem byteStores_succ (addr value : Word) (count : Nat) :
    byteStores addr value (count + 1) =
      byteStores addr value count ++ [(addr.up count, value.extractLsb' (8 * count) 8)] := by
  unfold byteStores
  rw [List.ofFn_succ_last]
  rfl

/-- One more byte. -/
theorem storeBytes_succ (mem : Mem) (addr value : Word) (count : Nat) :
    storeBytes mem (byteStores addr value (count + 1)) =
      Function.update (storeBytes mem (byteStores addr value count)) (addr.up count)
        (value.extractLsb' (8 * count) 8) := by
  rw [byteStores_succ, storeBytes, List.foldl_append]
  rfl

/-- **What the memory holds after a store**: the bytes of the value in the range, and what was there
before outside. -/
theorem storeBytes_byteStores (mem : Mem) (addr value : Word) {count : Nat} (fits : count ≤ 8)
    (x : Word) : storeBytes mem (byteStores addr value count) x =
      if (x - addr).toNat < count then value.extractLsb' (8 * (x - addr).toNat) 8 else mem x := by
  induction count with
  | zero => rfl
  | succ count ih =>
      have last : x = addr.up count ↔ (x - addr).toNat = count := by
        constructor
        · rintro rfl
          exact up_sub_self addr (by omega)
        · intro offset
          bv_omega
      rw [storeBytes_succ, Function.update_apply, ih (by omega)]
      by_cases here : (x - addr).toNat = count
      · rw [if_pos (last.mpr here), if_pos (by omega), here]
      · rw [if_neg (mt last.mp here)]
        simp only [show (x - addr).toNat < count + 1 ↔ (x - addr).toNat < count by omega]

/-- Two values agree in their low bytes if and only if they agree in the bits of these bytes. -/
theorem bytes_eq_iff {value other : Word} {count : Nat} :
    (∀ i < count, value.extractLsb' (8 * i) 8 = other.extractLsb' (8 * i) 8) ↔
      value.setWidth (8 * count) = other.setWidth (8 * count) := by
  constructor
  · intro bytes
    refine BitVec.eq_of_getLsbD_eq fun j below => ?_
    have bit := congrArg (BitVec.getLsbD · (j % 8)) (bytes (j / 8) (by omega))
    have inByte : j % 8 < 8 := Nat.mod_lt j (by decide)
    simp only [BitVec.getLsbD_extractLsb', Nat.div_add_mod, inByte, decide_true,
      Bool.true_and] at bit
    rw [BitVec.getLsbD_setWidth, BitVec.getLsbD_setWidth, bit]
  · intro same i below
    refine BitVec.eq_of_getLsbD_eq fun j inByte => ?_
    have bit := congrArg (BitVec.getLsbD · (8 * i + j)) same
    have inside : 8 * i + j < 8 * count := by omega
    simp only [BitVec.getLsbD_setWidth, inside, decide_true, Bool.true_and] at bit
    rw [BitVec.getLsbD_extractLsb', BitVec.getLsbD_extractLsb', bit]

/-- Two stores of as many bytes are the same if and only if they go to one address and agree in
these bytes. -/
theorem byteStores_eq_iff {addr start value other : Word} {count : Nat} (positive : 0 < count) :
    byteStores addr value count = byteStores start other count ↔
      addr = start ∧ value.setWidth (8 * count) = other.setWidth (8 * count) := by
  unfold byteStores
  rw [List.ofFn_inj, funext_iff, ← bytes_eq_iff]
  constructor
  · intro same
    have first := congrArg Prod.fst (same ⟨0, positive⟩)
    obtain rfl : addr = start := by simpa using first
    exact ⟨rfl, fun i below => congrArg Prod.snd (same ⟨i, below⟩)⟩
  · rintro ⟨rfl, same⟩ i
    rw [same i i.isLt]

/-! ### The instructions -/

inductive StoreKind
  | sb
  | sh
  | sw
  | sd
  | fsw
  | fsd
  deriving DecidableEq

namespace StoreKind

/-- The number of bytes. -/
def width : StoreKind → Nat
  | .sb => 1
  | .sh => 2
  | .sw | .fsw => 4
  | .sd | .fsd => 8

/-- Whether the source is a floating-point register. -/
def float : StoreKind → Bool
  | .fsw | .fsd => true
  | _ => false

/-- The kinds by their major opcode and `funct3`. -/
def decode (opcode funct3 : Nat) : Option StoreKind :=
  match opcode, funct3 with
  | 0x23, 0 => some .sb
  | 0x23, 1 => some .sh
  | 0x23, 2 => some .sw
  | 0x23, 3 => some .sd
  | 0x27, 2 => some .fsw
  | 0x27, 3 => some .fsd
  | _, _ => none

end StoreKind

/-- A store instruction. -/
structure Store where
  kind : StoreKind
  rs1 : Reg
  rs2 : Reg
  imm : BitVec 12
  deriving DecidableEq

/-- The store a word encodes (S-type: the immediate is in two fields). -/
def Store.decode (word : BitVec 32) : Option Store :=
  (StoreKind.decode (word.extractLsb' 0 7).toNat (word.extractLsb' 12 3).toNat).map fun kind =>
    { kind
      rs1 := word.extractLsb' 15 5
      rs2 := word.extractLsb' 20 5
      imm := word.extractLsb' 25 7 ++ word.extractLsb' 7 5 }

namespace Hart

/-- `rs1` plus the sign-extended immediate. -/
def storeAddr (hart : Hart) (store : Store) : Word :=
  hart.x.val store.rs1 + store.imm.signExtend 64

/-- The source register. -/
def storeData (hart : Hart) (store : Store) : Word :=
  if store.kind.float then hart.f store.rs2 else hart.x.val store.rs2

/-- The byte stores of a store instruction. -/
def storeWrites (hart : Hart) (store : Store) : List (Word × Byte) :=
  byteStores (hart.storeAddr store) (hart.storeData store) store.kind.width

/-- The effect of a store. -/
def store (hart : Hart) (store : Store) : Hart :=
  { hart with mem := storeBytes hart.mem (hart.storeWrites store), pc := hart.pc + 4 }

end Hart

end K210Guard.Rv64
