import Mathlib.Data.BitVec
import Mathlib.Algebra.Group.Pi.Basic
import Lacuna.Lib.Mem

/-!
# Sequences of 16-bit numbers in memory

`addShorts mem ptr s` adds `s j` to the number at `ptr + 2 * j`, for every `j`.
Additions from the same address add up (`addShorts_addShorts`), so that the order
in which they are made does not matter.
-/

namespace Lacuna.Lib

def short (lo hi : UInt8) : BitVec 16 := BitVec.ofNat 16 (lo.toNat + 256 * hi.toNat)

def loByte (v : BitVec 16) : UInt8 := UInt8.ofNat v.toNat

def hiByte (v : BitVec 16) : UInt8 := UInt8.ofNat (v.toNat / 256)

def shortAt (mem : Mem) (p : Nat) : BitVec 16 := short (mem p) (mem (p + 1))

def addShorts (mem : Mem) (ptr : Nat) (s : Nat → BitVec 16) : Mem := fun a =>
  if ptr ≤ a then
    let j := (a - ptr) / 2
    let v := shortAt mem (ptr + 2 * j) + s j
    if (a - ptr) % 2 = 0 then loByte v else hiByte v
  else mem a

section Bytes

variable (lo hi : UInt8)

theorem toNat_short : (short lo hi).toNat = lo.toNat + 256 * hi.toNat := by
  have hLo := lo.toNat_lt
  have hHi := hi.toNat_lt
  rw [short, BitVec.toNat_ofNat, Nat.mod_eq_of_lt (by omega)]

theorem loByte_short : loByte (short lo hi) = lo := by
  rw [loByte, toNat_short, ← UInt8.toNat_inj, UInt8.toNat_ofNat']
  have hLo := lo.toNat_lt
  omega

theorem hiByte_short : hiByte (short lo hi) = hi := by
  rw [hiByte, toNat_short, ← UInt8.toNat_inj, UInt8.toNat_ofNat']
  have hLo := lo.toNat_lt
  have hHi := hi.toNat_lt
  omega

theorem short_bytes (v : BitVec 16) : short (loByte v) (hiByte v) = v := by
  refine BitVec.eq_of_toNat_eq ?_
  rw [toNat_short, loByte, hiByte, UInt8.toNat_ofNat', UInt8.toNat_ofNat']
  have hLt := v.isLt
  omega

theorem short_ofNat (x : Nat) :
    short (UInt8.ofNat x) (UInt8.ofNat (x / 256)) = BitVec.ofNat 16 x := by
  refine BitVec.eq_of_toNat_eq ?_
  rw [toNat_short, UInt8.toNat_ofNat', UInt8.toNat_ofNat', BitVec.toNat_ofNat]
  omega

theorem shortAt_store (mem : Mem) (p : Nat) : shortAt (store mem p [lo, hi]) p = short lo hi := by
  have hLo : store mem p [lo, hi] p = lo := store_cons_self ..
  have hHi : store mem p [lo, hi] (p + 1) = hi := store_of_mem (show 1 < 2 by decide)
  rw [shortAt, hLo, hHi]

theorem shortAt_store_of_disjoint (mem : Mem) {p q : Nat} (h : q + 2 ≤ p ∨ p + 2 ≤ q) :
    shortAt (store mem p [lo, hi]) q = shortAt mem q := by
  rcases h with h | h
  · rw [shortAt, store_of_lt (by omega), store_of_lt (by omega), shortAt]
  · have hLen : p + [lo, hi].length ≤ q := h
    rw [shortAt, store_of_le hLen, store_of_le (by omega), shortAt]

end Bytes

section AddShorts

variable {mem mem' : Mem} {ptr j : Nat} {s t : Nat → BitVec 16}

variable {a : Nat}

theorem addShorts_lo (mem : Mem) (ptr j : Nat) (s : Nat → BitVec 16) :
    addShorts mem ptr s (ptr + 2 * j) = loByte (shortAt mem (ptr + 2 * j) + s j) := by
  have hDiv : (ptr + 2 * j - ptr) / 2 = j := by omega
  have hMod : (ptr + 2 * j - ptr) % 2 = 0 := by omega
  simp only [addShorts, hDiv, hMod, if_pos (Nat.le_add_right ptr (2 * j)), if_true]

theorem addShorts_hi (mem : Mem) (ptr j : Nat) (s : Nat → BitVec 16) :
    addShorts mem ptr s (ptr + 2 * j + 1) = hiByte (shortAt mem (ptr + 2 * j) + s j) := by
  have hDiv : (ptr + 2 * j + 1 - ptr) / 2 = j := by omega
  have hMod : ¬ (ptr + 2 * j + 1 - ptr) % 2 = 0 := by omega
  have hLe : ptr ≤ ptr + 2 * j + 1 := by omega
  simp only [addShorts, hDiv, if_neg hMod, if_pos hLe]

theorem addShorts_of_lt (h : a < ptr) : addShorts mem ptr s a = mem a :=
  if_neg (Nat.not_le.mpr h)

theorem byte_of_shortAt (hGe : ptr ≤ a)
    (h : shortAt mem (ptr + 2 * ((a - ptr) / 2)) = shortAt mem' (ptr + 2 * ((a - ptr) / 2))) :
    mem a = mem' a := by
  rcases Nat.mod_two_eq_zero_or_one (a - ptr) with hEven | hOdd
  · have hLo := congrArg loByte h
    rw [shortAt, shortAt, loByte_short, loByte_short] at hLo
    rwa [show ptr + 2 * ((a - ptr) / 2) = a by omega] at hLo
  · have hHi := congrArg hiByte h
    rw [shortAt, shortAt, hiByte_short, hiByte_short] at hHi
    rwa [show ptr + 2 * ((a - ptr) / 2) + 1 = a by omega] at hHi

theorem mem_ext_shorts (hLow : ∀ a < ptr, mem a = mem' a)
    (hShorts : ∀ j, shortAt mem (ptr + 2 * j) = shortAt mem' (ptr + 2 * j)) : mem = mem' := by
  funext a
  rcases Nat.lt_or_ge a ptr with hLt | hGe
  · exact hLow a hLt
  · exact byte_of_shortAt hGe (hShorts ((a - ptr) / 2))

theorem shortAt_addShorts (mem : Mem) (ptr j : Nat) (s : Nat → BitVec 16) :
    shortAt (addShorts mem ptr s) (ptr + 2 * j) = shortAt mem (ptr + 2 * j) + s j := by
  rw [shortAt, addShorts_lo, addShorts_hi, short_bytes]

theorem addShorts_zero (mem : Mem) (ptr : Nat) : addShorts mem ptr 0 = mem := by
  refine @mem_ext_shorts _ _ ptr (fun a ha => addShorts_of_lt ha) fun j => ?_
  rw [shortAt_addShorts, Pi.zero_apply, add_zero]

/-- **Additions add up.** -/
theorem addShorts_addShorts (mem : Mem) (ptr : Nat) (s t : Nat → BitVec 16) :
    addShorts (addShorts mem ptr s) ptr t = addShorts mem ptr (s + t) := by
  refine @mem_ext_shorts _ _ ptr (fun a ha => ?_) fun j => ?_
  · rw [addShorts_of_lt ha, addShorts_of_lt ha, addShorts_of_lt ha]
  · rw [shortAt_addShorts, shortAt_addShorts, shortAt_addShorts, Pi.add_apply, BitVec.add_assoc]

theorem addShorts_of_zero (h : s ((a - ptr) / 2) = 0) : addShorts mem ptr s a = mem a := by
  rcases Nat.lt_or_ge a ptr with hLt | hGe
  · exact addShorts_of_lt hLt
  · have hPair : shortAt (addShorts mem ptr s) (ptr + 2 * ((a - ptr) / 2)) =
        shortAt mem (ptr + 2 * ((a - ptr) / 2)) := by
      rw [shortAt_addShorts, h, add_zero]
    exact byte_of_shortAt hGe hPair

theorem addShorts_shift (mem : Mem) (ptr n : Nat) (s : Nat → BitVec 16) :
    addShorts mem (ptr + 2 * n) s = addShorts mem ptr fun j => if j < n then 0 else s (j - n) := by
  refine @mem_ext_shorts _ _ ptr (fun a ha => ?_) fun j => ?_
  · rw [addShorts_of_lt ha, addShorts_of_lt (by omega)]
  · rw [shortAt_addShorts]
    rcases Nat.lt_or_ge j n with hLt | hGe
    · rw [if_pos hLt, add_zero, shortAt, addShorts_of_lt (by omega), addShorts_of_lt (by omega)]
      rfl
    · rw [if_neg (Nat.not_lt.mpr hGe), show ptr + 2 * j = ptr + 2 * n + 2 * (j - n) by omega,
        shortAt_addShorts]

end AddShorts

end Lacuna.Lib
