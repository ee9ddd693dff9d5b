import Mathlib.Algebra.Group.Int.Defs
import Mathlib.Algebra.Group.Nat.Defs
import Mathlib.Data.List.Basic

/-!
# Byte-addressed memory

A memory is a function from addresses to bytes. `load` reads a range and
`store` writes one; a load through a store finds the bytes that were stored
(`load_store_self`) or does not see them (`load_store_of_disjoint`), and a store
of several parts is several stores (`store_append`). `sizeT` is the size that a
signed number becomes.
-/

namespace Lacuna.Lib

open List

abbrev Mem := Nat → UInt8

def load (mem : Mem) (base n : Nat) : List UInt8 := (List.range n).map fun j => mem (base + j)

def store (mem : Mem) (base : Nat) (bytes : List UInt8) : Mem :=
  fun a => if base ≤ a then (bytes[a - base]?).getD (mem a) else mem a

variable {mem mem' : Mem} {base n : Nat} {bytes : List UInt8}

@[simp] theorem length_load (mem : Mem) (base n : Nat) : (load mem base n).length = n := by
  rw [load, length_map, length_range]

theorem getElem?_load (mem : Mem) (base : Nat) {n i : Nat} (hi : i < n) :
    (load mem base n)[i]? = some (mem (base + i)) := by
  rw [load, List.getElem?_map, List.getElem?_range hi, Option.map_some]

@[simp] theorem load_zero (mem : Mem) (base : Nat) : load mem base 0 = [] := rfl

theorem load_congr (h : ∀ i < n, mem (base + i) = mem' (base + i)) :
    load mem base n = load mem' base n :=
  map_congr_left fun i hi => h i (List.mem_range.mp hi)

theorem load_add (mem : Mem) (base m n : Nat) :
    load mem base (m + n) = load mem base m ++ load mem (base + m) n := by
  simp only [load, range_add, map_append, map_map]
  congr 1
  exact map_congr_left fun i _ => by rw [Function.comp_apply, Nat.add_assoc]

theorem take_load (mem : Mem) (base : Nat) {m n : Nat} (h : m ≤ n) :
    (load mem base n).take m = load mem base m := by
  obtain ⟨k, rfl⟩ := Nat.exists_eq_add_of_le h
  rw [load_add, List.take_left' (length_load ..)]

theorem drop_load (mem : Mem) (base : Nat) {m n : Nat} (h : m ≤ n) :
    (load mem base n).drop m = load mem (base + m) (n - m) := by
  obtain ⟨k, rfl⟩ := Nat.exists_eq_add_of_le h
  rw [load_add, List.drop_left' (length_load ..), Nat.add_sub_cancel_left]

theorem store_of_lt {a : Nat} (h : a < base) : store mem base bytes a = mem a :=
  if_neg (Nat.not_le.mpr h)

theorem store_of_le {a : Nat} (h : base + bytes.length ≤ a) : store mem base bytes a = mem a := by
  rw [store, if_pos (by omega), List.getElem?_eq_none (by omega), Option.getD_none]

theorem store_of_mem {i : Nat} (h : i < bytes.length) :
    store mem base bytes (base + i) = bytes[i] := by
  rw [store, if_pos (Nat.le_add_right ..), Nat.add_sub_cancel_left, List.getElem?_eq_getElem h,
    Option.getD_some]

theorem store_cons_self (mem : Mem) (base : Nat) (b : UInt8) (bytes : List UInt8) :
    store mem base (b :: bytes) base = b := by
  have hLen : 0 < (b :: bytes).length := Nat.succ_pos _
  exact store_of_mem hLen

theorem store_singleton_of_ne {a : Nat} {b : UInt8} (h : a ≠ base) : store mem base [b] a = mem a := by
  rcases Nat.lt_or_gt_of_ne h with hLt | hGt
  · exact store_of_lt hLt
  · exact store_of_le hGt

@[simp] theorem store_nil (mem : Mem) (base : Nat) : store mem base [] = mem := by
  funext a
  by_cases h : base ≤ a
  · exact store_of_le h
  · exact store_of_lt (Nat.not_le.mp h)

theorem load_store_self (mem : Mem) (base : Nat) (bytes : List UInt8) :
    load (store mem base bytes) base bytes.length = bytes := by
  refine ext_getElem (length_load ..) fun i _ hi => ?_
  simp only [load, getElem_map, getElem_range]
  exact store_of_mem hi

theorem load_store_of_disjoint {a : Nat} (h : a + n ≤ base ∨ base + bytes.length ≤ a) :
    load (store mem base bytes) a n = load mem a n := by
  refine load_congr fun i hi => ?_
  rcases h with h | h
  · exact store_of_lt (by omega)
  · exact store_of_le (by omega)

theorem store_append (mem : Mem) (base : Nat) (xs ys : List UInt8) :
    store mem base (xs ++ ys) = store (store mem base xs) (base + xs.length) ys := by
  funext a
  by_cases hLow : a < base
  · rw [store_of_lt hLow, store_of_lt (by omega), store_of_lt hLow]
  obtain ⟨i, rfl⟩ := Nat.exists_eq_add_of_le (Nat.not_lt.mp hLow)
  by_cases hx : i < xs.length
  · have hBoth : i < (xs ++ ys).length := by rw [length_append]; omega
    rw [store_of_mem hBoth, getElem_append_left hx, store_of_lt (by omega), store_of_mem hx]
  by_cases hy : i < xs.length + ys.length
  · have hBoth : i < (xs ++ ys).length := by rwa [length_append]
    rw [store_of_mem hBoth, getElem_append_right (Nat.not_lt.mp hx),
      show base + i = base + xs.length + (i - xs.length) by omega,
      store_of_mem (by omega : i - xs.length < ys.length)]
  · rw [store_of_le (by rw [length_append]; omega), store_of_le (by omega), store_of_le (by omega)]

theorem store_store (mem : Mem) (base : Nat) {xs ys : List UInt8} (h : xs.length = ys.length) :
    store (store mem base xs) base ys = store mem base ys := by
  funext a
  by_cases hLow : a < base
  · rw [store_of_lt hLow, store_of_lt hLow, store_of_lt hLow]
  obtain ⟨i, rfl⟩ := Nat.exists_eq_add_of_le (Nat.not_lt.mp hLow)
  by_cases hi : i < ys.length
  · rw [store_of_mem hi, store_of_mem hi]
  · rw [store_of_le (by omega), store_of_le (by omega), store_of_le (by omega)]

theorem store_load (mem : Mem) (base n : Nat) : store mem base (load mem base n) = mem := by
  funext a
  by_cases hLow : a < base
  · exact store_of_lt hLow
  obtain ⟨i, rfl⟩ := Nat.exists_eq_add_of_le (Nat.not_lt.mp hLow)
  by_cases hi : i < n
  · rw [store_of_mem (by rwa [length_load])]
    simp only [load, getElem_map, getElem_range]
  · exact store_of_le (by rw [length_load]; omega)

def sizeT (x : Int) : Nat := (x % 2 ^ 64).toNat

theorem sizeT_of_nonneg {x : Int} (hPos : 0 ≤ x) (hLt : x < 2 ^ 64) : sizeT x = x.toNat := by
  rw [sizeT, Int.emod_eq_of_lt hPos hLt]

theorem sizeT_of_neg {x : Int} (hNeg : x < 0) (hLe : -2 ^ 63 ≤ x) : 2 ^ 63 ≤ sizeT x := by
  unfold sizeT
  omega

end Lacuna.Lib
