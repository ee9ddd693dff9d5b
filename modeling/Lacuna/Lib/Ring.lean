import Mathlib.Data.Nat.ModEq
import Lacuna.Lib.Mem

/-!
# Ring buffers

A ring of `size` bytes in a memory, with a position to fetch from and one to
write to. `RingHolds` says which bytes are in it. Writing a range that does not
wrap appends to them (`RingHolds.push`), fetching takes from the front
(`RingHolds.pop`), and what has been fetched may be overwritten
(`RingHolds.store_front`). A ring is never full, so that the positions tell the
number of bytes in it (`RingHolds.length_eq`).
-/

namespace Lacuna.Lib

open List

def ringLoad (mem : Mem) (size start n : Nat) : List UInt8 :=
  (List.range n).map fun j => mem ((start + j) % size)

variable {mem : Mem} {size f w : Nat}

@[simp] theorem length_ringLoad (mem : Mem) (size start n : Nat) :
    (ringLoad mem size start n).length = n := by
  rw [ringLoad, length_map, length_range]

theorem ringLoad_congr {mem' : Mem} {start n : Nat}
    (h : ∀ j < n, mem ((start + j) % size) = mem' ((start + j) % size)) :
    ringLoad mem size start n = ringLoad mem' size start n :=
  map_congr_left fun j hj => h j (List.mem_range.mp hj)

theorem ringLoad_mod (mem : Mem) (size start n : Nat) :
    ringLoad mem size (start % size) n = ringLoad mem size start n :=
  map_congr_left fun j _ => by rw [Nat.mod_add_mod]

theorem ringLoad_add (mem : Mem) (size start m n : Nat) : ringLoad mem size start (m + n) =
      ringLoad mem size start m ++ ringLoad mem size (start + m) n := by
  simp only [ringLoad, range_add, map_append, map_map]
  congr 1
  exact map_congr_left fun j _ => by rw [Function.comp_apply, Nat.add_assoc]

theorem ringLoad_eq_load {start n : Nat} (h : start + n ≤ size) :
    ringLoad mem size start n = load mem start n :=
  map_congr_left fun j hj => by
    rw [Nat.mod_eq_of_lt (by have := List.mem_range.mp hj; omega)]

theorem ring_pos_ne {x i j : Nat} (hi : i < size) (hj : j < size) (hNe : i ≠ j) :
    (x + i) % size ≠ (x + j) % size := by
  intro hEq
  have hMod : i ≡ j [MOD size] := Nat.ModEq.add_left_cancel' x hEq
  exact hNe (hMod.eq_of_lt_of_lt hi hj)

theorem ringLoad_store_apart {x i m n : Nat} {bytes : List UInt8}
    (hIn : (x + i) % size + bytes.length ≤ size)
    (hApart : m + n ≤ i ∧ i + bytes.length ≤ size ∨ i + bytes.length ≤ m ∧ m + n ≤ size) :
    ringLoad (store mem ((x + i) % size) bytes) size (x + m) n = ringLoad mem size (x + m) n := by
  refine ringLoad_congr fun j hj => ?_
  by_cases hLow : (x + m + j) % size < (x + i) % size
  · exact store_of_lt hLow
  by_cases hHigh : (x + i) % size + bytes.length ≤ (x + m + j) % size
  · exact store_of_le hHigh
  · -- the position is the one of a byte stored, which is at another place of the window
    obtain ⟨k, hk⟩ := Nat.exists_eq_add_of_le (Nat.not_lt.mp hLow)
    have hkLen : k < bytes.length := by omega
    have hPos : (x + (i + k)) % size = (x + i) % size + k := by
      rw [← Nat.add_assoc, ← Nat.mod_add_mod, Nat.mod_eq_of_lt (by omega)]
    rw [Nat.add_assoc, ← hPos] at hk
    exact absurd hk (ring_pos_ne (by omega) (by omega) (by omega))

/-- The ring holds the bytes: it is fetched from at `f` and written to at `w`. -/
structure RingHolds (mem : Mem) (size f w : Nat) (q : List UInt8) : Prop where
  fetch_lt : f < size
  write_eq : w = (f + q.length) % size
  not_full : q.length < size
  held : ringLoad mem size f q.length = q

namespace RingHolds

variable {q : List UInt8}

theorem empty (mem : Mem) (h : f < size) : RingHolds mem size f f [] where
  fetch_lt := h
  write_eq := (Nat.mod_eq_of_lt h).symm
  not_full := Nat.zero_lt_of_lt h
  held := rfl

theorem write_lt (h : RingHolds mem size f w q) : w < size := by
  rw [h.write_eq]
  exact Nat.mod_lt _ (Nat.zero_lt_of_lt h.fetch_lt)

theorem length_eq (h : RingHolds mem size f w q) :
    q.length = if f ≤ w then w - f else size - f + w := by
  have hf := h.fetch_lt
  have hq := h.not_full
  have hw := h.write_eq
  by_cases hWrap : f + q.length < size
  · rw [Nat.mod_eq_of_lt hWrap] at hw
    rw [if_pos (by omega)]
    omega
  · have hMod : (f + q.length) % size = f + q.length - size := by
      rw [Nat.mod_eq_sub_mod (Nat.not_lt.mp hWrap), Nat.mod_eq_of_lt (by omega)]
    rw [hMod] at hw
    rw [if_neg (by omega)]
    omega

theorem push (h : RingHolds mem size f w q) {bytes : List UInt8} (hEnd : w + bytes.length ≤ size)
    (hFit : q.length + bytes.length < size) :
    RingHolds (store mem w bytes) size f ((w + bytes.length) % size) (q ++ bytes) where
  fetch_lt := h.fetch_lt
  write_eq := by rw [h.write_eq, Nat.mod_add_mod, length_append, Nat.add_assoc]
  not_full := by rwa [length_append]
  held := by
    have hw := h.write_eq
    have hOld : ringLoad (store mem w bytes) size f q.length = q := by
      have hApart := @ringLoad_store_apart mem size f q.length 0 q.length bytes
        (by rwa [← hw]) (.inl ⟨Nat.le_of_eq (Nat.zero_add _), Nat.le_of_lt hFit⟩)
      rw [← hw, Nat.add_zero] at hApart
      exact hApart.trans h.held
    have hNew : ringLoad (store mem w bytes) size (f + q.length) bytes.length = bytes := by
      rw [← ringLoad_mod, ← hw, ringLoad_eq_load hEnd, load_store_self]
    rw [length_append, ringLoad_add, hOld, hNew]

theorem pop (h : RingHolds mem size f w q) {m : Nat} (hm : m ≤ q.length) :
    RingHolds mem size ((f + m) % size) w (q.drop m) where
  fetch_lt := Nat.mod_lt _ (Nat.zero_lt_of_lt h.fetch_lt)
  write_eq := by
    rw [h.write_eq, Nat.mod_add_mod, length_drop, Nat.add_assoc, Nat.add_sub_cancel' hm]
  not_full := by
    rw [length_drop]
    exact Nat.lt_of_le_of_lt (Nat.sub_le _ _) h.not_full
  held := by
    have hSplit := h.held
    rw [← Nat.add_sub_cancel' hm, ringLoad_add] at hSplit
    rw [ringLoad_mod, length_drop]
    nth_rewrite 2 [← hSplit]
    exact (List.drop_left' (length_ringLoad ..)).symm

theorem load_front (h : RingHolds mem size f w q) {m : Nat} (hm : m ≤ q.length)
    (hEnd : f + m ≤ size) : load mem f m = q.take m := by
  have hSplit := h.held
  rw [← Nat.add_sub_cancel' hm, ringLoad_add, ringLoad_eq_load hEnd] at hSplit
  rw [← hSplit]
  exact (List.take_left' (length_load ..)).symm

theorem store_front (h : RingHolds mem size f w q) {bytes : List UInt8}
    (hEnd : f + bytes.length ≤ size) (hm : bytes.length ≤ q.length) :
    RingHolds (store mem f bytes) size ((f + bytes.length) % size) w (q.drop bytes.length) := by
  obtain ⟨hFetch, hWrite, hFull, hHeld⟩ := h.pop hm
  refine ⟨hFetch, hWrite, hFull, ?_⟩
  have hMod : (f + 0) % size = f := Nat.mod_eq_of_lt h.fetch_lt
  have hApart := @ringLoad_store_apart mem size f 0 bytes.length (q.drop bytes.length).length bytes
    (by rwa [hMod]) (.inr ⟨Nat.le_of_eq (Nat.zero_add _), by
      rw [length_drop, Nat.add_sub_cancel' hm]
      exact Nat.le_of_lt h.not_full⟩)
  rw [hMod] at hApart
  rw [ringLoad_mod] at hHeld ⊢
  exact hApart.trans hHeld

end RingHolds

end Lacuna.Lib
