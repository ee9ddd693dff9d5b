import Mathlib.Algebra.Ring.Nat
import Mathlib.Data.List.Basic

/-!
# Byte strings

Bytewise exclusive or, bytes of one string that show in another (`Shows`), and
fixed-width numbers: `leBytes k n` is the low `k`
bytes of `n`, low byte first, and `ofLeBytes` reads such a string back;
`beBytes` and `ofBeBytes` are the same with the high byte first.
-/

namespace Lacuna.Lib

open List

variable {a b data : List UInt8} {w n : Nat} {f : Nat → List UInt8}

/-! ## Bytewise exclusive or -/

def xorBytes (a b : List UInt8) : List UInt8 := List.zipWith (· ^^^ ·) a b

@[simp] theorem length_xorBytes (a b : List UInt8) :
    (xorBytes a b).length = min a.length b.length := by
  simp [xorBytes]

theorem xor_cancel_right (x y : UInt8) : x ^^^ y ^^^ y = x := by
  rw [UInt8.xor_assoc, UInt8.xor_self, UInt8.xor_zero]

theorem xorBytes_append {k : List UInt8} (h : a.length = k.length) (b l : List UInt8) :
    xorBytes (a ++ b) (k ++ l) = xorBytes a k ++ xorBytes b l :=
  zipWith_append h

theorem take_xorBytes_append (a b k : List UInt8) :
    (xorBytes (a ++ b) k).take a.length = xorBytes a k := by
  induction a generalizing k with
  | nil => simp [xorBytes]
  | cons x a ih =>
    cases k with
    | nil => simp [xorBytes]
    | cons y k =>
      have hTail := ih k
      simp only [xorBytes] at hTail
      simp only [xorBytes, cons_append, zipWith_cons_cons, length_cons, take_succ_cons, hTail]

theorem xorBytes_cancel (h : a.length ≤ b.length) : xorBytes (xorBytes a b) b = a := by
  induction a generalizing b with
  | nil => simp [xorBytes]
  | cons x a ih =>
    cases b with
    | nil => simp at h
    | cons y b =>
      have hTail := ih (b := b) (by simpa using h)
      simp only [xorBytes] at hTail
      simp only [xorBytes, zipWith_cons_cons, xor_cancel_right, hTail]

theorem xorBytes_comm (a b : List UInt8) : xorBytes a b = xorBytes b a := by
  rw [xorBytes, zipWith_comm]
  congr 1
  funext x y
  exact UInt8.xor_comm _ _

theorem xorBytes_right_inj {c : List UInt8} (hb : b.length = a.length)
    (hc : c.length = a.length) (h : xorBytes a b = xorBytes a c) : b = c := by
  rw [← xorBytes_cancel (Nat.le_of_eq hb), xorBytes_comm b a, h, xorBytes_comm a c,
    xorBytes_cancel (Nat.le_of_eq hc)]

/-! ## Bytes that show -/

/-- Some byte of `data` stands at its place in `out`. -/
def Shows (data out : List UInt8) : Prop := ∃ i < data.length, out[i]? = data[i]?

theorem shows_self (h : data ≠ []) : Shows data data :=
  ⟨0, List.length_pos_iff.mpr h, rfl⟩

theorem Shows.append_left {out front front' : List UInt8} (h : Shows data out)
    (hLen : front'.length = front.length) : Shows (front ++ data) (front' ++ out) := by
  obtain ⟨i, hi, hEq⟩ := h
  refine ⟨front.length + i, by rw [length_append]; omega, ?_⟩
  rw [List.getElem?_append_right (by omega), List.getElem?_append_right (by omega), hLen,
    Nat.add_sub_cancel_left]
  exact hEq

theorem not_shows_map_xor (data : List UInt8) : ¬ Shows data (data.map (· ^^^ 0xff)) := by
  rintro ⟨i, hi, hEq⟩
  have hFlip : ∀ x : UInt8, x ^^^ 0xff ≠ x := by
    intro x hx
    rw [← UInt8.xor_right_inj x, ← UInt8.xor_assoc, UInt8.xor_self, UInt8.zero_xor] at hx
    cases hx
  rw [List.getElem?_map, List.getElem?_eq_getElem hi] at hEq
  exact hFlip _ (Option.some.inj hEq)

theorem length_flatMap_range (hf : ∀ i, (f i).length = w)
    (n : Nat) : ((range n).flatMap f).length = n * w := by
  induction n with
  | zero => simp
  | succ n ih =>
    rw [range_succ, flatMap_append, length_append, ih, Nat.succ_mul]
    simp [hf]

theorem flatMap_xorBytes (hf : ∀ i, (f i).length = w) (hData : data.length = n * w) :
    ((range n).flatMap fun i => xorBytes (f i) ((data.drop (w * i)).take w)) =
      xorBytes ((range n).flatMap f) data := by
  induction n generalizing data with
  | zero =>
    rw [Nat.zero_mul] at hData
    simp [List.length_eq_zero_iff.mp hData, xorBytes]
  | succ n ih =>
    rw [Nat.succ_mul] at hData
    have hFront : (data.take (n * w)).length = n * w := by
      rw [length_take]
      omega
    have hBlock : ∀ i < n, (data.drop (w * i)).take w = ((data.take (n * w)).drop (w * i)).take w := by
      intro i hi
      have hEnd : w * i + w ≤ n * w := by
        rw [Nat.mul_comm n w, ← Nat.mul_succ]
        exact Nat.mul_le_mul_left w hi
      rw [drop_take, take_take, Nat.min_eq_left (by omega)]
    have hInit : ((range n).flatMap fun i => xorBytes (f i) ((data.drop (w * i)).take w)) =
        xorBytes ((range n).flatMap f) (data.take (n * w)) := by
      rw [← ih hFront]
      refine flatMap_congr fun i hi => ?_
      rw [hBlock i (List.mem_range.mp hi)]
    have hLast : (data.drop (w * n)).take w = data.drop (n * w) := by
      rw [Nat.mul_comm w n, take_of_length_le]
      rw [length_drop]
      omega
    rw [range_succ, flatMap_append, flatMap_append, hInit]
    nth_rewrite 3 [← take_append_drop (n * w) data]
    rw [xorBytes_append (by rw [length_flatMap_range hf, hFront])]
    simp [hLast]

theorem flatMap_range_inj {g : Nat → List UInt8} (hf : ∀ i, (f i).length = w)
    (hg : ∀ i, (g i).length = w) :
    (range n).flatMap f = (range n).flatMap g ↔ ∀ i < n, f i = g i := by
  constructor
  · intro h
    induction n with
    | zero => exact fun i hi => absurd hi (Nat.not_lt_zero i)
    | succ n ih =>
      rw [range_succ, flatMap_append, flatMap_append] at h
      obtain ⟨hInit, hLast⟩ := append_inj h
        (by rw [length_flatMap_range hf, length_flatMap_range hg])
      intro i hi
      rcases Nat.lt_succ_iff_lt_or_eq.mp hi with hlt | rfl
      · exact ih hInit i hlt
      · simpa using hLast
  · intro h
    exact flatMap_congr fun i hi => h i (List.mem_range.mp hi)

/-! ## Fixed-width numbers -/

def leBytes : Nat → Nat → List UInt8
  | 0, _ => []
  | k + 1, n => UInt8.ofNat n :: leBytes k (n / 256)

def ofLeBytes : List UInt8 → Nat
  | [] => 0
  | b :: bs => b.toNat + 256 * ofLeBytes bs

@[simp] theorem length_leBytes (k n : Nat) : (leBytes k n).length = k := by
  induction k generalizing n with
  | zero => rfl
  | succ k ih => simp [leBytes, ih]

theorem ofLeBytes_lt (bs : List UInt8) : ofLeBytes bs < 256 ^ bs.length := by
  induction bs with
  | nil => exact Nat.one_pos
  | cons b bs ih =>
    have hb : b.toNat < 256 := b.toNat_lt
    rw [ofLeBytes, length_cons, Nat.pow_succ']
    omega

theorem ofLeBytes_leBytes (k n : Nat) : ofLeBytes (leBytes k n) = n % 256 ^ k := by
  induction k generalizing n with
  | zero => simp [leBytes, ofLeBytes, Nat.mod_one]
  | succ k ih =>
    rw [leBytes, ofLeBytes, ih, UInt8.toNat_ofNat', Nat.pow_succ 256, Nat.mul_comm (256 ^ k),
      Nat.mod_mul]

theorem leBytes_inj {k m : Nat} (hm : m < 256 ^ k) (hn : n < 256 ^ k)
    (h : leBytes k m = leBytes k n) : m = n := by
  have := congrArg ofLeBytes h
  rwa [ofLeBytes_leBytes, ofLeBytes_leBytes, Nat.mod_eq_of_lt hm, Nat.mod_eq_of_lt hn] at this

theorem ofLeBytes_inj (hLen : a.length = b.length) (h : ofLeBytes a = ofLeBytes b) : a = b := by
  induction a generalizing b with
  | nil => exact (List.length_eq_zero_iff.mp hLen.symm).symm
  | cons x a ih =>
    cases b with
    | nil => cases hLen
    | cons y b =>
      have hx : x.toNat < 256 := x.toNat_lt
      have hy : y.toNat < 256 := y.toNat_lt
      simp only [ofLeBytes] at h
      rw [UInt8.toNat_inj.mp (show x.toNat = y.toNat by omega), ih (Nat.succ.inj hLen) (by omega)]

def beBytes (k n : Nat) : List UInt8 := (leBytes k n).reverse

def ofBeBytes (bs : List UInt8) : Nat := ofLeBytes bs.reverse

@[simp] theorem length_beBytes (k n : Nat) : (beBytes k n).length = k := by
  simp [beBytes]

theorem ofBeBytes_beBytes (k n : Nat) : ofBeBytes (beBytes k n) = n % 256 ^ k := by
  rw [ofBeBytes, beBytes, reverse_reverse, ofLeBytes_leBytes]

/-! ## Words in a buffer -/

/-- The `k` bytes at `pos` of a buffer, as a number, high byte first. -/
def beAt (k : Nat) (buf : List UInt8) (pos : Nat) : Nat := ofBeBytes ((buf.drop pos).take k)

theorem eq_of_beAt {k : Nat} (ha : a.length = k * n) (hb : b.length = k * n)
    (h : ∀ i < n, beAt k a (k * i) = beAt k b (k * i)) : a = b := by
  induction n generalizing a b with
  | zero => rw [List.length_eq_zero_iff.mp ha, List.length_eq_zero_iff.mp hb]
  | succ n ih =>
    have hTake : a.take k = b.take k := by
      refine reverse_injective (ofLeBytes_inj ?_ (h 0 (Nat.succ_pos n)))
      simp only [length_reverse, length_take, ha, hb]
    have hDrop : a.drop k = b.drop k := by
      refine ih ?_ ?_ fun i hi => ?_
      · rw [length_drop, ha, Nat.mul_succ, Nat.add_sub_cancel]
      · rw [length_drop, hb, Nat.mul_succ, Nat.add_sub_cancel]
      · have hNext := h (i + 1) (Nat.succ_lt_succ hi)
        rwa [Nat.mul_succ, Nat.add_comm, beAt, beAt, ← drop_drop, ← drop_drop] at hNext
    rw [← take_append_drop k a, hTake, hDrop, take_append_drop]

def storeAt (buf : List UInt8) (pos : Nat) (bytes : List UInt8) : List UInt8 :=
  buf.take pos ++ bytes ++ buf.drop (pos + bytes.length)

end Lacuna.Lib
