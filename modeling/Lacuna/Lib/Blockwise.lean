import Lacuna.Lib.Mem

/-!
# Buffers that are processed block by block

`blockwise w f i n xs` replaces `n` blocks of `w` elements, block `j` by `f j`;
the first has number `i`. `blockwiseMem` does so in memory, from one buffer to
another.

* `blockwise_add`, `blockwiseMem_add` — the work may be interrupted;
* `blockwise_leftInverse` — blocks that can be undone can be undone together;
* `blockwiseMem_eq_store` — in memory the result is that of the list, also in
  place.
-/

namespace Lacuna.Lib

open List

section Blockwise

variable {α : Type} (w : Nat) (f g : Nat → List α → List α)

variable {n : Nat} {xs : List α}

def blockwise : Nat → Nat → List α → List α
  | _, 0, _ => []
  | i, n + 1, xs => f i (xs.take w) ++ blockwise (i + 1) n (xs.drop w)

def KeepsBlocks : Prop := ∀ i xs, xs.length = w → (f i xs).length = w

variable {w f g}

theorem length_take_block (h : xs.length = (n + 1) * w) : (xs.take w).length = w := by
  refine length_take_of_le ?_
  rw [h]
  exact Nat.le_mul_of_pos_left w (Nat.succ_pos n)

theorem length_drop_block (h : xs.length = (n + 1) * w) : (xs.drop w).length = n * w := by
  rw [length_drop, h, Nat.succ_mul, Nat.add_sub_cancel]

theorem length_blockwise (hf : KeepsBlocks w f) (i : Nat)
    (h : xs.length = n * w) : (blockwise w f i n xs).length = n * w := by
  induction n generalizing i xs with
  | zero => rw [blockwise, Nat.zero_mul, length_nil]
  | succ n ih =>
    rw [blockwise, length_append, hf i _ (length_take_block h), ih (i + 1) (length_drop_block h),
      Nat.succ_mul, Nat.add_comm]

theorem blockwise_add (i m n : Nat) (xs : List α) : blockwise w f i (m + n) xs =
      blockwise w f i m (xs.take (m * w)) ++ blockwise w f (i + m) n (xs.drop (m * w)) := by
  induction m generalizing i xs with
  | zero => simp only [blockwise, Nat.zero_add, Nat.zero_mul, drop_zero, nil_append,
      Nat.add_zero]
  | succ m ih =>
    have hSize : (m + 1) * w = w + m * w := by rw [Nat.succ_mul, Nat.add_comm]
    have hTake : (xs.take ((m + 1) * w)).take w = xs.take w := by
      rw [take_take, hSize, Nat.min_eq_left (Nat.le_add_right w _)]
    have hDrop : (xs.take ((m + 1) * w)).drop w = (xs.drop w).take (m * w) := by
      rw [drop_take, hSize, Nat.add_sub_cancel_left]
    have hRest : (xs.drop w).drop (m * w) = xs.drop ((m + 1) * w) := by
      rw [drop_drop, hSize]
    rw [Nat.add_right_comm, blockwise, ih, blockwise, hTake, hDrop, hRest, append_assoc,
      Nat.add_right_comm, Nat.add_assoc i m 1]

theorem blockwise_slice (hf : KeepsBlocks w f) (i : Nat) {a m : Nat} (hIn : a + m ≤ n) (h : xs.length = n * w) :
    ((blockwise w f i n xs).drop (a * w)).take (m * w) =
      blockwise w f (i + a) m ((xs.drop (a * w)).take (m * w)) := by
  obtain ⟨k, rfl⟩ := Nat.exists_eq_add_of_le hIn
  have hFront : (xs.take (a * w)).length = a * w := by
    refine length_take_of_le ?_
    rw [h]
    exact Nat.mul_le_mul_right w (by omega)
  have hMid : ((xs.drop (a * w)).take (m * w)).length = m * w := by
    refine length_take_of_le ?_
    rw [length_drop, h, ← Nat.sub_mul]
    exact Nat.mul_le_mul_right w (by omega)
  rw [Nat.add_assoc a m k, blockwise_add, List.drop_left' (length_blockwise hf i hFront),
    blockwise_add, List.take_left' (length_blockwise hf _ hMid)]

theorem blockwise_leftInverse (hf : KeepsBlocks w f)
    (hInv : ∀ i xs, xs.length = w → g i (f i xs) = xs) (i : Nat)
    (h : xs.length = n * w) : blockwise w g i n (blockwise w f i n xs) = xs := by
  induction n generalizing i xs with
  | zero =>
    rw [Nat.zero_mul] at h
    rw [blockwise, List.length_eq_zero_iff.mp h]
  | succ n ih =>
    have hTake := length_take_block h
    have hFirst : (f i (xs.take w)).length = w := hf i _ hTake
    rw [blockwise, blockwise, List.take_left' hFirst, List.drop_left' hFirst, hInv i _ hTake,
      ih (i + 1) (length_drop_block h), take_append_drop]

end Blockwise

/-! ## In memory -/

section Memory

variable (w : Nat) (f : Nat → List UInt8 → List UInt8)

def blockwiseMem : Nat → Nat → Nat → Nat → Mem → Mem
  | _, 0, _, _, mem => mem
  | i, n + 1, dst, src, mem =>
    blockwiseMem (i + 1) n (dst + w) (src + w) (store mem dst (f i (load mem src w)))

variable {w f}

theorem blockwiseMem_add (i m n dst src : Nat) (mem : Mem) :
    blockwiseMem w f i (m + n) dst src mem =
      blockwiseMem w f (i + m) n (dst + m * w) (src + m * w) (blockwiseMem w f i m dst src mem) := by
  induction m generalizing i dst src mem with
  | zero => rw [blockwiseMem, Nat.zero_add, Nat.zero_mul, Nat.add_zero, Nat.add_zero, Nat.add_zero]
  | succ m ih =>
    have hSize : ∀ a, a + w + m * w = a + (m + 1) * w := by
      intro a
      rw [Nat.succ_mul, Nat.add_assoc, Nat.add_comm w]
    rw [Nat.add_right_comm, blockwiseMem, ih, blockwiseMem, hSize, hSize, Nat.add_assoc i 1 m,
      Nat.add_comm 1 m]

theorem blockwiseMem_eq_store (hf : KeepsBlocks w f) (i : Nat) {n dst src : Nat} (mem : Mem)
    (h : dst ≤ src ∨ src + n * w ≤ dst) :
    blockwiseMem w f i n dst src mem =
      store mem dst (blockwise w f i n (load mem src (n * w))) := by
  induction n generalizing i dst src mem with
  | zero => rw [blockwiseMem, blockwise, store_nil]
  | succ n ih =>
    have hSize : (n + 1) * w = w + n * w := by rw [Nat.succ_mul, Nat.add_comm]
    rw [hSize] at h
    have hLen : (f i (load mem src w)).length = w := hf i _ (length_load ..)
    have hUnread : load (store mem dst (f i (load mem src w))) (src + w) (n * w) =
        load mem (src + w) (n * w) := by
      refine load_store_of_disjoint ?_
      rw [hLen]
      omega
    rw [blockwiseMem, ih (i + 1) _ (by omega), hUnread, blockwise, hSize, take_load _ _ (by omega),
      drop_load _ _ (by omega), Nat.add_sub_cancel_left, store_append, hLen]

end Memory

end Lacuna.Lib
