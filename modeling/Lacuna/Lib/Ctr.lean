import Mathlib.Data.Nat.Basic
import Lacuna.Lib.Bytes

/-!
# Counter mode over byte strings

A block function turns each counter value into `w` bytes of keystream. A message
spends one counter value for each block it starts, so that the next one begins on
a fresh block (`ctrCrypt`). The keystream may also be one stream in which the next
message begins at the byte after the last (`streamCrypt`).

* `ctrCrypt_append` — a message may be processed in pieces of whole blocks;
* `take_ctrCrypt_append` — what follows in the last block does not matter;
* `ctrCrypt_ctrCrypt` — processing a message twice gives it back;
* `streamCrypt_mul` — at a block boundary the two are the same.
-/

namespace Lacuna.Lib

open List

/-- One block of `w` bytes for each `b`-bit counter value. -/
structure BlockStream (b w : Nat) where
  block : BitVec b → List UInt8
  length_block : ∀ ctr, (block ctr).length = w

variable {b w : Nat} (K : BlockStream b w)

def keystream : BitVec b → Nat → List UInt8
  | _, 0 => []
  | ctr, n + 1 => K.block ctr ++ keystream (ctr + 1) n

/-- The number of blocks a message of `len` bytes starts. -/
def blocksOf (w len : Nat) : Nat := (len + w - 1) / w

/-- Process one message: the result and the counter for the next message. -/
def ctrCrypt (ctr : BitVec b) (data : List UInt8) : List UInt8 × BitVec b :=
  (xorBytes data (keystream K ctr (blocksOf w data.length)),
    ctr + BitVec.ofNat b (blocksOf w data.length))

/-- The keystream of `ctr` from byte `pos` on: the result and the byte where the next data
begins. -/
def streamCrypt (ctr : BitVec b) (pos : Nat) (data : List UInt8) : List UInt8 × Nat :=
  (xorBytes data ((keystream K ctr (blocksOf w (pos + data.length))).drop pos),
    pos + data.length)

/-! ## Keystream -/

theorem length_keystream (ctr : BitVec b) (n : Nat) : (keystream K ctr n).length = n * w := by
  induction n generalizing ctr with
  | zero => simp [keystream]
  | succ n ih =>
    rw [keystream, length_append, K.length_block, ih, Nat.succ_mul]
    omega

theorem keystream_add (ctr : BitVec b) (m n : Nat) :
    keystream K ctr (m + n) = keystream K ctr m ++ keystream K (ctr + BitVec.ofNat b m) n := by
  induction m generalizing ctr with
  | zero => simp [keystream]
  | succ m ih =>
    have hCtr : ctr + BitVec.ofNat b (m + 1) = ctr + 1 + BitVec.ofNat b m := by
      rw [BitVec.ofNat_add, BitVec.add_assoc, BitVec.add_comm (BitVec.ofNat b m)]
      rfl
    rw [Nat.succ_add, keystream, ih, keystream, append_assoc, hCtr]

theorem keystream_eq_flatMap (ctr : BitVec b) (n : Nat) :
    keystream K ctr n = (range n).flatMap fun i => K.block (ctr + BitVec.ofNat b i) := by
  induction n with
  | zero => rfl
  | succ n ih =>
    rw [keystream_add, ih, range_succ, flatMap_append]
    simp [keystream]

/-! ## Counting blocks -/

theorem blocksOf_mul (hw : 0 < w) (n : Nat) : blocksOf w (n * w) = n := by
  rw [blocksOf, Nat.add_sub_assoc hw, Nat.mul_comm, Nat.mul_add_div hw,
    Nat.div_eq_of_lt (by omega), Nat.add_zero]

theorem blocksOf_mul_add (hw : 0 < w) (n len : Nat) :
    blocksOf w (n * w + len) = n + blocksOf w len := by
  rw [blocksOf, blocksOf, Nat.add_assoc, Nat.add_sub_assoc (by omega), Nat.mul_comm,
    Nat.mul_add_div hw]

theorem le_blocksOf_mul (hw : 0 < w) (len : Nat) : len ≤ blocksOf w len * w := by
  have hDiv := Nat.div_add_mod (len + w - 1) w
  have hMod := Nat.mod_lt (len + w - 1) hw
  rw [blocksOf, Nat.mul_comm]
  omega

theorem blocksOf_one (hw : 0 < w) {len : Nat} (hPos : 0 < len) (hLe : len ≤ w) :
    blocksOf w len = 1 := by
  rw [blocksOf, Nat.div_eq_iff hw]
  omega

/-! ## The mode -/

section Mode

variable {K} {ctr : BitVec b}

theorem length_ctrCrypt (hw : 0 < w) (data : List UInt8) :
    (ctrCrypt K ctr data).1.length = data.length := by
  rw [ctrCrypt, length_xorBytes, length_keystream]
  exact Nat.min_eq_left (le_blocksOf_mul hw _)

theorem ctrCrypt_nil (hw : 0 < w) : ctrCrypt K ctr [] = ([], ctr) := by
  have h0 : blocksOf w 0 = 0 := by
    rw [blocksOf, Nat.div_eq_of_lt (by omega)]
  simp [ctrCrypt, h0, xorBytes]

theorem ctrCrypt_append (hw : 0 < w) {front : List UInt8} (h : w ∣ front.length)
    (rest : List UInt8) :
    ctrCrypt K ctr (front ++ rest) =
      ((ctrCrypt K ctr front).1 ++ (ctrCrypt K (ctrCrypt K ctr front).2 rest).1,
        (ctrCrypt K (ctrCrypt K ctr front).2 rest).2) := by
  obtain ⟨n, hn⟩ := h
  rw [Nat.mul_comm] at hn
  have hFront : blocksOf w front.length = n := by rw [hn, blocksOf_mul hw]
  have hAll : blocksOf w (front ++ rest).length = n + blocksOf w rest.length := by
    rw [length_append, hn, blocksOf_mul_add hw]
  have hKey : front.length = (keystream K ctr n).length := by rw [hn, length_keystream]
  simp only [ctrCrypt, hFront, hAll, keystream_add, BitVec.ofNat_add, BitVec.add_assoc]
  rw [xorBytes_append hKey]

theorem ctrCrypt_take_drop (hw : 0 < w) {n : Nat} (h : w ∣ n) (data : List UInt8) :
    ctrCrypt K ctr data = ((ctrCrypt K ctr (data.take n)).1 ++
          (ctrCrypt K (ctrCrypt K ctr (data.take n)).2 (data.drop n)).1,
        (ctrCrypt K (ctrCrypt K ctr (data.take n)).2 (data.drop n)).2) := by
  by_cases hn : n ≤ data.length
  · have hFront : w ∣ (data.take n).length := by rwa [length_take_of_le hn]
    rw [← ctrCrypt_append hw hFront, take_append_drop]
  · have hEnd : data.length ≤ n := Nat.le_of_not_le hn
    rw [take_of_length_le hEnd, drop_of_length_le hEnd, ctrCrypt_nil hw, append_nil]

theorem take_ctrCrypt_append {data pad : List UInt8}
    (h : blocksOf w (data ++ pad).length = blocksOf w data.length) :
    (ctrCrypt K ctr (data ++ pad)).1.take data.length = (ctrCrypt K ctr data).1 ∧
      (ctrCrypt K ctr (data ++ pad)).2 = (ctrCrypt K ctr data).2 := by
  simp only [ctrCrypt, h, and_true]
  exact take_xorBytes_append data pad _

theorem ctrCrypt_ctrCrypt (hw : 0 < w) (data : List UInt8) :
    ctrCrypt K ctr (ctrCrypt K ctr data).1 = (data, (ctrCrypt K ctr data).2) := by
  have hLen : (ctrCrypt K ctr data).1.length = data.length := length_ctrCrypt hw data
  have hCover : data.length ≤ (keystream K ctr (blocksOf w data.length)).length := by
    rw [length_keystream]
    exact le_blocksOf_mul hw _
  simp only [ctrCrypt] at hLen ⊢
  rw [hLen, xorBytes_cancel hCover]

theorem ctrCrypt_const (hw : 0 < w) {k : UInt8} (hK : ∀ ctr, K.block ctr = replicate w k)
    (data : List UInt8) : (ctrCrypt K ctr data).1 = data.map (· ^^^ k) := by
  have hStream : ∀ ctr n, keystream K ctr n = replicate (n * w) k := by
    intro ctr n
    induction n generalizing ctr with
    | zero => rw [keystream, Nat.zero_mul, replicate_zero]
    | succ n ih => rw [keystream, hK, ih, replicate_append_replicate, Nat.succ_mul, Nat.add_comm]
  have hCover := le_blocksOf_mul hw data.length
  rw [ctrCrypt, hStream]
  refine ext_getElem ?_ fun i hi hi' => ?_
  · rw [length_xorBytes, length_replicate, length_map, Nat.min_eq_left hCover]
  · simp [xorBytes]

theorem streamCrypt_mul (hw : 0 < w) (n : Nat) (data : List UInt8) :
    streamCrypt K ctr (n * w) data =
      ((ctrCrypt K (ctr + BitVec.ofNat b n) data).1, n * w + data.length) := by
  rw [streamCrypt, blocksOf_mul_add hw, keystream_add,
    List.drop_left' (length_keystream K ctr n), ctrCrypt]

end Mode

theorem add_leftover (hw : 0 < w) {len : Nat} (h : len % w ≠ 0) :
    len + (w - len % w) = blocksOf w len * w := by
  have hMod := Nat.mod_lt len hw
  have hDiv := Nat.div_add_mod len w
  have hBlocks : blocksOf w len = len / w + 1 := by
    nth_rewrite 1 [← hDiv]
    rw [Nat.mul_comm, blocksOf_mul_add hw, blocksOf_one hw (Nat.pos_of_ne_zero h)
      (Nat.le_of_lt hMod)]
  rw [hBlocks, Nat.succ_mul, Nat.mul_comm]
  omega

end Lacuna.Lib
