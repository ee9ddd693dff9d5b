import Mathlib.Algebra.Order.Group.Nat
import Lacuna.Lib.Bytes

/-!
# Counters of the encrypted display

`plus` of `gpu/aes/aes_cpu.cpp` and `gpu_bigint_plus` of `gpu/aes/aes.cu`, which
are the same code: a number is added to a 128-bit counter, given by its bytes in
big-endian order, in portions of at most `MAXVAL`. A carry out of the first byte is
not dropped but added together with the next portion. When the counter wraps
before the last portion, the result is therefore one too large
(`ofBeBytes_bigintPlus`), and otherwise it is the sum (`bigintPlus_eq_iff`).
-/

namespace Lacuna.Display

open Lacuna.Lib List

variable {vs : List UInt8} {tmpY j : Nat}

def MAXVAL : Nat := 0xFF

abbrev Bigint := { v : List UInt8 // v.length = 16 }

def Bigint.toNat (x : Bigint) : Nat := ofBeBytes x.val

def uchar (z : Int) : UInt8 := UInt8.ofNat (z % 256).toNat

/-- The inner loop, on the bytes `v[i]`, …, `v[0]`: the bytes and `carry`
afterwards. -/
def carryLoop : List UInt8 → Nat → Nat → List UInt8 × Nat
  | [], _, carry => ([], carry)
  | v :: vs, tmpY, carry =>
    if MAXVAL ≠ v.toNat ∧ (tmpY : Int) ≤ (MAXVAL : Int) - carry - v.toNat then
      (uchar (v.toNat + tmpY + carry) :: vs, 0)
    else
      let r := carryLoop vs 0 1
      (uchar (tmpY - ((MAXVAL : Int) + 1 - v.toNat - carry)) :: r.1, r.2)

/-- The outer loop, on the bytes `v[15]`, …, `v[0]`. -/
def plusLoop (vs : List UInt8) (carry j : Nat) : List UInt8 :=
  if j = 0 then vs
  else
    let tmpY := if MAXVAL < j then MAXVAL else j
    let r := carryLoop vs tmpY carry
    plusLoop r.1 r.2 (j - MAXVAL)
  termination_by j
  decreasing_by
    simp only [MAXVAL]
    omega

theorem length_carryLoop (vs : List UInt8) (tmpY carry : Nat) :
    (carryLoop vs tmpY carry).1.length = vs.length := by
  induction vs generalizing tmpY carry with
  | nil => rfl
  | cons v vs ih =>
    rw [carryLoop]
    split
    · rfl
    · rw [length_cons, ih, length_cons]

theorem length_plusLoop (vs : List UInt8) (carry j : Nat) :
    (plusLoop vs carry j).length = vs.length := by
  induction j using Nat.strong_induction_on generalizing vs carry with
  | _ j ih =>
  rw [plusLoop]
  split
  · rfl
  · rw [ih _ (by simp only [MAXVAL]; omega), length_carryLoop]

/-- The body of both functions. `j` is an `int`: for a negative one the loop is not entered. -/
def bigintPlus (x : Bigint) (y : UInt32) : Bigint where
  val := (plusLoop x.val.reverse 0 (if y.toNat < 2 ^ 31 then y.toNat else 0)).reverse
  property := by rw [List.length_reverse, length_plusLoop, List.length_reverse, x.property]

def plus (x : Bigint) (y : UInt32) : Bigint := bigintPlus x y

def gpuBigintPlus (x : Bigint) (y : UInt32) : Bigint := bigintPlus x y

/-! ## One portion -/

theorem toNat_uchar {z : Int} {k : Nat} (hz : z = k) (hk : k < 256) : (uchar z).toNat = k := by
  have hMod : ((k : Int) % 256).toNat = k := by omega
  rw [uchar, hz, hMod, UInt8.toNat_ofNat']
  exact Nat.mod_eq_of_lt hk

theorem carryLoop_room {v : UInt8} {carry : Nat} (hPos : 0 < tmpY + carry)
    (h : v.toNat + tmpY + carry < 256) :
    carryLoop (v :: vs) tmpY carry = (uchar (v.toNat + tmpY + carry) :: vs, 0) := by
  rw [carryLoop, if_pos]
  simp only [MAXVAL]
  omega

theorem carryLoop_full {v : UInt8} {carry : Nat} (h : 256 ≤ v.toNat + tmpY + carry) :
    carryLoop (v :: vs) tmpY carry =
      (uchar (tmpY - (255 + 1 - v.toNat - carry)) :: (carryLoop vs 0 1).1,
        (carryLoop vs 0 1).2) := by
  rw [carryLoop, if_neg]
  · rfl
  · simp only [MAXVAL]
    omega

/-- **One turn** of the outer loop adds the portion and the carry. -/
theorem carryLoop_spec (vs : List UInt8) {carry : Nat} (hY : tmpY ≤ 255) (hCarry : carry ≤ 1)
    (hPos : 0 < tmpY + carry) (hNil : vs = [] → tmpY = 0) :
    (carryLoop vs tmpY carry).2 ≤ 1 ∧
      ofLeBytes (carryLoop vs tmpY carry).1 + 256 ^ vs.length * (carryLoop vs tmpY carry).2 =
        ofLeBytes vs + tmpY + carry := by
  induction vs generalizing tmpY carry with
  | nil =>
    obtain rfl := hNil rfl
    refine ⟨hCarry, ?_⟩
    simp only [carryLoop, ofLeBytes, length_nil, Nat.pow_zero]
    omega
  | cons v vs ih =>
    have hv : v.toNat < 256 := v.toNat_lt
    by_cases hRoom : v.toNat + tmpY + carry < 256
    · have hByte : (uchar (v.toNat + tmpY + carry)).toNat = v.toNat + tmpY + carry :=
        toNat_uchar (by omega) hRoom
      rw [carryLoop_room hPos hRoom]
      refine ⟨Nat.zero_le _, ?_⟩
      simp only [ofLeBytes, hByte]
      omega
    · have hFull := Nat.not_lt.mp hRoom
      have hByte : (uchar (tmpY - (255 + 1 - v.toNat - carry))).toNat =
          v.toNat + tmpY + carry - 256 := toNat_uchar (by omega) (by omega)
      obtain ⟨hLe, hRest⟩ := ih (Nat.zero_le _) (Nat.le_refl 1) (by omega) (fun _ => rfl)
      rw [carryLoop_full hFull]
      refine ⟨hLe, ?_⟩
      simp only [ofLeBytes, hByte, length_cons, Nat.pow_succ', Nat.mul_assoc]
      omega

/-! ## All portions -/

/-- The carry that is added twice: `x` wraps with a portion that is not the last. -/
def excess (B x j : Nat) : Nat :=
  if 0 < (j - 1) / 255 ∧ B ≤ x + 255 * ((j - 1) / 255) then 1 else 0

theorem plusLoop_of_le {carry : Nat} (hPos : 0 < j) (hj : j ≤ 255) :
    plusLoop vs carry j = (carryLoop vs j carry).1 := by
  rw [plusLoop, if_neg hPos.ne']
  dsimp only
  rw [if_neg (show ¬ MAXVAL < j from Nat.not_lt.mpr hj), plusLoop,
    if_pos (show j - MAXVAL = 0 from Nat.sub_eq_zero_of_le hj)]

theorem plusLoop_of_gt {carry : Nat} (hj : 255 < j) : plusLoop vs carry j =
      plusLoop (carryLoop vs 255 carry).1 (carryLoop vs 255 carry).2 (j - 255) := by
  rw [plusLoop, if_neg (by omega)]
  dsimp only
  rw [if_pos (show MAXVAL < j from hj), show MAXVAL = 255 from rfl]

theorem plusLoop_last (hNe : vs ≠ []) {carry : Nat} (hCarry : carry ≤ 1)
    (hPos : 0 < j) (hj : j ≤ 255) :
    ofLeBytes (plusLoop vs carry j) = (ofLeBytes vs + carry + j) % 256 ^ vs.length := by
  obtain ⟨hLe, hSum⟩ := carryLoop_spec vs hj hCarry (by omega) (fun h => absurd h hNe)
  have hLt := ofLeBytes_lt (carryLoop vs j carry).1
  rw [length_carryLoop] at hLt
  rw [plusLoop_of_le hPos hj, show ofLeBytes vs + carry + j = ofLeBytes vs + j + carry by omega,
    ← hSum, Nat.add_mul_mod_self_left, Nat.mod_eq_of_lt hLt]

/-- **The loop** adds `j` and the carry, and one more if the counter wraps early. -/
theorem plusLoop_spec {vs : List UInt8} (hNe : vs ≠ []) {carry j : Nat} (hCarry : carry ≤ 1)
    (hPos : 0 < j) (hBound : ofLeBytes vs + carry + j + 1 < 2 * 256 ^ vs.length) :
    ofLeBytes (plusLoop vs carry j) =
      (ofLeBytes vs + carry + j + excess (256 ^ vs.length) (ofLeBytes vs + carry) j) %
        256 ^ vs.length := by
  induction j using Nat.strong_induction_on generalizing vs carry with
  | _ j ih =>
  by_cases hLast : j ≤ 255
  · have hNone : excess (256 ^ vs.length) (ofLeBytes vs + carry) j = 0 := by
      rw [excess, if_neg (by omega)]
    rw [plusLoop_last hNe hCarry hPos hLast, hNone, Nat.add_zero]
  -- a portion of 255, and the rest from what it leaves
  obtain ⟨hLe, hSum⟩ := carryLoop_spec vs (Nat.le_refl 255) hCarry (by omega)
    (fun h => absurd h hNe)
  have hLen := length_carryLoop vs 255 carry
  have hNe' : (carryLoop vs 255 carry).1 ≠ [] := by
    rw [← length_pos_iff, hLen]
    exact List.length_pos_iff.mpr hNe
  have hLt := ofLeBytes_lt (carryLoop vs 255 carry).1
  rw [plusLoop_of_gt (Nat.not_le.mp hLast)]
  have hRest := ih (j - 255) (by omega) hNe' hLe (by omega)
  rw [hLen] at hRest hLt
  generalize (carryLoop vs 255 carry).2 = carry' at *
  generalize ofLeBytes (carryLoop vs 255 carry).1 = x' at *
  generalize 256 ^ vs.length = B at *
  generalize ofLeBytes vs = x at *
  have hQuot : (j - 1) / 255 = (j - 255 - 1) / 255 + 1 := by omega
  rcases Nat.le_one_iff_eq_zero_or_eq_one.mp hLe with rfl | rfl
  · -- no wrap with this portion
    have hSame : excess B (x' + 0) (j - 255) = excess B (x + carry) j := by
      unfold excess
      split_ifs <;> omega
    rw [hRest (by omega), hSame, show x' + 0 + (j - 255) = x + carry + j by omega]
  · -- a wrap, and no other one
    rw [hRest (by omega)]
    have hOnce : excess B (x' + 1) (j - 255) = 0 := by
      rw [excess, if_neg (by omega)]
    have hTwice : excess B (x + carry) j = 1 := by
      rw [excess, if_pos (by omega)]
    rw [hOnce, hTwice, show x + carry + j + 1 = x' + 1 + (j - 255) + 0 + B by omega,
      Nat.add_mod_right]

/-- **The sum**, one too large if the counter wraps before the last portion. -/
theorem toNat_bigintPlus (x : Bigint) {y : UInt32} (hPos : 0 < y.toNat) (hy : y.toNat < 2 ^ 31) :
    (bigintPlus x y).toNat = (x.toNat + y.toNat + excess (2 ^ 128) x.toNat y.toNat) % 2 ^ 128 := by
  have hLen : x.val.reverse.length = 16 := by rw [length_reverse, x.property]
  have hNe : x.val.reverse ≠ [] := ne_nil_of_length_pos (by omega)
  have hLt := ofLeBytes_lt x.val.reverse
  rw [hLen, show (256 : Nat) ^ 16 = 2 ^ 128 by decide] at hLt
  have hLoop := @plusLoop_spec _ hNe 0 y.toNat (Nat.zero_le _) hPos
  rw [hLen, show (256 : Nat) ^ 16 = 2 ^ 128 by decide] at hLoop
  have hVal : (bigintPlus x y).toNat = ofLeBytes (plusLoop x.val.reverse 0 y.toNat) := by
    simp only [Bigint.toNat, bigintPlus, ofBeBytes, if_pos hy, reverse_reverse]
  rw [hVal]
  exact hLoop (by omega)

theorem bigintPlus_zero (x : Bigint) : bigintPlus x 0 = x := by
  refine Subtype.ext ?_
  show (plusLoop x.val.reverse 0 0).reverse = x.val
  rw [plusLoop, if_pos rfl, reverse_reverse]

theorem Bigint.toNat_lt (x : Bigint) : x.toNat < 2 ^ 128 := by
  have hLt := ofLeBytes_lt x.val.reverse
  rwa [length_reverse, x.property, show (256 : Nat) ^ 16 = 2 ^ 128 by decide] at hLt

theorem excess_eq_zero_iff {B x : Nat} (hx : x < B) :
    excess B x j = 0 ↔ x + 255 * ((j - 1) / 255) < B := by
  unfold excess
  split_ifs with h
  · exact ⟨False.elim, fun hLt => absurd h.2 (Nat.not_le.mpr hLt)⟩
  · simp only [true_iff]
    by_cases hPos : 0 < (j - 1) / 255
    · exact Nat.not_le.mp fun hLe => h ⟨hPos, hLe⟩
    · omega

/-- **When the sum is right.** -/
theorem bigintPlus_eq_iff (x : Bigint) {y : UInt32} (hy : y.toNat < 2 ^ 31) :
    (bigintPlus x y).toNat = (x.toNat + y.toNat) % 2 ^ 128 ↔
      x.toNat + 255 * ((y.toNat - 1) / 255) < 2 ^ 128 := by
  have hx := x.toNat_lt
  rw [← excess_eq_zero_iff hx]
  rcases Nat.eq_zero_or_pos y.toNat with hZero | hPos
  · obtain rfl : y = 0 := UInt32.toNat_inj.mp hZero
    rw [bigintPlus_zero]
    simp only [UInt32.toNat_zero, Nat.add_zero, Nat.mod_eq_of_lt hx, true_iff]
    rfl
  · rw [toNat_bigintPlus x hPos hy]
    constructor
    · intro h
      unfold excess at h ⊢
      split_ifs at h ⊢
      · omega
      · rfl
    · intro h
      rw [h, Nat.add_zero]

theorem Bigint.val_eq_beBytes_iff (x : Bigint) {n : Nat} (hn : n < 2 ^ 128) :
    x.val = beBytes 16 n ↔ x.toNat = n := by
  have hWidth : (256 : Nat) ^ 16 = 2 ^ 128 := by decide
  constructor
  · intro h
    rw [Bigint.toNat, h, ofBeBytes_beBytes, hWidth, Nat.mod_eq_of_lt hn]
  · intro h
    refine reverse_injective (ofLeBytes_inj ?_ ?_)
    · rw [length_reverse, length_reverse, x.property, length_beBytes]
    · show ofBeBytes x.val = ofBeBytes (beBytes 16 n)
      rw [ofBeBytes_beBytes, hWidth, Nat.mod_eq_of_lt hn]
      exact h

theorem bigintPlus_negative (x : Bigint) {y : UInt32} (hy : 2 ^ 31 ≤ y.toNat) :
    bigintPlus x y = x := by
  refine Subtype.ext ?_
  show (plusLoop x.val.reverse 0 (if y.toNat < 2 ^ 31 then y.toNat else 0)).reverse = x.val
  rw [if_neg (Nat.not_lt.mpr hy), plusLoop, if_pos rfl, reverse_reverse]

/-- **Both functions return the sum modulo 2^128** exactly if the number is not negative as an
`int`, and the counter does not wrap before the last portion. -/
theorem plus_eq_sum_iff (x : Bigint) (y : UInt32) :
    ((plus x y).val = beBytes 16 ((x.toNat + y.toNat) % 2 ^ 128) ∧
      (gpuBigintPlus x y).val = beBytes 16 ((x.toNat + y.toNat) % 2 ^ 128)) ↔
      y.toNat < 2 ^ 31 ∧ x.toNat + 255 * ((y.toNat - 1) / 255) < 2 ^ 128 := by
  have hMod : (x.toNat + y.toNat) % 2 ^ 128 < 2 ^ 128 := Nat.mod_lt _ (by decide)
  rw [plus, gpuBigintPlus, and_self_iff, Bigint.val_eq_beBytes_iff _ hMod]
  by_cases hy : y.toNat < 2 ^ 31
  · rw [bigintPlus_eq_iff x hy]
    exact ⟨fun h => ⟨hy, h⟩, And.right⟩
  · -- the sum is not the counter itself
    rw [bigintPlus_negative x (Nat.not_lt.mp hy)]
    have hx := x.toNat_lt
    have hLt : y.toNat < 2 ^ 32 := y.toNat_lt
    exact ⟨fun h => by omega, fun h => absurd h.1 hy⟩

def lastIv : Bigint := ⟨List.replicate 16 0xFF, rfl⟩

/-- 256 is added to the last counter: 256 instead of 255. -/
theorem plus_wraps_late :
    (plus lastIv 256).val = [0, 0, 0, 0, 0, 0, 0, 0, 0, 0, 0, 0, 0, 0, 1, 0] ∧
      beBytes 16 ((lastIv.toNat + (256 : UInt32).toNat) % 2 ^ 128) =
        [0, 0, 0, 0, 0, 0, 0, 0, 0, 0, 0, 0, 0, 0, 0, 255] := by
  refine ⟨?_, by decide +kernel⟩
  have hLoop : plusLoop (replicate 16 0xff) 0 256 =
      [0, 1, 0, 0, 0, 0, 0, 0, 0, 0, 0, 0, 0, 0, 0, 0] := by
    rw [plusLoop_of_gt (by decide), plusLoop_of_le (by decide) (by decide)]
    decide
  show (plusLoop (replicate 16 0xff).reverse 0 256).reverse = _
  rw [reverse_replicate, hLoop]
  rfl

end Lacuna.Display
