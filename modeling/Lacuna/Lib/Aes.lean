import Lacuna.Lib.Gf256
import Mathlib.Tactic.IntervalCases

/-!
# AES with a key of 128 bits

The cipher as the standard FIPS-197 describes it: a state of four rows and four columns,
the four transformations of it with their inverses, the key schedule as words, and ten
rounds.
-/

namespace Lacuna.Lib.Aes

theorem four_pos : 4 ≠ 0 := by decide

instance neZero_four : NeZero 4 := ⟨four_pos⟩

abbrev Word := Fin 4 → BitVec 8

abbrev State := Fin 4 → Fin 4 → BitVec 8

abbrev Block := Vector (BitVec 8) 16

@[elab_as_elim]
theorem fourCases {motive : Fin 4 → Prop} (zero : motive 0) (one : motive 1) (two : motive 2)
    (three : motive 3) (r : Fin 4) : motive r := by
  obtain ⟨n, hn⟩ := r
  interval_cases n
  · exact zero
  · exact one
  · exact two
  · exact three

/-! ## Substitution -/

def affine (b : BitVec 8) : BitVec 8 :=
  b ^^^ b.rotateLeft 1 ^^^ b.rotateLeft 2 ^^^ b.rotateLeft 3 ^^^ b.rotateLeft 4 ^^^ 0x63#8

def invAffine (b : BitVec 8) : BitVec 8 :=
  b.rotateLeft 1 ^^^ b.rotateLeft 3 ^^^ b.rotateLeft 6 ^^^ 0x05#8

def sbox (b : BitVec 8) : BitVec 8 := affine (gfInv b)

def invSbox (b : BitVec 8) : BitVec 8 := gfInv (invAffine b)

theorem invAffine_affine (b : BitVec 8) : invAffine (affine b) = b :=
  forall_byte (fun b => invAffine (affine b) = b) (by decide +kernel) b

theorem invSbox_sbox (b : BitVec 8) : invSbox (sbox b) = b := by
  rw [invSbox, sbox, invAffine_affine, gfInv_gfInv]

/-! ## Columns -/

def mixColumn (a : Word) : Word := fun r =>
  gfMul 0x02#8 (a r) ^^^ gfMul 0x03#8 (a (r + 1)) ^^^ a (r + 2) ^^^ a (r + 3)

def invMixColumn (a : Word) : Word := fun r =>
  gfMul 0x0e#8 (a r) ^^^ gfMul 0x0b#8 (a (r + 1)) ^^^ gfMul 0x0d#8 (a (r + 2)) ^^^
    gfMul 0x09#8 (a (r + 3))

theorem xor_cancel_left (x y : BitVec 8) : x ^^^ (x ^^^ y) = y := by
  rw [← BitVec.xor_assoc, BitVec.xor_self, BitVec.zero_xor]

theorem xor_left_comm (x y z : BitVec 8) : x ^^^ (y ^^^ z) = y ^^^ (x ^^^ z) := by
  ac_rfl

theorem mix_coefficients (b : BitVec 8) :
    gfMul 0x0e#8 (gfMul 0x02#8 b) ^^^ gfMul 0x0b#8 b ^^^ gfMul 0x0d#8 b ^^^
        gfMul 0x09#8 (gfMul 0x03#8 b) = b ∧
      gfMul 0x0e#8 (gfMul 0x03#8 b) ^^^ gfMul 0x0b#8 (gfMul 0x02#8 b) ^^^ gfMul 0x0d#8 b ^^^
        gfMul 0x09#8 b = 0#8 ∧
      gfMul 0x0e#8 b ^^^ gfMul 0x0b#8 (gfMul 0x03#8 b) ^^^ gfMul 0x0d#8 (gfMul 0x02#8 b) ^^^
        gfMul 0x09#8 b = 0#8 ∧
      gfMul 0x0e#8 b ^^^ gfMul 0x0b#8 b ^^^ gfMul 0x0d#8 (gfMul 0x03#8 b) ^^^
        gfMul 0x09#8 (gfMul 0x02#8 b) = 0#8 := by
  simp only [gfMul_two, gfMul_three, gfMul_nine, gfMul_eleven, gfMul_thirteen, gfMul_fourteen,
    xtime_xor]
  -- sums of the five multiples of `b` by powers of `x`
  generalize xtime b = b₁
  generalize xtime b₁ = b₂
  generalize xtime b₂ = b₃
  generalize xtime b₃ = b₄
  simp only [BitVec.xor_assoc, BitVec.xor_comm, xor_left_comm, xor_cancel_left,
    BitVec.xor_self, BitVec.xor_zero, and_self]

theorem invMix_mix (a b c d : BitVec 8) :
    gfMul 0x0e#8 (gfMul 0x02#8 a ^^^ gfMul 0x03#8 b ^^^ c ^^^ d) ^^^
      gfMul 0x0b#8 (gfMul 0x02#8 b ^^^ gfMul 0x03#8 c ^^^ d ^^^ a) ^^^
      gfMul 0x0d#8 (gfMul 0x02#8 c ^^^ gfMul 0x03#8 d ^^^ a ^^^ b) ^^^
      gfMul 0x09#8 (gfMul 0x02#8 d ^^^ gfMul 0x03#8 a ^^^ b ^^^ c) = a := by
  obtain ⟨ha, -⟩ := mix_coefficients a
  obtain ⟨-, hb, -⟩ := mix_coefficients b
  obtain ⟨-, -, hc, -⟩ := mix_coefficients c
  obtain ⟨-, -, -, hd⟩ := mix_coefficients d
  simp only [gfMul_xor]
  -- gather the terms in each of the four bytes
  calc _ = (gfMul 0x0e#8 (gfMul 0x02#8 a) ^^^ gfMul 0x0b#8 a ^^^ gfMul 0x0d#8 a ^^^
        gfMul 0x09#8 (gfMul 0x03#8 a)) ^^^
      (gfMul 0x0e#8 (gfMul 0x03#8 b) ^^^ gfMul 0x0b#8 (gfMul 0x02#8 b) ^^^ gfMul 0x0d#8 b ^^^
        gfMul 0x09#8 b) ^^^
      (gfMul 0x0e#8 c ^^^ gfMul 0x0b#8 (gfMul 0x03#8 c) ^^^ gfMul 0x0d#8 (gfMul 0x02#8 c) ^^^
        gfMul 0x09#8 c) ^^^
      (gfMul 0x0e#8 d ^^^ gfMul 0x0b#8 d ^^^ gfMul 0x0d#8 (gfMul 0x03#8 d) ^^^
        gfMul 0x09#8 (gfMul 0x02#8 d)) := by ac_rfl
    _ = a := by rw [ha, hb, hc, hd, BitVec.xor_zero, BitVec.xor_zero, BitVec.xor_zero]

theorem invMixColumn_mixColumn (a : Word) : invMixColumn (mixColumn a) = a := by
  funext r
  have hRow : ∀ r : Fin 4, r + 1 + 1 = r + 2 ∧ r + 1 + 2 = r + 3 ∧ r + 1 + 3 = r ∧
      r + 2 + 1 = r + 3 ∧ r + 2 + 2 = r ∧ r + 2 + 3 = r + 1 ∧
      r + 3 + 1 = r ∧ r + 3 + 2 = r + 1 ∧ r + 3 + 3 = r + 2 := by decide
  simp only [invMixColumn, mixColumn, hRow r]
  exact invMix_mix (a r) (a (r + 1)) (a (r + 2)) (a (r + 3))

def subBytes (s : State) : State := fun r c => sbox (s r c)

def shiftRows (s : State) : State := fun r c => s r (c + r)

def mixColumns (s : State) : State := fun r c => mixColumn (fun i => s i c) r

/-- Four words of the schedule `w`, one for each column. -/
def addRoundKey (w : Nat → Word) (round : Nat) (s : State) : State := fun r c =>
  s r c ^^^ w (4 * round + c) r

def invSubBytes (s : State) : State := fun r c => invSbox (s r c)

def invShiftRows (s : State) : State := fun r c => s r (c - r)

def invMixColumns (s : State) : State := fun r c => invMixColumn (fun i => s i c) r

theorem invSubBytes_subBytes (s : State) : invSubBytes (subBytes s) = s := by
  funext r c
  exact invSbox_sbox (s r c)

theorem invShiftRows_shiftRows (s : State) : invShiftRows (shiftRows s) = s := by
  funext r c
  have hCol : ∀ r c : Fin 4, c - r + r = c := by decide
  exact congrArg (s r) (hCol r c)

theorem invMixColumns_mixColumns (s : State) : invMixColumns (mixColumns s) = s := by
  funext r c
  exact congrFun (invMixColumn_mixColumn fun i => s i c) r

theorem addRoundKey_addRoundKey (w : Nat → Word) (round : Nat) (s : State) :
    addRoundKey w round (addRoundKey w round s) = s := by
  funext r c
  show s r c ^^^ w (4 * round + c) r ^^^ w (4 * round + c) r = s r c
  rw [BitVec.xor_assoc, BitVec.xor_self, BitVec.xor_zero]

/-! ## The key schedule -/

def rotWord (a : Word) : Word := fun r => a (r + 1)

def subWord (a : Word) : Word := fun r => sbox (a r)

def rcon (j : Nat) : Word := fun r => if r = 0 then xtime^[j - 1] 1#8 else 0#8

/-- The words of the schedule. The first four are the key. -/
def keyExpansion (key : Fin 4 → Word) (i : Nat) : Word :=
  if h : i < 4 then key ⟨i, h⟩
  else
    let temp := keyExpansion key (i - 1)
    let temp := if i % 4 = 0 then fun r => subWord (rotWord temp) r ^^^ rcon (i / 4) r else temp
    fun r => keyExpansion key (i - 4) r ^^^ temp r
termination_by i

theorem keyExpansion_of_lt {key : Fin 4 → Word} {i : Nat} (h : i < 4) :
    keyExpansion key i = key ⟨i, h⟩ := by
  rw [keyExpansion, dif_pos h]

theorem keyExpansion_of_ge {key : Fin 4 → Word} {i : Nat} (h : 4 ≤ i) : keyExpansion key i =
    fun r => keyExpansion key (i - 4) r ^^^ (if i % 4 = 0 then
      fun r => subWord (rotWord (keyExpansion key (i - 1))) r ^^^ rcon (i / 4) r
      else keyExpansion key (i - 1)) r := by
  conv_lhs => rw [keyExpansion, dif_neg (Nat.not_lt.mpr h)]

/-! ## The cipher -/

def rounds (w : Nat → Word) (s : State) : Nat → State
  | 0 => addRoundKey w 0 s
  | n + 1 => addRoundKey w (n + 1) (mixColumns (shiftRows (subBytes (rounds w s n))))

def cipher (w : Nat → Word) (s : State) : State :=
  addRoundKey w 10 (shiftRows (subBytes (rounds w s 9)))

def ofBlock (b : Block) : State := fun r c => b[4 * c.val + r.val]

def toBlock (s : State) : Block :=
  Vector.ofFn fun i => s ⟨i.val % 4, by omega⟩ ⟨i.val / 4, by omega⟩

def keyWords (key : Block) : Fin 4 → Word := fun i r => key[4 * i.val + r.val]

def aes128 (key block : Block) : Block :=
  toBlock (cipher (keyExpansion (keyWords key)) (ofBlock block))

theorem toBlock_ofBlock (b : Block) : toBlock (ofBlock b) = b := by
  apply Vector.ext
  intro i hi
  have hIndex : 4 * (i / 4) + i % 4 = i := Nat.div_add_mod i 4
  simp [toBlock, ofBlock, hIndex]

theorem ofBlock_injective {b b' : Block} (h : ofBlock b = ofBlock b') : b = b' := by
  rw [← toBlock_ofBlock b, h, toBlock_ofBlock]

section Congr

variable {w w' : Nat → Word}

theorem addRoundKey_congr {round : Nat} (h : ∀ j < 4 * round + 4, w j = w' j) (s : State) :
    addRoundKey w round s = addRoundKey w' round s := by
  funext r c
  have hWord := h (4 * round + c) (by omega)
  rw [addRoundKey, addRoundKey, hWord]

theorem rounds_congr {n : Nat} (h : ∀ j < 4 * n + 4, w j = w' j) (s : State) :
    rounds w s n = rounds w' s n := by
  induction n with
  | zero => exact addRoundKey_congr h s
  | succ n ih =>
    have hEarlier := ih fun j hj => h j (by omega)
    rw [rounds, rounds, hEarlier]
    exact addRoundKey_congr h _

theorem cipher_congr (h : ∀ j < 44, w j = w' j) (s : State) : cipher w s = cipher w' s := by
  have hRounds := rounds_congr (n := 9) (fun j hj => h j (by omega)) s
  rw [cipher, cipher, hRounds]
  exact addRoundKey_congr h _

end Congr

end Lacuna.Lib.Aes
