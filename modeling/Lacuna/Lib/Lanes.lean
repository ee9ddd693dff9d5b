import Mathlib.Data.List.Basic
import Mathlib.Tactic.IntervalCases

/-!
# Words of four bytes

`word a b c d` is the 32-bit word whose bytes in memory, the lowest first, are `a`,
`b`, `c` and `d`. Shifts by whole bytes, exclusive or and masks act on it byte by byte.
-/

namespace Lacuna.Lib

def word (a b c d : BitVec 8) : BitVec 32 := d ++ c ++ b ++ a

def topBit (a : BitVec 8) : BitVec 8 := if a.msb then 1#8 else 0#8

section Lanes

variable (a b c d : BitVec 8)

theorem getLsbD_word (i : Nat) : (word a b c d).getLsbD i =
    if i < 8 then a.getLsbD i else if i < 16 then b.getLsbD (i - 8)
    else if i < 24 then c.getLsbD (i - 16) else d.getLsbD (i - 24) := by
  unfold word
  simp only [BitVec.getLsbD_append]
  grind

theorem extract_word : (word a b c d).extractLsb' 0 8 = a ∧ (word a b c d).extractLsb' 8 8 = b ∧
    (word a b c d).extractLsb' 16 8 = c ∧ (word a b c d).extractLsb' 24 8 = d := by
  refine ⟨?_, ?_, ?_, ?_⟩ <;>
  · apply BitVec.eq_of_getLsbD_eq
    intro i hi
    simp only [BitVec.getLsbD_extractLsb', getLsbD_word]
    grind

theorem word_xor (a' b' c' d' : BitVec 8) : word a b c d ^^^ word a' b' c' d' =
    word (a ^^^ a') (b ^^^ b') (c ^^^ c') (d ^^^ d') := by
  apply BitVec.eq_of_getLsbD_eq
  intro i hi
  simp only [BitVec.getLsbD_xor, getLsbD_word]
  split_ifs <;> rfl

theorem word_rotate_one : (word a b c d >>> 8) ||| (word a b c d <<< 24) = word b c d a := by
  apply BitVec.eq_of_getLsbD_eq
  intro i hi
  simp only [BitVec.getLsbD_or, BitVec.getLsbD_ushiftRight, BitVec.getLsbD_shiftLeft, getLsbD_word]
  grind

theorem word_rotate_two : (word a b c d <<< 16) ||| (word a b c d >>> 16) = word c d a b := by
  apply BitVec.eq_of_getLsbD_eq
  intro i hi
  simp only [BitVec.getLsbD_or, BitVec.getLsbD_ushiftRight, BitVec.getLsbD_shiftLeft, getLsbD_word]
  grind

theorem getLsbD_topBit (i : Nat) : (topBit a).getLsbD i = (decide (i = 0) && a.getLsbD 7) := by
  have hTop : a.msb = a.getLsbD 7 := BitVec.msb_eq_getLsbD_last a
  rw [topBit, hTop]
  cases a.getLsbD 7 <;> simp

theorem getLsbD_all_but_lowest (i : Nat) :
    (0xfe#8).getLsbD i = (decide (0 < i) && decide (i < 8)) := by
  by_cases hi : i < 8
  · interval_cases i <;> decide
  · simp [hi, BitVec.getLsbD_of_ge _ _ (Nat.le_of_not_lt hi)]

theorem word_topBits : (word a b c d >>> 7) &&& 0x01010101#32 =
    word (topBit a) (topBit b) (topBit c) (topBit d) := by
  have hMask : 0x01010101#32 = word 1#8 1#8 1#8 1#8 := rfl
  rw [hMask]
  apply BitVec.eq_of_getLsbD_eq
  intro i hi
  simp only [BitVec.getLsbD_and, BitVec.getLsbD_ushiftRight, getLsbD_word, getLsbD_topBit,
    BitVec.getLsbD_one]
  grind

theorem word_double : (word a b c d <<< 1) &&& 0xfefefefe#32 =
    word (a <<< 1) (b <<< 1) (c <<< 1) (d <<< 1) := by
  have hMask : 0xfefefefe#32 = word 0xfe#8 0xfe#8 0xfe#8 0xfe#8 := rfl
  rw [hMask]
  apply BitVec.eq_of_getLsbD_eq
  intro i hi
  simp only [BitVec.getLsbD_and, BitVec.getLsbD_shiftLeft, getLsbD_word, getLsbD_all_but_lowest]
  grind

end Lanes

end Lacuna.Lib
