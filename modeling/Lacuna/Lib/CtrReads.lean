import Mathlib.Data.List.Nodup
import Mathlib.Data.List.Perm.Subperm
import Lacuna.Lib.Ctr

/-!
# What counter mode reads of its keystream

Byte `p` of a message is combined with one byte of keystream, and with no other
(`readPos`), so that changing another one cannot be seen (`ctrCrypt_flip`) and
changing this one can (`ctrCrypt_flip_ne`). A program that reads fewer bytes of
keystream than a message has leaves one out (`exists_unread`).
-/

namespace Lacuna.Lib

open List

variable {b w : Nat}

/-- The block and the byte in it that byte `p` of a message is combined with. -/
def readPos (w : Nat) (ctr : BitVec b) (p : Nat) : BitVec b × Nat :=
  (ctr + BitVec.ofNat b (p / w), p % w)

def reads (w : Nat) (ctr : BitVec b) (len : Nat) : List (BitVec b × Nat) :=
  (List.range len).map (readPos w ctr)

@[simp] theorem length_reads (ctr : BitVec b) (len : Nat) : (reads w ctr len).length = len := by
  rw [reads, length_map, length_range]

theorem mem_reads {ctr : BitVec b} {len : Nat} {pos : BitVec b × Nat} :
    pos ∈ reads w ctr len ↔ ∃ p < len, readPos w ctr p = pos := by
  simp only [reads, mem_map, mem_range]

theorem nodup_reads (hw : 0 < w) (ctr : BitVec b) {len : Nat} (hLen : len ≤ 2 ^ b * w) :
    (reads w ctr len).Nodup := by
  refine List.Nodup.map_on (fun p hp q hq hEq => ?_) nodup_range
  have hBlock : ∀ {r}, r ∈ range len → r / w < 2 ^ b := fun hr =>
    (Nat.div_lt_iff_lt_mul hw).mpr (Nat.lt_of_lt_of_le (List.mem_range.mp hr) hLen)
  obtain ⟨hCtr, hMod⟩ := Prod.mk.inj hEq
  have hNat := congrArg BitVec.toNat (BitVec.add_right_inj ctr |>.mp hCtr)
  rw [BitVec.toNat_ofNat, BitVec.toNat_ofNat, Nat.mod_eq_of_lt (hBlock hp),
    Nat.mod_eq_of_lt (hBlock hq)] at hNat
  rw [← Nat.div_add_mod p w, ← Nat.div_add_mod q w, hNat, hMod]

/-- **Too few reads.** Of a message longer than the list, some byte is not in it. -/
theorem exists_unread {α : Type} (hw : 0 < w) (tag : α) (ctr : BitVec b) {len : Nat}
    (hLen : len ≤ 2 ^ b * w) {used : List (α × BitVec b × Nat)} (hUsed : used.length < len) :
    ∃ pos ∈ reads w ctr len, (tag, pos) ∉ used := by
  by_contra hAll
  push Not at hAll
  have hNodup : ((reads w ctr len).map (Prod.mk tag)).Nodup :=
    (nodup_reads hw ctr hLen).map fun _ _ h => (Prod.mk.inj h).2
  have hSub : (reads w ctr len).map (Prod.mk tag) ⊆ used := by
    intro x hx
    obtain ⟨pos, hPos, rfl⟩ := List.mem_map.mp hx
    exact hAll pos hPos
  have hLe := (subperm_of_subset hNodup hSub).length_le
  rw [length_map, length_reads] at hLe
  omega

/-! ## Changing one byte -/

def BlockStream.flip (K : BlockStream b w) (pos : BitVec b × Nat) : BlockStream b w where
  block ctr := if ctr = pos.1 then (K.block ctr).modify pos.2 (· + 1) else K.block ctr
  length_block ctr := by
    split
    · rw [List.length_modify, K.length_block]
    · exact K.length_block ctr

theorem getElem?_keystream (K : BlockStream b w) (ctr : BitVec b) {n p : Nat} (hp : p < n * w) :
    (keystream K ctr n)[p]? = (K.block (readPos w ctr p).1)[(readPos w ctr p).2]? := by
  have hw : 0 < w := Nat.pos_of_ne_zero fun h => by simp [h] at hp
  obtain ⟨r, rfl⟩ : ∃ r, n = p / w + (r + 1) := by
    have := (Nat.div_lt_iff_lt_mul hw).mpr hp
    exact ⟨n - p / w - 1, by omega⟩
  have hDiv : p / w * w ≤ p := Nat.div_mul_le_self p w
  have hMod : p - p / w * w = p % w := by
    rw [Nat.mul_comm, ← Nat.mod_eq_sub_mul_div]
  rw [keystream_add, List.getElem?_append_right (by rwa [length_keystream]), length_keystream,
    keystream, hMod, List.getElem?_append_left (by rw [K.length_block]; exact Nat.mod_lt p hw)]
  rfl

section Flip

variable {K : BlockStream b w} {ctr : BitVec b}

variable {pos : BitVec b × Nat}

theorem getElem?_flip_of_ne {pos' : BitVec b × Nat} (h : pos' ≠ pos) :
    ((K.flip pos).block pos'.1)[pos'.2]? = (K.block pos'.1)[pos'.2]? := by
  show (if pos'.1 = pos.1 then _ else _)[pos'.2]? = _
  split
  · rename_i hCtr
    have ho : pos.2 ≠ pos'.2 := fun ho => h (Prod.ext hCtr ho.symm)
    exact List.getElem?_modify_ne _ _ ho
  · rfl

theorem getElem?_flip_self (K : BlockStream b w) (pos : BitVec b × Nat) :
    ((K.flip pos).block pos.1)[pos.2]? = ((K.block pos.1)[pos.2]?).map (· + 1) := by
  show (if pos.1 = pos.1 then _ else _)[pos.2]? = _
  rw [if_pos rfl, List.getElem?_modify_eq]
  rfl

theorem ctrCrypt_flip (hw : 0 < w) {data : List UInt8}
    (h : pos ∉ reads w ctr data.length) : ctrCrypt (K.flip pos) ctr data = ctrCrypt K ctr data := by
  refine Prod.ext (List.ext_getElem? fun p => ?_) rfl
  simp only [ctrCrypt, xorBytes, List.getElem?_zipWith]
  by_cases hp : p < data.length
  · have hNe : readPos w ctr p ≠ pos := fun hEq => h (mem_reads.mpr ⟨p, hp, hEq⟩)
    have hk : p < blocksOf w data.length * w := Nat.lt_of_lt_of_le hp (le_blocksOf_mul hw _)
    rw [getElem?_keystream _ _ hk, getElem?_keystream _ _ hk, getElem?_flip_of_ne hNe]
  · rw [List.getElem?_eq_none (by omega)]

theorem ctrCrypt_flip_ne (hw : 0 < w) {data : List UInt8} (h : pos ∈ reads w ctr data.length) :
    (ctrCrypt (K.flip pos) ctr data).1 ≠ (ctrCrypt K ctr data).1 := by
  obtain ⟨p, hp, rfl⟩ := mem_reads.mp h
  have hk : p < blocksOf w data.length * w := Nat.lt_of_lt_of_le hp (le_blocksOf_mul hw _)
  have hMod : (readPos w ctr p).2 < (K.block (readPos w ctr p).1).length := by
    rw [K.length_block]
    exact Nat.mod_lt p hw
  intro hEq
  have hAt := congrArg (·[p]?) hEq
  simp only [ctrCrypt, xorBytes, List.getElem?_zipWith, getElem?_keystream _ _ hk,
    getElem?_flip_self, List.getElem?_eq_getElem hp, List.getElem?_eq_getElem hMod,
    Option.map_some, Option.some.injEq] at hAt
  rw [UInt8.xor_comm, UInt8.xor_comm data[p]] at hAt
  have hSame := congrArg (· ^^^ data[p]) hAt
  simp only [Lib.xor_cancel_right, UInt8.add_eq_left] at hSame
  exact absurd hSame (by decide)

end Flip

end Lacuna.Lib
