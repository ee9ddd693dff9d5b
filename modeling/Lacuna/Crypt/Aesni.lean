import Lacuna.Crypt.Context

/-!
# Encryption contexts of libprivcrypt

`priv_crypt` of `libprivcrypt/priv_crypt.c` over the AES-NI backend of `aesni.c`. A message
is split into a front of whole blocks, processed in place, and a tail, processed in a
buffer on the stack whose other bytes are whatever was there (`last`).
`privAesniCrypt_eq`: none of this can be seen.
-/

namespace Lacuna.Crypt

open Lacuna.Lib List

def PRIV_CRYPT_SOME_ERR : Int := 1

/-- A block, such as an array of 16 bytes that has not been initialised. -/
abbrev AesBlock := { bytes : List UInt8 // bytes.length = 16 }

/-- The key schedule by its key, the counter block as a number. -/
structure AesniState where
  key : List UInt8
  iv : BitVec 128
  deriving DecidableEq

structure PrivCctx where
  dir : Dir
  userCtx : Option AesniState
  deriving DecidableEq

section Backend

variable (aes : List UInt8 → BlockStream 128 16)

def aesniCtrEnc (key : List UInt8) (data : List UInt8) (iv : BitVec 128) :
    List UInt8 × BitVec 128 :=
  let whole := data.length / 16 * 16
  let r := ctrCrypt (aes key) iv (data.take whole)
  (r.1 ++ data.drop whole, r.2)

def privAesniCrypt (last : AesBlock) (userCtx : Option AesniState) (data : List UInt8) :
    Int × List UInt8 × Option AesniState :=
  match userCtx with
  | none => (-PRIV_CRYPT_SOME_ERR, data, none)
  | some st =>
    let mostLen := if 16 < data.length then data.length - data.length % 16 else 0
    let front := if 16 < data.length then aesniCtrEnc aes st.key (data.take mostLen) st.iv
      else ([], st.iv)
    let tail := data.drop mostLen
    if 0 < tail.length then
      -- `memcpy(last, data, len)`, and back
      let r := aesniCtrEnc aes st.key (tail ++ last.val.drop tail.length) front.2
      (0, front.1 ++ r.1.take tail.length, some { st with iv := r.2 })
    else (0, front.1, some { st with iv := front.2 })

def privAesniEncrypt (last : AesBlock) (userCtx : Option AesniState) (data : List UInt8) :
    Int × List UInt8 × Option AesniState :=
  privAesniCrypt aes last userCtx data

def privAesniDecrypt (last : AesBlock) (userCtx : Option AesniState) (data : List UInt8) :
    Int × List UInt8 × Option AesniState :=
  privAesniCrypt aes last userCtx data

/-- `priv_crypt` of the library: the opposite of what the kernel does. -/
def userPrivCrypt (last : AesBlock) (cctx : PrivCctx) (data : List UInt8) :
    Int × List UInt8 × PrivCctx :=
  let r := match cctx.dir with
    | .enc => privAesniDecrypt aes last cctx.userCtx data
    | .dec => privAesniEncrypt aes last cctx.userCtx data
  (r.1, r.2.1, { cctx with userCtx := r.2.2 })

/-! ## The tail does not matter -/

theorem aesniCtrEnc_whole {data : List UInt8} (h : 16 ∣ data.length) (key : List UInt8)
    (iv : BitVec 128) : aesniCtrEnc aes key data iv = ctrCrypt (aes key) iv data := by
  simp [aesniCtrEnc, Nat.div_mul_cancel h]

theorem aesniCtrEnc_tail (tail pad : List UInt8) (hPos : 0 < tail.length)
    (hLen : tail.length + pad.length = 16) (key : List UInt8) (iv : BitVec 128) :
    (aesniCtrEnc aes key (tail ++ pad) iv).1.take tail.length = (ctrCrypt (aes key) iv tail).1 ∧
      (aesniCtrEnc aes key (tail ++ pad) iv).2 = (ctrCrypt (aes key) iv tail).2 := by
  have hBlock : (tail ++ pad).length = 16 := by rw [length_append, hLen]
  rw [aesniCtrEnc_whole aes ⟨1, hBlock⟩]
  refine take_ctrCrypt_append ?_
  rw [hBlock, blocksOf_one (by decide) (by decide) (by decide),
    blocksOf_one (by decide) hPos (by omega)]

/-- **The userspace side of a channel**: the message is processed as a whole. -/
theorem privAesniCrypt_eq (last : AesBlock) (st : AesniState) (data : List UInt8) :
    privAesniCrypt aes last (some st) data = (0, (ctrCrypt (aes st.key) st.iv data).1,
        some { st with iv := (ctrCrypt (aes st.key) st.iv data).2 }) := by
  have hLast := last.property
  simp only [privAesniCrypt]
  by_cases hLong : 16 < data.length
  · -- the front is made of whole blocks, and less than a block is left
    simp only [if_pos hLong]
    generalize hFront : data.take (data.length - data.length % 16) = front
    generalize hTail : data.drop (data.length - data.length % 16) = tail
    have hData : data = front ++ tail := by rw [← hFront, ← hTail, take_append_drop]
    have hMod := Nat.mod_lt data.length (show 0 < 16 by decide)
    have hFrontLen : front.length = data.length - data.length % 16 := by
      rw [← hFront, length_take]
      omega
    have hTailLen : tail.length = data.length % 16 := by
      rw [← hTail, length_drop]
      omega
    have hWhole : 16 ∣ front.length := by omega
    rw [aesniCtrEnc_whole aes hWhole, hData, ctrCrypt_append (by decide) hWhole]
    split
    · rename_i hPos
      obtain ⟨hOut, hIv⟩ := aesniCtrEnc_tail aes tail (last.val.drop tail.length) hPos
        (by rw [length_drop]; omega) st.key (ctrCrypt (aes st.key) st.iv front).2
      rw [hOut, hIv]
    · rename_i hNil
      have hEmpty : tail = [] := List.length_eq_zero_iff.mp (by omega)
      simp [hEmpty, ctrCrypt_nil]
  · -- no front
    simp only [if_neg hLong, drop_zero, nil_append]
    split
    · rename_i hPos
      obtain ⟨hOut, hIv⟩ := aesniCtrEnc_tail aes data (last.val.drop data.length) hPos
        (by rw [length_drop]; omega) st.key st.iv
      rw [hOut, hIv]
    · rename_i hNil
      have hEmpty : data = [] := List.length_eq_zero_iff.mp (by omega)
      simp [hEmpty, ctrCrypt_nil]

theorem userPrivCrypt_eq (last : AesBlock) (dir : Dir) (st : AesniState) (data : List UInt8) :
    userPrivCrypt aes last { dir := dir, userCtx := some st } data =
      (0, (ctrCrypt (aes st.key) st.iv data).1,
        { dir := dir, userCtx := some { st with iv := (ctrCrypt (aes st.key) st.iv data).2 } }) := by
  cases dir <;> simp only [userPrivCrypt, privAesniDecrypt, privAesniEncrypt, privAesniCrypt_eq]

end Backend

end Lacuna.Crypt
