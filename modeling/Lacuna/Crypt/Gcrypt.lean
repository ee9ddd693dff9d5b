import Lacuna.Crypt.Aesni

/-!
# The other cipher of libprivcrypt

The library can be built over libgcrypt instead of AES-NI (`libprivcrypt/gcrypt.c`).
libgcrypt's counter mode goes on within a block where the last call stopped. Built
with `CONFIG_GCRYPT_REAL_STREAM`, `gcrypt_crypt` therefore processes as many bytes
of a buffer on the stack as are missing to the end of the block, and the two
cannot be told apart (`user_ciphers_agree`).
-/

namespace Lacuna.Crypt

open Lacuna.Lib

def MAX_IV_LEN : Nat := 64

/-- `gcry_cipher_encrypt` and `gcry_cipher_decrypt` in place: the error, the data and the handle
afterwards. -/
structure Gcry (η : Type) where
  encrypt : η → List UInt8 → Nat × List UInt8 × η
  decrypt : η → List UInt8 → Nat × List UInt8 × η

/-- A handle in counter mode, with the number of bytes processed since the counter was set. -/
structure GcryHd where
  key : List UInt8
  ctr : BitVec 128
  pos : Nat
  deriving DecidableEq

/-- The counter mode of libgcrypt: one continuous keystream. -/
def Gcry.stream (aes : List UInt8 → BlockStream 128 16) : Gcry GcryHd where
  encrypt hd data :=
    let r := streamCrypt (aes hd.key) hd.ctr hd.pos data
    (0, r.1, { hd with pos := r.2 })
  decrypt hd data :=
    let r := streamCrypt (aes hd.key) hd.ctr hd.pos data
    (0, r.1, { hd with pos := r.2 })

structure GcryptState (η : Type) where
  blockSz : Nat
  hd : η
  deriving DecidableEq

section Backend

variable {η : Type} (gcry : Gcry η)

def gcryptDoCrypt (hd : η) (data : List UInt8) (enc : Bool) : Int × List UInt8 × η :=
  let r := if enc then gcry.encrypt hd data else gcry.decrypt hd data
  if r.1 ≠ 0 then (-PRIV_CRYPT_SOME_ERR, r.2) else (0, r.2)

def gcryptCrypt (extra : { bytes : List UInt8 // bytes.length = MAX_IV_LEN })
    (userCtx : Option (GcryptState η)) (data : List UInt8) (enc : Bool) :
    Int × List UInt8 × Option (GcryptState η) :=
  match userCtx with
  | none => (-PRIV_CRYPT_SOME_ERR, data, none)
  | some st =>
    let r := gcryptDoCrypt gcry st.hd data enc
    if r.1 < 0 then (r.1, r.2.1, some { st with hd := r.2.2 })
    else if data.length % st.blockSz ≠ 0 then
      let leftover := st.blockSz - data.length % st.blockSz
      let e := gcryptDoCrypt gcry r.2.2 (extra.val.take leftover) enc
      (e.1, r.2.1, some { st with hd := e.2.2 })
    else (r.1, r.2.1, some { st with hd := r.2.2 })

end Backend

/-! ## What the library sees of a cipher -/

structure CryptCall where
  enc : Bool
  data : List UInt8
  last : AesBlock
  extra : { bytes : List UInt8 // bytes.length = MAX_IV_LEN }

/-- `struct priv_user_ops`: what a call does to a cipher. -/
structure UserOps (σ : Type) where
  crypt : CryptCall → σ → Int × List UInt8 × σ

namespace UserOps

variable {σ τ : Type}

def outputs (ops : UserOps σ) : σ → List CryptCall → List (Int × List UInt8)
  | _, [] => []
  | s, c :: cs =>
    let r := ops.crypt c s
    (r.1, r.2.1) :: ops.outputs r.2.2 cs

/-- Ciphers with a relation between their states that calls keep give the same. -/
theorem outputs_eq_of_sim {ops : UserOps σ} {ops' : UserOps τ} {R : σ → τ → Prop}
    (hStep : ∀ c s t, R s t → (ops.crypt c s).1 = (ops'.crypt c t).1 ∧
      (ops.crypt c s).2.1 = (ops'.crypt c t).2.1 ∧
      R (ops.crypt c s).2.2 (ops'.crypt c t).2.2)
    {s : σ} {t : τ} (hR : R s t) (calls : List CryptCall) :
    ops.outputs s calls = ops'.outputs t calls := by
  induction calls generalizing s t with
  | nil => rfl
  | cons c cs ih =>
    obtain ⟨hRc, hData, hR⟩ := hStep c s t hR
    rw [outputs, outputs, hRc, hData, ih hR]

end UserOps

variable (aes : List UInt8 → BlockStream 128 16)

def gcryptPrivUserOps : UserOps (Option (GcryptState GcryHd)) where
  crypt c st := gcryptCrypt (.stream aes) c.extra st c.data c.enc

def aesniPrivUserOps : UserOps (Option AesniState) where
  crypt c st :=
    if c.enc then privAesniEncrypt aes c.last st c.data else privAesniDecrypt aes c.last st c.data

def gcryptOpen (key : List UInt8) (iv : BitVec 128) : GcryptState GcryHd where
  blockSz := 16
  hd := { key := key, ctr := iv, pos := 0 }

def aesniOpen (key : List UInt8) (iv : BitVec 128) : AesniState where
  key := key
  iv := iv

/-! ## One message -/

inductive SameBlock (key : List UInt8) (iv : BitVec 128) :
    Option (GcryptState GcryHd) → Option AesniState → Prop where
  | block (n : Nat) : SameBlock key iv
      (some { blockSz := 16, hd := { key := key, ctr := iv, pos := n * 16 } })
      (some { key := key, iv := iv + BitVec.ofNat 128 n })

theorem gcryptDoCrypt_stream (hd : GcryHd) (data : List UInt8) (enc : Bool) :
    gcryptDoCrypt (.stream aes) hd data enc = (0, (streamCrypt (aes hd.key) hd.ctr hd.pos data).1,
        { hd with pos := hd.pos + data.length }) := by
  cases enc <;> rfl

theorem gcryptCrypt_stream (extra : { bytes : List UInt8 // bytes.length = MAX_IV_LEN })
    (key : List UInt8) (iv : BitVec 128) (n : Nat) (data : List UInt8) (enc : Bool) :
    gcryptCrypt (.stream aes) extra
        (some { blockSz := 16, hd := { key := key, ctr := iv, pos := n * 16 } }) data enc =
      (0, (ctrCrypt (aes key) (iv + BitVec.ofNat 128 n) data).1,
        some { blockSz := 16,
               hd := { key := key, ctr := iv, pos := (n + blocksOf 16 data.length) * 16 } }) := by
  have hFirst : (streamCrypt (aes key) iv (n * 16) data).1 =
      (ctrCrypt (aes key) (iv + BitVec.ofNat 128 n) data).1 := by
    rw [streamCrypt_mul (by decide)]
  simp only [gcryptCrypt, gcryptDoCrypt_stream, hFirst]
  rw [if_neg (by decide : ¬ (0 : Int) < 0)]
  by_cases hWhole : data.length % 16 = 0
  · have hLen : n * 16 + data.length = (n + blocksOf 16 data.length) * 16 := by
      obtain ⟨k, hk⟩ := Nat.dvd_of_mod_eq_zero hWhole
      rw [hk, Nat.mul_comm 16 k, blocksOf_mul (by decide), Nat.add_mul]
    rw [if_neg (not_not.mpr hWhole), hLen]
  · have hExtra : (extra.val.take (16 - data.length % 16)).length = 16 - data.length % 16 := by
      rw [List.length_take, extra.property]
      exact Nat.min_eq_left (Nat.le_trans (Nat.sub_le ..) (by decide))
    have hLen : n * 16 + data.length + (16 - data.length % 16) =
        (n + blocksOf 16 data.length) * 16 := by
      rw [Nat.add_assoc, add_leftover (by decide) hWhole, Nat.add_mul]
    rw [if_pos hWhole, hExtra, hLen]

/-- **One call** of either cipher. -/
theorem SameBlock.step {key : List UInt8} {iv : BitVec 128} (c : CryptCall)
    (g : Option (GcryptState GcryHd)) (a : Option AesniState) (h : SameBlock key iv g a) :
    ((gcryptPrivUserOps aes).crypt c g).1 = ((aesniPrivUserOps aes).crypt c a).1 ∧
      ((gcryptPrivUserOps aes).crypt c g).2.1 = ((aesniPrivUserOps aes).crypt c a).2.1 ∧
      SameBlock key iv ((gcryptPrivUserOps aes).crypt c g).2.2
        ((aesniPrivUserOps aes).crypt c a).2.2 := by
  obtain ⟨n⟩ := h
  have hAesni : ∀ st, (aesniPrivUserOps aes).crypt c st = privAesniCrypt aes c.last st c.data := by
    intro st
    cases hEnc : c.enc <;> simp only [aesniPrivUserOps, hEnc] <;> rfl
  rw [hAesni, privAesniCrypt_eq]
  simp only [gcryptPrivUserOps, gcryptCrypt_stream, true_and]
  have hIv : (ctrCrypt (aes key) (iv + BitVec.ofNat 128 n) c.data).2 =
      iv + BitVec.ofNat 128 (n + blocksOf 16 c.data.length) := by
    rw [ctrCrypt, BitVec.ofNat_add, BitVec.add_assoc]
  rw [hIv]
  exact .block _

/-- **The two ciphers are interchangeable**, for every key, IV and sequence of messages,
whatever is on the stack. -/
theorem user_ciphers_agree (key : List UInt8) (iv : BitVec 128) (calls : List CryptCall) :
    (gcryptPrivUserOps aes).outputs (some (gcryptOpen key iv)) calls =
      (aesniPrivUserOps aes).outputs (some (aesniOpen key iv)) calls := by
  have hStart : SameBlock key iv _ _ := .block 0
  rw [Nat.zero_mul, BitVec.add_zero] at hStart
  exact UserOps.outputs_eq_of_sim (SameBlock.step aes) hStart calls

end Lacuna.Crypt
