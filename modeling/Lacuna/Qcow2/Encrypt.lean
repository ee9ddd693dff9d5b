import Lacuna.Lib.Cbc

/-!
# qcow2 — encryption of image data and metadata

The encryption layer of `block/qcow2-cluster.c`: a buffer is cut into units,
each unit is one AES-CBC message, and its IV is made of the unit's offset and
of a flag that keeps metadata and guest data apart.

`AesCbc` is what the code relies on about AES-CBC. `AesCbc.ofBlockCipher` is the mode
as `aes.c` computes it over the AES block function, and `AesCbc.SeparatesIv` the
further fact, true of the mode, that another IV gives other data.
-/

namespace Lacuna.Qcow2

open Lacuna.Lib

/-! ## AES-CBC -/

/-- `AES_cbc_encrypt(in, out, length, key, ivec, enc)`. -/
structure AesCbc (Key : Type) where
  crypt : Key → List UInt8 → Bool → List UInt8 → List UInt8
  length_crypt : ∀ key iv enc buf, iv.length = 16 → 16 ∣ buf.length →
    (crypt key iv enc buf).length = buf.length
  decrypt_encrypt : ∀ key iv buf, iv.length = 16 → 16 ∣ buf.length →
    crypt key iv false (crypt key iv true buf) = buf

variable {Key : Type}

/-- Decryption under another IV does not give the data back. -/
def AesCbc.SeparatesIv (cbc : AesCbc Key) : Prop :=
  ∀ key iv iv' buf, iv.length = 16 → iv'.length = 16 → 16 ∣ buf.length → buf ≠ [] →
    iv ≠ iv' → cbc.crypt key iv' false (cbc.crypt key iv true buf) ≠ buf

private theorem length_eq_blocks {buf : List UInt8} (h : 16 ∣ buf.length) :
    buf.length = buf.length / 16 * 16 :=
  (Nat.div_mul_cancel h).symm

/-- The mode as `aes.c` computes it, over the AES block function of each key. -/
def AesCbc.ofBlockCipher (aes : Key → BlockCipher 16) : AesCbc Key where
  crypt key iv enc buf :=
    if enc then cbcEncrypt (aes key) (buf.length / 16) iv buf
    else cbcDecrypt (aes key) (buf.length / 16) iv buf
  length_crypt := by
    intro key iv enc buf hIv hBuf
    have hLen := length_eq_blocks hBuf
    cases enc
    · exact (length_cbcDecrypt (aes key) hIv hLen).trans hLen.symm
    · exact (length_cbcEncrypt (aes key) hIv hLen).trans hLen.symm
  decrypt_encrypt := by
    intro key iv buf hIv hBuf
    have hLen := length_eq_blocks hBuf
    have hEnc : (cbcEncrypt (aes key) (buf.length / 16) iv buf).length = buf.length :=
      (length_cbcEncrypt (aes key) hIv hLen).trans hLen.symm
    simp only [Bool.false_eq_true, if_false, if_true, hEnc]
    exact cbcDecrypt_cbcEncrypt (aes key) hIv hLen

/-- CBC over any block cipher tells IVs apart, from the first block. -/
theorem AesCbc.ofBlockCipher_separatesIv (aes : Key → BlockCipher 16) :
    (AesCbc.ofBlockCipher aes).SeparatesIv := by
  intro key iv iv' buf hIv hIv' hBuf hNil hNe
  have hLen := length_eq_blocks hBuf
  have hPos : 0 < buf.length / 16 := by
    have : buf.length ≠ 0 := fun h => hNil (List.length_eq_zero_iff.mp h)
    omega
  have hEnc : (cbcEncrypt (aes key) (buf.length / 16) iv buf).length = buf.length :=
    (length_cbcEncrypt (aes key) hIv hLen).trans hLen.symm
  simp only [ofBlockCipher, Bool.false_eq_true, if_false, if_true, hEnc]
  exact cbcDecrypt_ne_of_iv_ne (aes key) hPos hIv hIv' hLen hNe

/-- The simplest cipher: every byte is combined with the key, whatever the IV. -/
def AesCbc.xorKey : AesCbc UInt8 where
  crypt key _ _ buf := buf.map (· ^^^ key)
  length_crypt _ _ _ _ _ _ := List.length_map _
  decrypt_encrypt key _ buf _ _ := by
    rw [List.map_map]
    exact (List.map_congr_left fun x _ => Lib.xor_cancel_right x key).trans (List.map_id buf)

theorem AesCbc.xorKey_zero (iv : List UInt8) (enc : Bool) (buf : List UInt8) :
    AesCbc.xorKey.crypt 0 iv enc buf = buf :=
  (List.map_congr_left fun _ _ => UInt8.xor_zero).trans (List.map_id buf)

/-! ## Initialisation vectors -/

/-- The eight bytes of a 64-bit word in memory, little end first. -/
def le64 (x : UInt64) : List UInt8 := leBytes 8 x.toNat

@[simp] theorem length_le64 (x : UInt64) : (le64 x).length = 8 := length_leBytes 8 _

theorem le64_injective : Function.Injective le64 := by
  intro x y h
  exact UInt64.toNat_inj.mp (leBytes_inj x.toNat_lt y.toNat_lt h)

/-- `SET_IV(ivec, cpu_to_le64(offset), is_metadata ? ~0 : 0)`. -/
def setIv (offset : UInt64) (isMetadata : Bool) : List UInt8 :=
  le64 offset ++ le64 (if isMetadata then 0xffffffffffffffff else 0)

@[simp] theorem length_setIv (offset : UInt64) (isMetadata : Bool) :
    (setIv offset isMetadata).length = 16 := by
  simp [setIv]

theorem setIv_injective (isMetadata : Bool) :
    Function.Injective fun offset => setIv offset isMetadata := by
  intro x y h
  exact le64_injective (List.append_inj_left h (by simp))

/-! ## Buffers of units -/

/-- `nb_units` messages, each under the IV of its own offset. -/
def qcow2Encrypt (cbc : AesCbc Key) (unitSize : Nat) (enc isMetadata : Bool) (key : Key) :
    Nat → UInt64 → List UInt8 → List UInt8
  | 0, _, _ => []
  | nbUnits + 1, offset, inBuf =>
    cbc.crypt key (setIv offset isMetadata) enc (inBuf.take unitSize) ++
      qcow2Encrypt cbc unitSize enc isMetadata key nbUnits (offset + UInt64.ofNat unitSize)
        (inBuf.drop unitSize)

def qcow2EncryptMetadata (cbc : AesCbc Key) (offset : UInt64) (inBuf : List UInt8)
    (unitSize nbUnits : Nat) (enc : Bool) (key : Key) : List UInt8 :=
  qcow2Encrypt cbc unitSize enc true key nbUnits offset inBuf

def qcow2EncryptSectors (cbc : AesCbc Key) (sectorNum : UInt64) (inBuf : List UInt8)
    (nbSectors : Nat) (enc : Bool) (key : Key) : List UInt8 :=
  qcow2Encrypt cbc 512 enc false key nbSectors (sectorNum * 512) inBuf

theorem qcow2EncryptMetadata_one (cbc : AesCbc Key) (offset : UInt64) {inBuf : List UInt8}
    {unitSize : Nat} (enc : Bool) (key : Key) (hLen : inBuf.length = unitSize) :
    qcow2EncryptMetadata cbc offset inBuf unitSize 1 enc key =
      cbc.crypt key (setIv offset true) enc inBuf := by
  rw [qcow2EncryptMetadata, qcow2Encrypt, qcow2Encrypt, List.append_nil, ← hLen, List.take_length]

end Lacuna.Qcow2
