import Lacuna.Lib.Blockwise
import Lacuna.Qcow2.Encrypt

/-!
# qcow2 — sectors and requests

`qcow2_encrypt_sectors` as the guest's requests come to it: sectors are
encrypted and decrypted request by request, in buffers of memory that may be one
and the same. Sector `i` of a call is one AES-CBC message under the IV of its own
offset (`unitIv`), so that the calls of a request are block-by-block work in the
sense of `Lib.blockwise`.
-/

namespace Lacuna.Qcow2

open Lacuna.Lib

variable {Key : Type}

/-! ## In memory -/

/-- `qcow2_encrypt`, from the buffer at `inBuf` to the one at `outBuf`. -/
def qcow2EncryptMem (cbc : AesCbc Key) (unitSize : Nat) (enc isMetadata : Bool) (key : Key) :
    Nat → UInt64 → Nat → Nat → Mem → Mem
  | 0, _, _, _, mem => mem
  | nbUnits + 1, offset, outBuf, inBuf, mem =>
    qcow2EncryptMem cbc unitSize enc isMetadata key nbUnits (offset + UInt64.ofNat unitSize)
      (outBuf + unitSize) (inBuf + unitSize)
      (store mem outBuf
        (cbc.crypt key (setIv offset isMetadata) enc (load mem inBuf unitSize)))

def qcow2EncryptSectorsMem (cbc : AesCbc Key) (sectorNum : UInt64) (outBuf inBuf nbSectors : Nat)
    (enc : Bool) (key : Key) : Mem → Mem :=
  qcow2EncryptMem cbc 512 enc false key nbSectors (sectorNum * 512) outBuf inBuf

def cryptRequests (cbc : AesCbc Key) (enc : Bool) (key : Key) :
    UInt64 → List Nat → Nat → Nat → Mem → Mem
  | _, [], _, _, mem => mem
  | sectorNum, n :: ns, outBuf, inBuf, mem =>
    cryptRequests cbc enc key (sectorNum + UInt64.ofNat n) ns (outBuf + n * 512) (inBuf + n * 512)
      (qcow2EncryptSectorsMem cbc sectorNum outBuf inBuf n enc key mem)

def InPlaceOrApart (outBuf inBuf len : Nat) : Prop :=
  outBuf = inBuf ∨ outBuf + len ≤ inBuf ∨ inBuf + len ≤ outBuf

instance (outBuf inBuf len : Nat) : Decidable (InPlaceOrApart outBuf inBuf len) :=
  inferInstanceAs (Decidable (_ ∨ _ ∨ _))

/-! ## Unit by unit -/

/-- The IV of unit `i` of a call of `qcow2_encrypt` at `offset`. -/
def unitIv (offset : UInt64) (unitSize : Nat) (isMetadata : Bool) (i : Nat) : List UInt8 :=
  setIv (offset + UInt64.ofNat (i * unitSize)) isMetadata

theorem length_unitIv (offset : UInt64) (unitSize : Nat) (isMetadata : Bool) (i : Nat) :
    (unitIv offset unitSize isMetadata i).length = 16 := length_setIv ..

def unitCrypt (cbc : AesCbc Key) (unitSize : Nat) (enc isMetadata : Bool) (key : Key)
    (offset : UInt64) (i : Nat) : List UInt8 → List UInt8 :=
  cbc.crypt key (unitIv offset unitSize isMetadata i) enc

section Units

variable {cbc : AesCbc Key} {unitSize : Nat} {enc isMetadata : Bool} {key : Key} {offset : UInt64}

theorem unitCrypt_keepsBlocks (hSize : 16 ∣ unitSize) :
    KeepsBlocks unitSize (unitCrypt cbc unitSize enc isMetadata key offset) := by
  intro i xs hLen
  refine (cbc.length_crypt _ _ _ _ (length_unitIv ..) ?_).trans hLen
  rwa [hLen]

theorem unitCrypt_leftInverse (hSize : 16 ∣ unitSize) (i : Nat) {xs : List UInt8}
    (hLen : xs.length = unitSize) :
    unitCrypt cbc unitSize false isMetadata key offset i
      (unitCrypt cbc unitSize true isMetadata key offset i xs) = xs := by
  refine cbc.decrypt_encrypt _ _ _ (length_unitIv ..) ?_
  rwa [hLen]

theorem offset_succ (offset : UInt64) (i unitSize : Nat) :
    offset + UInt64.ofNat (i * unitSize) + UInt64.ofNat unitSize =
      offset + UInt64.ofNat ((i + 1) * unitSize) := by
  rw [Nat.succ_mul, UInt64.ofNat_add, UInt64.add_assoc]

theorem qcow2Encrypt_eq_blockwise (i n : Nat) (inBuf : List UInt8) :
    qcow2Encrypt cbc unitSize enc isMetadata key n (offset + UInt64.ofNat (i * unitSize)) inBuf =
      blockwise unitSize (unitCrypt cbc unitSize enc isMetadata key offset) i n inBuf := by
  induction n generalizing i inBuf with
  | zero => rfl
  | succ n ih =>
    rw [qcow2Encrypt, blockwise, offset_succ, ih]
    rfl

theorem qcow2EncryptMem_eq_blockwiseMem (i n outBuf inBuf : Nat) (mem : Mem) :
    qcow2EncryptMem cbc unitSize enc isMetadata key n (offset + UInt64.ofNat (i * unitSize)) outBuf
        inBuf mem =
      blockwiseMem unitSize (unitCrypt cbc unitSize enc isMetadata key offset) i n outBuf inBuf
        mem := by
  induction n generalizing i outBuf inBuf mem with
  | zero => rfl
  | succ n ih =>
    rw [qcow2EncryptMem, blockwiseMem, offset_succ, ih]
    rfl

end Units

/-! ## Request by request -/

section Requests

variable (cbc : AesCbc Key) (enc : Bool) (key : Key) (sectorNum : UInt64)

def sectorCrypt : Nat → List UInt8 → List UInt8 :=
  unitCrypt cbc 512 enc false key (sectorNum * 512)

theorem sector_offset (a : Nat) :
    (sectorNum + UInt64.ofNat a) * 512 = sectorNum * 512 + UInt64.ofNat (a * 512) := by
  rw [UInt64.add_mul, UInt64.ofNat_mul]
  rfl

theorem qcow2EncryptSectors_eq_blockwise (a n : Nat) (inBuf : List UInt8) :
    qcow2EncryptSectors cbc (sectorNum + UInt64.ofNat a) inBuf n enc key =
      blockwise 512 (sectorCrypt cbc enc key sectorNum) a n inBuf := by
  rw [qcow2EncryptSectors, sector_offset, qcow2Encrypt_eq_blockwise]
  rfl

theorem qcow2EncryptSectorsMem_eq_blockwiseMem (a n outBuf inBuf : Nat) (mem : Mem) :
    qcow2EncryptSectorsMem cbc (sectorNum + UInt64.ofNat a) outBuf inBuf n enc key mem =
      blockwiseMem 512 (sectorCrypt cbc enc key sectorNum) a n outBuf inBuf mem := by
  rw [qcow2EncryptSectorsMem, sector_offset, qcow2EncryptMem_eq_blockwiseMem]
  rfl

/-- **Several requests do what one does.** The sectors before them are counted by `a`. -/
theorem cryptRequests_eq_blockwiseMem (a : Nat) (ns : List Nat) (outBuf inBuf : Nat) (mem : Mem) :
    cryptRequests cbc enc key (sectorNum + UInt64.ofNat a) ns outBuf inBuf mem =
      blockwiseMem 512 (sectorCrypt cbc enc key sectorNum) a ns.sum outBuf inBuf mem := by
  induction ns generalizing a outBuf inBuf mem with
  | nil => rfl
  | cons n ns ih =>
    rw [cryptRequests, UInt64.add_assoc, ← UInt64.ofNat_add, ih, List.sum_cons, blockwiseMem_add,
      qcow2EncryptSectorsMem_eq_blockwiseMem]

theorem cryptRequests_eq (ns : List Nat) (outBuf inBuf : Nat) (mem : Mem) :
    cryptRequests cbc enc key sectorNum ns outBuf inBuf mem =
      qcow2EncryptSectorsMem cbc sectorNum outBuf inBuf ns.sum enc key mem := by
  have hStart : sectorNum + UInt64.ofNat 0 = sectorNum := UInt64.add_zero sectorNum
  rw [← hStart, cryptRequests_eq_blockwiseMem, qcow2EncryptSectorsMem_eq_blockwiseMem]

end Requests

/-! ## Bytes and IVs -/

section Bytes

variable (cbc : AesCbc Key) (key : Key) (sectorNum : UInt64)

theorem sectorCrypt_keepsBlocks (enc : Bool) : KeepsBlocks 512 (sectorCrypt cbc enc key sectorNum) :=
  unitCrypt_keepsBlocks (by decide)

theorem cryptRequests_eq_store (enc : Bool) (a : Nat) {ns : List Nat} {outBuf inBuf : Nat}
    (mem : Mem) (h : InPlaceOrApart outBuf inBuf (ns.sum * 512)) :
    cryptRequests cbc enc key (sectorNum + UInt64.ofNat a) ns outBuf inBuf mem = store mem outBuf
        (blockwise 512 (sectorCrypt cbc enc key sectorNum) a ns.sum
          (load mem inBuf (ns.sum * 512))) := by
  have hOrder : outBuf ≤ inBuf ∨ inBuf + ns.sum * 512 ≤ outBuf := by
    rcases h with h | h | h
    · exact .inl (Nat.le_of_eq h)
    · exact .inl (Nat.le_trans (Nat.le_add_right ..) h)
    · exact .inr h
  rw [cryptRequests_eq_blockwiseMem,
    blockwiseMem_eq_store (sectorCrypt_keepsBlocks cbc key sectorNum enc) a mem hOrder]

theorem load_cryptRequests_cryptRequests {ns ms : List Nat} {a outBuf inBuf outBuf' : Nat}
    (mem : Mem) (hIn : a + ms.sum ≤ ns.sum) (hEnc : InPlaceOrApart outBuf inBuf (ns.sum * 512))
    (hDec : InPlaceOrApart outBuf' (outBuf + a * 512) (ms.sum * 512)) :
    load (cryptRequests cbc false key (sectorNum + UInt64.ofNat a) ms outBuf' (outBuf + a * 512)
        (cryptRequests cbc true key sectorNum ns outBuf inBuf mem)) outBuf' (ms.sum * 512) =
      load mem (inBuf + a * 512) (ms.sum * 512) := by
  have hKeeps := sectorCrypt_keepsBlocks cbc key sectorNum
  have hStart : sectorNum + UInt64.ofNat 0 = sectorNum := UInt64.add_zero sectorNum
  have hFront : a * 512 ≤ ns.sum * 512 := Nat.mul_le_mul_right 512 (by omega)
  have hPart : ms.sum * 512 ≤ ns.sum * 512 - a * 512 := by
    rw [← Nat.sub_mul]
    exact Nat.mul_le_mul_right 512 (by omega)
  -- the ciphertext that the second requests find is that of the same sectors
  have hFound : load (cryptRequests cbc true key sectorNum ns outBuf inBuf mem)
      (outBuf + a * 512) (ms.sum * 512) =
      blockwise 512 (sectorCrypt cbc true key sectorNum) a ms.sum
        (load mem (inBuf + a * 512) (ms.sum * 512)) := by
    have hCipher := length_blockwise (hKeeps true) 0 (length_load mem inBuf (ns.sum * 512))
    have hSlice := blockwise_slice (hKeeps true) 0 hIn (length_load mem inBuf (ns.sum * 512))
    have hEncrypt := cryptRequests_eq_store cbc key sectorNum true 0 mem hEnc
    rw [hStart] at hEncrypt
    have hAll := load_store_self mem outBuf
      (blockwise 512 (sectorCrypt cbc true key sectorNum) 0 ns.sum (load mem inBuf (ns.sum * 512)))
    rw [hCipher] at hAll
    rw [Nat.zero_add, drop_load _ _ hFront, take_load _ _ hPart, ← hAll, drop_load _ _ hFront,
      take_load _ _ hPart] at hSlice
    rw [hEncrypt]
    exact hSlice
  have hBack : blockwise 512 (sectorCrypt cbc false key sectorNum) a ms.sum
      (load (cryptRequests cbc true key sectorNum ns outBuf inBuf mem) (outBuf + a * 512)
        (ms.sum * 512)) = load mem (inBuf + a * 512) (ms.sum * 512) := by
    rw [hFound]
    exact blockwise_leftInverse (hKeeps true)
      (fun i _ hLen => unitCrypt_leftInverse (by decide) i hLen) a (length_load ..)
  rw [cryptRequests_eq_store cbc key sectorNum false a _ hDec, hBack]
  have hLoad := load_store_self (cryptRequests cbc true key sectorNum ns outBuf inBuf mem) outBuf'
    (load mem (inBuf + a * 512) (ms.sum * 512))
  rwa [length_load] at hLoad

end Bytes

theorem setIv_data_ne_metadata (offset offset' : UInt64) : setIv offset false ≠ setIv offset' true := by
  intro h
  have hFlag : le64 0 = le64 0xffffffffffffffff := List.append_inj_right h (by simp)
  exact absurd (le64_injective hFlag) (by decide)

theorem unitIv_ne {offset offset' : UInt64} {unitSize unitSize' i i' : Nat} (isMetadata : Bool)
    (h : offset.toNat + i * unitSize < 2 ^ 63) (h' : offset'.toNat + i' * unitSize' < 2 ^ 63)
    (hNe : offset.toNat + i * unitSize ≠ offset'.toNat + i' * unitSize') :
    unitIv offset unitSize isMetadata i ≠ unitIv offset' unitSize' isMetadata i' := by
  have hNat : ∀ {o : UInt64} {n : Nat}, o.toNat + n < 2 ^ 63 →
      (o + UInt64.ofNat n).toNat = o.toNat + n := by
    intro o n hLt
    rw [UInt64.toNat_add, UInt64.toNat_ofNat', Nat.add_mod_mod, Nat.mod_eq_of_lt (by omega)]
  intro hEq
  have hOffset := congrArg UInt64.toNat (setIv_injective isMetadata hEq)
  rw [hNat h, hNat h'] at hOffset
  exact hNe hOffset

theorem toNat_sector {t : Nat} (h : t * 512 < 2 ^ 63) : (UInt64.ofNat t * 512).toNat = t * 512 := by
  have hT : (UInt64.ofNat t).toNat = t := by
    rw [UInt64.toNat_ofNat']
    exact Nat.mod_eq_of_lt (by omega)
  have hMul : (UInt64.ofNat t * 512).toNat = t * 512 % 2 ^ 64 := by
    rw [UInt64.toNat_mul, hT]
    rfl
  rw [hMul]
  exact Nat.mod_eq_of_lt (by omega)

theorem sectorIv_ne {t t' : Nat} (h : t * 512 < 2 ^ 63) (h' : t' * 512 < 2 ^ 63) (hNe : t ≠ t') :
    unitIv (UInt64.ofNat t * 512) 512 false 0 ≠ unitIv (UInt64.ofNat t' * 512) 512 false 0 := by
  refine unitIv_ne false ?_ ?_ ?_ <;> simp only [Nat.zero_mul, Nat.add_zero, toNat_sector h, toNat_sector h']
  · exact h
  · exact h'
  · omega

/-! ## Together -/

structure SectorEncryption (cbc : AesCbc Key) (key : Key) : Prop where
  /-- requests that follow each other leave the memory that one request leaves -/
  requests : ∀ enc sectorNum ns outBuf inBuf mem,
    cryptRequests cbc enc key sectorNum ns outBuf inBuf mem =
      qcow2EncryptSectorsMem cbc sectorNum outBuf inBuf ns.sum enc key mem
  /-- in place or not, they leave the same bytes, and nothing else changes -/
  bytes : ∀ enc sectorNum ns outBuf inBuf mem, InPlaceOrApart outBuf inBuf (ns.sum * 512) →
    cryptRequests cbc enc key sectorNum ns outBuf inBuf mem =
      store mem outBuf
        (qcow2EncryptSectors cbc sectorNum (load mem inBuf (ns.sum * 512)) ns.sum enc key)
  /-- sectors `a, a + 1, …` of what was encrypted, decrypted by requests of other sizes -/
  restores : ∀ sectorNum ns outBuf inBuf mem, InPlaceOrApart outBuf inBuf (ns.sum * 512) →
    ∀ a ms outBuf', a + ms.sum ≤ ns.sum →
      InPlaceOrApart outBuf' (outBuf + a * 512) (ms.sum * 512) →
      load (cryptRequests cbc false key (sectorNum + UInt64.ofNat a) ms outBuf' (outBuf + a * 512)
          (cryptRequests cbc true key sectorNum ns outBuf inBuf mem)) outBuf' (ms.sum * 512) =
        load mem (inBuf + a * 512) (ms.sum * 512)
  /-- unit `i` of a call is one message under `unitIv` -/
  units : ∀ unitSize enc isMetadata n offset inBuf,
    qcow2Encrypt cbc unitSize enc isMetadata key n offset inBuf =
      blockwise unitSize (fun i => cbc.crypt key (unitIv offset unitSize isMetadata i) enc) 0 n inBuf
  /-- data and metadata have no IV in common -/
  kinds : ∀ sectorNum i offset unitSize j,
    unitIv (sectorNum * 512) 512 false i ≠ unitIv offset unitSize true j
  /-- nor have units of one kind at different non-negative 64-bit offsets -/
  offsets : ∀ isMetadata offset unitSize i offset' unitSize' i',
    offset.toNat + i * unitSize < 2 ^ 63 → offset'.toNat + i' * unitSize' < 2 ^ 63 →
    offset.toNat + i * unitSize ≠ offset'.toNat + i' * unitSize' →
    unitIv offset unitSize isMetadata i ≠ unitIv offset' unitSize' isMetadata i'
  /-- in particular different sectors of a disk -/
  sectors : ∀ t t', t * 512 < 2 ^ 63 → t' * 512 < 2 ^ 63 → t ≠ t' →
    unitIv (UInt64.ofNat t * 512) 512 false 0 ≠ unitIv (UInt64.ofNat t' * 512) 512 false 0

/-- **Sectors do not depend on requests.** For every AES-CBC and every key. -/
theorem sector_requests (cbc : AesCbc Key) (key : Key) : SectorEncryption cbc key where
  requests enc sectorNum ns outBuf inBuf mem :=
    cryptRequests_eq cbc enc key sectorNum ns outBuf inBuf mem
  bytes enc sectorNum ns outBuf inBuf mem hBuf := by
    have hStart : sectorNum + UInt64.ofNat 0 = sectorNum := UInt64.add_zero sectorNum
    have hStore := cryptRequests_eq_store cbc key sectorNum enc 0 mem hBuf
    rw [← qcow2EncryptSectors_eq_blockwise, hStart] at hStore
    exact hStore
  restores sectorNum ns outBuf inBuf mem hEnc a ms outBuf' hIn hDec :=
    load_cryptRequests_cryptRequests cbc key sectorNum mem hIn hEnc hDec
  units unitSize enc isMetadata n offset inBuf := by
    have hStart : offset + UInt64.ofNat (0 * unitSize) = offset := by
      rw [Nat.zero_mul]
      exact UInt64.add_zero offset
    have hUnits := @qcow2Encrypt_eq_blockwise _ cbc unitSize enc isMetadata key offset 0 n inBuf
    rw [hStart] at hUnits
    exact hUnits
  kinds sectorNum i offset unitSize j := setIv_data_ne_metadata _ _
  offsets isMetadata offset unitSize i offset' unitSize' i' h h' hNe := unitIv_ne isMetadata h h' hNe
  sectors t t' h h' hNe := sectorIv_ne h h' hNe

end Lacuna.Qcow2
