import Lacuna.Crypt.Control
import Lacuna.Lib.Mem

/-!
# What is left of the keys

Both ends of a channel clear the memory of a key before they free it, and both
clear as many bytes as the operand of `sizeof` has, which is not the key: the
kernel one element of an array (`kernel_key_erasure_iff`), the library the size
of a pointer (`user_key_erasure_iff`).
-/

namespace Lacuna.Crypt

open Lacuna.Lib Lacuna.Kex List

/-! ## A context of the kernel -/

def MAX_KEY_LEN : Nat := 64

/-- The memory of a context. `key[MAX_KEY_LEN]` is the key and what is behind
it. -/
structure CtxMem where
  k : KexCctx
  spare : List UInt8
  deriving DecidableEq

namespace CtxMem

def keyArray (m : CtxMem) : List UInt8 := m.k.cctx.key ++ m.spare

/-- `make_crypto_ctx`, from zeroed memory, with the temporary key. -/
def make (d : Control) (c : Nat) (desc : AlgDesc) (kexBuf : List UInt8) : CtxMem where
  k := (d.addCtx c desc kexBuf).kexCctx c
  spare := List.replicate (MAX_KEY_LEN - desc.keySize.toNat) 0

def sizeofKey : Nat := 1

def destroyCryptoCtx (m : CtxMem) : List UInt8 :=
  overwrite (List.replicate sizeofKey 0) m.keyArray

end CtxMem

inductive CtxOp where
  | keyExchange (env : KernEnv) (inBuf : List UInt8)
  | setIv (desc : IvDesc)
  | setActivated (activated : Bool)
  | crypt (blk : Blkcipher) (data : List UInt8)

namespace CtxOp

def effect (tls : Tls1Prf) (k : KexCctx) : CtxOp → KexCctx
  | .keyExchange env inBuf => (kexIoctl tls env k inBuf).2
  | .setIv desc => { k with cctx := (Control.privSetIv desc k.cctx).2 }
  | .setActivated activated => { k with cctx := privSetActivated k.cctx activated }
  | .crypt blk data => { k with cctx := (privCrypt blk k.cctx data).2.2 }

def Step (tls : Tls1Prf) (m : CtxMem) (op : CtxOp) (m' : CtxMem) : Prop :=
  m' = { m with k := op.effect tls m.k }

end CtxOp

section Kernel

variable {tls : Tls1Prf} {k : KexCctx} {n : Nat}

theorem CtxOp.sized_effect (h : k.Sized n) (op : CtxOp) : (op.effect tls k).Sized n := by
  cases op with
  | keyExchange env inBuf => exact h.kexIoctl
  | setIv desc =>
    refine ⟨h.keySize_eq, ?_⟩
    show (Control.privSetIv desc k.cctx).2.key.length = n
    unfold Control.privSetIv
    split
    · exact h.length_key
    · exact h.length_key
  | setActivated activated => exact ⟨h.keySize_eq, h.length_key⟩
  | crypt blk data =>
    refine ⟨h.keySize_eq, ?_⟩
    obtain ⟨ctr, hCtx⟩ := privCrypt_frame blk k.cctx data
    show (privCrypt blk k.cctx data).2.2.key.length = n
    rw [hCtx]
    exact h.length_key

theorem sized_make (d : Control) (c : Nat) (desc : AlgDesc) (kexBuf : List UInt8) :
    (CtxMem.make d c desc kexBuf).k.Sized desc.keySize.toNat where
  keySize_eq := by simp [CtxMem.make, Control.addCtx, Control.kexCctx]
  length_key := by simp [CtxMem.make, Control.addCtx, Control.kexCctx, makeCryptoCtx]

/-- The key fills its part of the array, and the rest of it is never written. -/
structure CtxMem.Inv (m : CtxMem) (n : Nat) : Prop where
  sized : m.k.Sized n
  spare_eq : m.spare = List.replicate (MAX_KEY_LEN - n) 0

theorem CtxMem.Inv.key_eq {m : CtxMem} (h : m.Inv n) (hPos : 0 < n) :
    m.destroyCryptoCtx = 0 :: (m.k.cctx.key.tail ++ replicate (MAX_KEY_LEN - n) 0) := by
  have hLen := h.sized.length_key
  unfold CtxMem.destroyCryptoCtx CtxMem.keyArray
  rw [h.spare_eq]
  cases hKey : m.k.cctx.key with
  | nil =>
    rw [hKey] at hLen
    simp only [length_nil] at hLen
    omega
  | cons b bs => rfl

end Kernel

/-- **Kernel key erasure.** Of all keys only the last is in the memory that is freed, without
its first byte, so that it is zero exactly if the rest of that key is. -/
theorem kernel_key_erasure_iff {tls : Tls1Prf} {d : Control} {c : Nat} {desc : AlgDesc}
    {kexBuf : List UInt8} {tr : Trace CtxMem CtxOp}
    (hSize : desc.keySize = 16 ∨ desc.keySize = 24 ∨ desc.keySize = 32)
    (hTr : IsTrace (CtxOp.Step tls) (CtxMem.make d c desc kexBuf) tr) :
    let m := lastState (CtxMem.make d c desc kexBuf) tr
    m.destroyCryptoCtx = 0 :: (m.k.cctx.key.tail ++
        List.replicate (MAX_KEY_LEN - desc.keySize.toNat) 0) ∧
      ((∀ b ∈ m.destroyCryptoCtx, b = 0) ↔ ∀ b ∈ m.k.cctx.key.tail, b = 0) := by
  intro m
  have hPos : 0 < desc.keySize.toNat := by
    rcases hSize with h | h | h <;> rw [h] <;> decide
  have hStep : ∀ m op m', m.Inv desc.keySize.toNat → CtxOp.Step tls m op m' → True →
      m'.Inv desc.keySize.toNat := by
    rintro m op m' h rfl -
    exact ⟨op.sized_effect h.sized, h.spare_eq⟩
  have hInv : m.Inv desc.keySize.toNat :=
    (eachState_of_inv (fun _ h => h) hStep ⟨sized_make d c desc kexBuf, rfl⟩ hTr
      (eachStep_trivial tr)).last
  have hKey := hInv.key_eq hPos
  refine ⟨hKey, ?_⟩
  rw [hKey]
  constructor
  · intro h b hb
    exact h b (mem_cons_of_mem _ (mem_append_left _ hb))
  · intro h b hb
    rcases List.mem_cons.mp hb with hb | hb
    · exact hb
    rcases List.mem_append.mp hb with hb | hb
    · exact h b hb
    · exact eq_of_mem_replicate hb

/-- A context is made and destroyed: the temporary key is left. -/
theorem temporary_key_left :
    (CtxMem.make emptyControl 0 { alg := 1, keySize := 16, dir := 1 } []).destroyCryptoCtx.take 16 =
      [0, 1, 2, 3, 4, 5, 6, 7, 8, 9, 10, 11, 12, 13, 14, 15] := by
  decide

def zeroPrf : Tls1Prf where
  prf _ _ _ n := some (List.replicate n 0)
  length_prf h := by
    cases h
    exact List.length_replicate

theorem zero_key_cleared :
    let m := CtxMem.make emptyControl 0 { alg := 1, keySize := 16, dir := 1 } []
    let op : CtxOp := .keyExchange { fault := fun _ => none, random := 6 }
      [1, 0, 1, 23, 0, 1, 5, 0, 1, 8, 0, 0]
    ({ m with k := op.effect zeroPrf m.k } : CtxMem).destroyCryptoCtx = List.replicate 64 0 := by
  intro m op
  have hTr : IsTrace (CtxOp.Step zeroPrf) m [(op, { m with k := op.effect zeroPrf m.k })] :=
    ⟨rfl, trivial⟩
  exact (kernel_key_erasure_iff (Or.inl rfl) hTr).1.trans (by decide +kernel)

/-! ## A key schedule of the library -/

/-- `sizeof(struct aes_ctx)`: two schedules of 240 bytes and the length of the
key. -/
def sizeofAesCtx : Nat := 484

def sizeofAesniCtx : Nat := 8

structure KeyExpansion where
  enc : List UInt8 → List UInt8
  dec : List UInt8 → List UInt8
  length_enc : ∀ key, (enc key).length ≤ 240
  length_dec : ∀ key, (dec key).length ≤ 240

/-- `struct aesni_state`, less the IV, with the memory of `aes_mem_region`. -/
structure AesniMem where
  aesMemRegion : Nat
  mem : Mem

namespace AesniMem

variable (exp : KeyExpansion)

def aesniCtx (s : AesniMem) : Nat := (s.aesMemRegion + 15) / 16 * 16

def aesniSetKey (mem : Mem) (ctx : Nat) (key : List UInt8) : Mem :=
  let mem := store mem (ctx + 480) (leBytes 4 key.length)
  let mem := store mem ctx (exp.enc key)
  store mem (ctx + 240) (exp.dec key)

def privAesniSetKey (s : AesniMem) (key : List UInt8) : AesniMem :=
  { s with mem := aesniSetKey exp s.mem s.aesniCtx key }

def privAesniDestroy (s : AesniMem) : Mem :=
  store s.mem s.aesniCtx (List.replicate sizeofAesniCtx 0)

end AesniMem

theorem AesniMem.cleared_iff (s : AesniMem) :
    (∀ i < sizeofAesCtx, s.privAesniDestroy (s.aesniCtx + i) = 0) ↔
      ∀ i, sizeofAesniCtx ≤ i → i < sizeofAesCtx → s.mem (s.aesniCtx + i) = 0 := by
  have hRest : ∀ i, sizeofAesniCtx ≤ i →
      s.privAesniDestroy (s.aesniCtx + i) = s.mem (s.aesniCtx + i) := by
    intro i hi
    exact store_of_le (by rw [length_replicate]; omega)
  constructor
  · intro h i hLow hHigh
    rw [← hRest i hLow]
    exact h i hHigh
  · intro h i hi
    by_cases hLow : i < sizeofAesniCtx
    · have hLen : i < (replicate sizeofAesniCtx (0 : UInt8)).length := by
        rwa [length_replicate]
      exact (store_of_mem hLen).trans (getElem_replicate _)
    · rw [hRest i (Nat.not_lt.mp hLow)]
      exact h i (Nat.not_lt.mp hLow) hi

theorem AesniMem.keyLen_set (exp : KeyExpansion) (s : AesniMem) (key : List UInt8) :
    (s.privAesniSetKey exp key).mem (s.aesniCtx + 480) = UInt8.ofNat key.length := by
  have hEnc := exp.length_enc key
  have hDec := exp.length_dec key
  simp only [AesniMem.privAesniSetKey, AesniMem.aesniSetKey]
  rw [store_of_le (by omega), store_of_le (by omega), leBytes, store_cons_self]

theorem AesniMem.aesniCtx_foldl (exp : KeyExpansion) (s : AesniMem) (keys : List (List UInt8)) :
    (keys.foldl (·.privAesniSetKey exp ·) s).aesniCtx = s.aesniCtx := by
  induction keys generalizing s with
  | nil => rfl
  | cons key keys ih => exact ih (s.privAesniSetKey exp key)

/-- **Userspace key erasure.** The schedule is zero when it is freed exactly if there was no key
and the memory was zero behind the first eight bytes. -/
theorem user_key_erasure_iff (exp : KeyExpansion) (s : AesniMem) {keys : List (List UInt8)}
    (hKeys : ∀ key ∈ keys, key.length = 16 ∨ key.length = 24 ∨ key.length = 32) :
    (∀ i < sizeofAesCtx,
      (keys.foldl (·.privAesniSetKey exp ·) s).privAesniDestroy (s.aesniCtx + i) = 0) ↔
      keys = [] ∧ ∀ i, sizeofAesniCtx ≤ i → i < sizeofAesCtx → s.mem (s.aesniCtx + i) = 0 := by
  have hCtx := AesniMem.aesniCtx_foldl exp s
  rcases eq_nil_or_concat keys with rfl | ⟨before, key, rfl⟩
  · simp only [foldl_nil, true_and]
    exact s.cleared_iff
  · -- the last key has left its length
    have hLast := AesniMem.keyLen_set exp (before.foldl (·.privAesniSetKey exp ·) s) key
    rw [hCtx] at hLast
    have hNe : UInt8.ofNat key.length ≠ 0 := by
      rcases hKeys key (by simp) with h | h | h <;> rw [h] <;> decide
    have hAll := (before.foldl (·.privAesniSetKey exp ·) s |>.privAesniSetKey exp key).cleared_iff
    constructor
    · intro h
      have hEnd := hCtx (before.concat key)
      rw [concat_eq_append, foldl_append, foldl_cons, foldl_nil] at h hEnd
      rw [← hEnd] at h
      have hZero := hAll.mp h 480 (by decide) (by decide)
      rw [hEnd] at hZero
      exact absurd (hLast.symm.trans hZero) hNe
    · rintro ⟨hNil, -⟩
      simp at hNil

def noExpansion : KeyExpansion where
  enc key := key.take 240
  dec _ := []
  length_enc _ := List.length_take_le ..
  length_dec _ := Nat.zero_le _

/-- A key of sixteen bytes: its second half and its length are left. -/
theorem half_key_left :
    let s : AesniMem := { aesMemRegion := 1000, mem := fun _ => 0 }
    let key : List UInt8 := [1, 2, 3, 4, 5, 6, 7, 8, 9, 10, 11, 12, 13, 14, 15, 16]
    let freed := (s.privAesniSetKey noExpansion key).privAesniDestroy
    load freed s.aesniCtx 16 = [0, 0, 0, 0, 0, 0, 0, 0, 9, 10, 11, 12, 13, 14, 15, 16] ∧
      load freed (s.aesniCtx + 480) 4 = [16, 0, 0, 0] := by
  decide

theorem unused_cleared :
    let s : AesniMem := { aesMemRegion := 1000, mem := fun _ => 0 }
    s.privAesniDestroy (s.aesniCtx + 0) = 0 ∧ s.privAesniDestroy (s.aesniCtx + 483) = 0 := by
  intro s
  have hClear := (@user_key_erasure_iff noExpansion s [] (fun _ h => nomatch h)).mpr
    ⟨rfl, fun _ _ _ => rfl⟩
  exact ⟨hClear 0 (by decide), hClear 483 (by decide)⟩

end Lacuna.Crypt
