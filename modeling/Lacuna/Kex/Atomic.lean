import Lacuna.Lib.Trace
import Lacuna.Kex.Agreement

/-!
# The two keys of a kernel context

A kernel context has its key twice: in `cctx->key`, and in the cipher, which gets it
from `crypto_blkcipher_setkey`. `priv_set_key` of `crypto.c` writes the first before
it tries the second. `CipherCctx` is the context of `Kex/Kernel` with the key of the
cipher beside it; `CipherCctx.processKexMsg_kex` says that nothing else is different.
-/

namespace Lacuna.Kex

open Lacuna.Lib Lacuna.Crypt

/-! ## The context with its cipher -/

structure CipherCctx where
  kex : KexCctx
  /-- the key of `cctx->cipher` -/
  cipherKey : List UInt8
  deriving DecidableEq

namespace CipherCctx

/-- The cipher keeps its key if `crypto_blkcipher_setkey` fails. -/
def privSetKey (env : KernEnv) (c : CipherCctx) (keySize : Nat) (key : List UInt8) :
    Int × CipherCctx :=
  if keySize ≠ c.kex.keySize then (-EINVAL, c)
  else
    let c := { c with kex.cctx.key := key.take keySize }
    match env.fault .setkey with
    | some n => (Fault.rc n, c)
    | none => (0, { c with cipherKey := c.kex.cctx.key.take keySize })

def processKexMsg (tls : Tls1Prf) (env : KernEnv) (c : CipherCctx) (outSz inSz : Nat) :
    Int × Nat × CipherCctx :=
  let msgType := c.kex.kexBuf.headD 0
  if inSz < 1 then (-1, outSz, c)
  else if msgType = PRIV_CRYPT_KEX_PARAMS then
    if (env.fault .symbolRequest).isSome then (-1, outSz, c)
    else if (env.fault .init).isSome then (-ENOMEM, outSz, c)
    else
      let (r, rest) := cmDhmRespond env (outSz - 1) (inSz - 1) c.kex.kexBuf.tail
      let c := { c with kex.kexBuf := PRIV_CRYPT_KEX_RESPONSE :: rest }
      match r with
      | .error rc => (rc, outSz - 1, c)
      | .ok (ctx, outLen) =>
        match cmDhmGetKey tls env ctx c.kex.keySize with
        | .error rc => (rc, outLen + 1, c)
        | .ok key =>
          let (rc, c) := c.privSetKey env c.kex.keySize key
          (rc, outLen + 1, c)
  else if msgType = PRIV_CRYPT_KEX_DEBUG then
    (0, debugMsg.length, { c with kex.kexBuf := overwrite debugMsg c.kex.kexBuf })
  else (-1, outSz, c)

theorem privSetKey_kex (env : KernEnv) (c : CipherCctx) (keySize : Nat) (key : List UInt8) :
    (Kex.privSetKey env c.kex keySize key) =
      ((c.privSetKey env keySize key).1, (c.privSetKey env keySize key).2.kex) := by
  unfold Kex.privSetKey privSetKey
  split
  · rfl
  · cases env.fault .setkey with
    | some n => rfl
    | none => rfl

/-- Without the key of the cipher, this is the context that the exchange works on. -/
theorem processKexMsg_kex (tls : Tls1Prf) (env : KernEnv) (c : CipherCctx) (outSz inSz : Nat) :
    Kex.processKexMsg tls env c.kex outSz inSz =
      ((c.processKexMsg tls env outSz inSz).1, (c.processKexMsg tls env outSz inSz).2.1,
        (c.processKexMsg tls env outSz inSz).2.2.kex) := by
  unfold Kex.processKexMsg processKexMsg
  dsimp only
  split
  · rfl
  split
  · split
    · rfl
    split
    · rfl
    cases cmDhmRespond env (outSz - 1) (inSz - 1) c.kex.kexBuf.tail with
    | mk r rest =>
    cases r with
    | error rc => rfl
    | ok r =>
      dsimp only
      cases cmDhmGetKey tls env r.1 c.kex.keySize with
      | error rc => rfl
      | ok key =>
        exact congrArg (fun s => (s.1, r.2 + 1, s.2)) (privSetKey_kex env
          { c with kex.kexBuf := PRIV_CRYPT_KEX_RESPONSE :: rest } c.kex.keySize key)
  split
  · rfl
  · rfl

end CipherCctx

/-- The key that a message comes to, if it gets as far as `priv_set_key`. -/
def msgKey (tls : Tls1Prf) (env : KernEnv) (k : KexCctx) (outSz inSz : Nat) : Option (List UInt8) :=
  if inSz < 1 then none
  else if k.kexBuf.headD 0 = PRIV_CRYPT_KEX_PARAMS then
    if (env.fault .symbolRequest).isSome then none
    else if (env.fault .init).isSome then none
    else
      match (cmDhmRespond env (outSz - 1) (inSz - 1) k.kexBuf.tail).1 with
      | .error _ => none
      | .ok (ctx, _) =>
        match cmDhmGetKey tls env ctx k.keySize with
        | .error _ => none
        | .ok key => some key
  else none

/-! ## One message -/

theorem length_debugMsg : debugMsg.length = 257 := by
  rw [debugMsg, List.length_cons, List.length_map, List.length_range]

theorem cmDhmRespond_fits {env : KernEnv} {outBufLen inBufLen outLen : Nat} {buf rest : List UInt8}
    {ctx : DhmContext} (h : cmDhmRespond env outBufLen inBufLen buf = (.ok (ctx, outLen), rest)) :
    outLen ≤ outBufLen := by
  unfold cmDhmRespond at h
  split at h
  · cases h
  split at h
  · cases h
  rename_i ctx₀ _ hLen
  split at h
  · cases h
  rename_i ctx₁ out hMake
  split at h
  · cases h
  rename_i ctx₂ hCalc
  obtain ⟨Y, GY, -, -, rfl, -⟩ := dhmMakePublic_ok hMake
  obtain rfl := dhmCalcSecretNoExport_ok hCalc
  cases h
  exact Nat.not_lt.mp hLen

section Message

variable {tls : Tls1Prf} {env : KernEnv} {c : CipherCctx} {outSz inSz : Nat}

inductive KeyEffect (tls : Tls1Prf) (env : KernEnv) (c : CipherCctx) (outSz inSz : Nat)
    (r : Int × Nat × CipherCctx) : Prop
  /-- no key has been computed: an error, or the debug message -/
  | kept (hKey : msgKey tls env c.kex outSz inSz = none)
      (hSame : r.2.2.kex.cctx.key = c.kex.cctx.key) (hCipher : r.2.2.cipherKey = c.cipherKey)
      (hRc : r.1 < 0 ∨ r.1 = 0 ∧ r.2.1 = debugMsg.length)
  /-- `crypto_blkcipher_setkey` has refused the key -/
  | refused (key : List UInt8) (hKey : msgKey tls env c.kex outSz inSz = some key)
      (hFault : (env.fault .setkey).isSome) (hSet : r.2.2.kex.cctx.key = key.take c.kex.keySize)
      (hCipher : r.2.2.cipherKey = c.cipherKey) (hRc : r.1 < 0)
  | installed (key : List UInt8) (hKey : msgKey tls env c.kex outSz inSz = some key)
      (hFault : env.fault .setkey = none) (hSet : r.2.2.kex.cctx.key = key.take c.kex.keySize)
      (hCipher : r.2.2.cipherKey = key.take c.kex.keySize) (hRc : r.1 = 0)
      (hSize : 1 ≤ r.2.1 ∧ r.2.1 ≤ outSz - 1 + 1)

theorem cmDhmGetKey_error {ctx : DhmContext} {keyLen : Nat} {rc : Int}
    (h : cmDhmGetKey tls env ctx keyLen = .error rc) : rc < 0 := by
  unfold cmDhmGetKey at h
  split at h
  · cases h
    decide
  · cases h

/-- **One message.** -/
theorem CipherCctx.processKexMsg_effect :
    KeyEffect tls env c outSz inSz (c.processKexMsg tls env outSz inSz) := by
  unfold CipherCctx.processKexMsg
  dsimp only
  by_cases hShort : inSz < 1
  · rw [if_pos hShort]
    exact .kept (if_pos hShort) rfl rfl (.inl (show (-1 : Int) < 0 by decide))
  rw [if_neg hShort]
  by_cases hType : c.kex.kexBuf.headD 0 = PRIV_CRYPT_KEX_PARAMS
  case neg =>
    have hNone : msgKey tls env c.kex outSz inSz = none := by
      rw [msgKey, if_neg hShort, if_neg hType]
    rw [if_neg hType]
    split
    · exact .kept hNone rfl rfl (.inr ⟨rfl, rfl⟩)
    · exact .kept hNone rfl rfl (.inl (show (-1 : Int) < 0 by decide))
  rw [if_pos hType]
  by_cases hSymbol : (env.fault .symbolRequest).isSome
  · rw [if_pos hSymbol]
    refine .kept ?_ rfl rfl (.inl (show (-1 : Int) < 0 by decide))
    rw [msgKey, if_neg hShort, if_pos hType, if_pos hSymbol]
  rw [if_neg hSymbol]
  by_cases hInit : (env.fault .init).isSome
  · rw [if_pos hInit]
    refine .kept ?_ rfl rfl (.inl (show -ENOMEM < 0 by decide))
    rw [msgKey, if_neg hShort, if_pos hType, if_neg hSymbol, if_pos hInit]
  rw [if_neg hInit]
  obtain ⟨o, hMsg⟩ : ∃ o, msgKey tls env c.kex outSz inSz = o := ⟨_, rfl⟩
  have hVal := hMsg
  rw [msgKey, if_neg hShort, if_pos hType, if_neg hSymbol, if_neg hInit] at hVal
  cases hResp : cmDhmRespond env (outSz - 1) (inSz - 1) c.kex.kexBuf.tail with
  | mk r rest =>
  rw [hResp] at hVal
  cases r with
  | error rc => exact .kept (hMsg.trans hVal.symm) rfl rfl (.inl (cmDhmRespond_error hResp))
  | ok r =>
  obtain ⟨ctx, outLen⟩ := r
  dsimp only at hVal ⊢
  cases hGet : cmDhmGetKey tls env ctx c.kex.keySize with
  | error rc =>
    rw [hGet] at hVal
    exact .kept (hMsg.trans hVal.symm) rfl rfl (.inl (cmDhmGetKey_error hGet))
  | ok key =>
  rw [hGet] at hVal
  have hKey := hMsg.trans hVal.symm
  dsimp only [CipherCctx.privSetKey]
  rw [if_neg (not_not.mpr rfl)]
  cases hFault : env.fault .setkey with
  | some n =>
    refine .refused key hKey (by rw [hFault]; rfl) rfl rfl ?_
    show Fault.rc n < 0
    unfold Fault.rc
    omega
  | none =>
    refine .installed key hKey hFault rfl ?_ rfl ⟨Nat.le_add_left 1 outLen, ?_⟩
    · show (key.take c.kex.keySize).take c.kex.keySize = _
      rw [List.take_take, Nat.min_self]
    · exact Nat.add_le_add_right (cmDhmRespond_fits hResp) 1

end Message

/-! ## Sequences of messages -/

/-- A message in `kex_buf`, and what the kernel meets while it answers. -/
structure KexMsg where
  env : KernEnv
  buf : List UInt8
  inSz : Nat
  length_buf : buf.length = MAX_KEX_MSG_LEN
  inSz_le : inSz ≤ MAX_KEX_MSG_LEN

namespace KexMsg

def run (tls : Tls1Prf) (c : CipherCctx) (m : KexMsg) : Int × Nat × CipherCctx :=
  CipherCctx.processKexMsg tls m.env { c with kex.kexBuf := m.buf } MAX_KEX_MSG_LEN m.inSz

def Step (tls : Tls1Prf) (c : CipherCctx) (m : KexMsg) (c' : CipherCctx) : Prop :=
  c' = (m.run tls c).2.2

/-- An error leaves both keys alone; an answer leaves them equal. -/
structure Atomic (tls : Tls1Prf) (c : CipherCctx) (m : KexMsg) : Prop where
  failed : (m.run tls c).1 < 0 →
    (m.run tls c).2.2.kex.cctx.key = c.kex.cctx.key ∧ (m.run tls c).2.2.cipherKey = c.cipherKey
  size : (m.run tls c).1 = 0 → 1 ≤ (m.run tls c).2.1 ∧ (m.run tls c).2.1 ≤ MAX_KEX_MSG_LEN
  agree : (m.run tls c).1 = 0 → (m.run tls c).2.2.kex.cctx.key = (m.run tls c).2.2.cipherKey

/-- `crypto_blkcipher_setkey` refuses no key but the one that the context has. -/
def KeyAccepted (tls : Tls1Prf) (c : CipherCctx) (m : KexMsg) : Prop :=
  ∀ key, msgKey tls m.env { c.kex with kexBuf := m.buf } MAX_KEX_MSG_LEN m.inSz = some key →
    (m.env.fault .setkey).isSome → key.take c.kex.keySize = c.kex.cctx.key

end KexMsg

section Messages

variable {tls : Tls1Prf} {c : CipherCctx}

theorem KexMsg.atomic_of_accepted (hAgree : c.kex.cctx.key = c.cipherKey) {m : KexMsg}
    (hAccepted : m.KeyAccepted tls c) :
    m.Atomic tls c ∧ (m.run tls c).2.2.kex.cctx.key = (m.run tls c).2.2.cipherKey := by
  have hEffect : KeyEffect tls m.env { c with kex.kexBuf := m.buf } MAX_KEX_MSG_LEN m.inSz
      (m.run tls c) := CipherCctx.processKexMsg_effect
  cases hEffect with
  | kept hKey hSame hCipher hRc =>
    have hBoth : (m.run tls c).2.2.kex.cctx.key = (m.run tls c).2.2.cipherKey := by
      rw [hSame, hCipher]
      exact hAgree
    refine ⟨⟨fun _ => ⟨hSame, hCipher⟩, fun hZero => ?_, fun _ => hBoth⟩, hBoth⟩
    rcases hRc with hNeg | ⟨-, hSize⟩
    · omega
    · rw [hSize, length_debugMsg]
      decide
  | refused key hKey hFault hSet hCipher hRc =>
    have hSame : key.take c.kex.keySize = c.kex.cctx.key := hAccepted key hKey hFault
    have hBoth : (m.run tls c).2.2.kex.cctx.key = (m.run tls c).2.2.cipherKey := by
      rw [hSet, hCipher]
      exact hSame.trans hAgree
    refine ⟨⟨fun _ => ⟨hSet.trans hSame, hCipher⟩, fun hZero => ?_, fun hZero => ?_⟩, hBoth⟩
    · omega
    · omega
  | installed key hKey hFault hSet hCipher hRc hSize =>
    have hBoth := hSet.trans hCipher.symm
    exact ⟨⟨fun hNeg => absurd hNeg (by omega), fun _ => hSize, fun _ => hBoth⟩, hBoth⟩

theorem KexMsg.Atomic.accepted {m : KexMsg} (h : m.Atomic tls c) : m.KeyAccepted tls c := by
  intro key hKey hFault
  have hEffect : KeyEffect tls m.env { c with kex.kexBuf := m.buf } MAX_KEX_MSG_LEN m.inSz
      (m.run tls c) := CipherCctx.processKexMsg_effect
  cases hEffect with
  | kept hNone => cases hKey.symm.trans hNone
  | refused key' hKey' _ hSet _ hRc =>
    cases hKey.symm.trans hKey'
    exact hSet.symm.trans (h.failed hRc).1
  | installed _ _ hNone =>
    rw [hNone] at hFault
    cases hFault

/-- **Error-atomic**, for every context whose keys are equal, whatever messages come and
whatever fails. -/
theorem kex_atomic_iff {tr : Trace CipherCctx KexMsg} (hAgree : c.kex.cctx.key = c.cipherKey)
    (hTr : IsTrace (KexMsg.Step tls) c tr) :
    EachStep (fun c m => m.Atomic tls c) c tr ↔ EachStep (fun c m => m.KeyAccepted tls c) c tr := by
  refine eachStep_iff_of_inv
    (fun c m c' (hAgree : c.kex.cctx.key = c.cipherKey) hStep hAccepted => ?_)
    (fun c m c' _ _ hAtomic => hAtomic.accepted) hAgree hTr
  obtain rfl := hStep
  exact KexMsg.atomic_of_accepted hAgree hAccepted

end Messages

def smallParams (setkey : Fault) : KexMsg where
  env := { fault := fun call => if call = .setkey then setkey else none, random := 3 }
  buf := overwrite (PRIV_CRYPT_KEX_PARAMS :: paramsMsg 23 5 8) (List.replicate MAX_KEX_MSG_LEN 0)
  inSz := 12
  length_buf := by decide +kernel
  inSz_le := by decide

def blankCipher : CipherCctx := ⟨blankKern, List.replicate 16 0⟩

theorem kex_atomic_sample :
    ∃ tr : Trace CipherCctx KexMsg, tr.map Prod.fst = [smallParams none, smallParams none] ∧
      EachStep (fun c m => m.Atomic repeatPrf c) blankCipher tr ∧
      (lastState blankCipher tr).kex.cctx.key ≠ blankCipher.kex.cctx.key := by
  have hTr : IsTrace (KexMsg.Step repeatPrf) blankCipher
      [(smallParams none, _), (smallParams none, _)] := ⟨rfl, rfl, trivial⟩
  refine ⟨_, rfl, (kex_atomic_iff rfl hTr).mpr ⟨?_, ?_, trivial⟩, ?_⟩
  · exact fun _ _ hFault => Bool.noConfusion hFault
  · exact fun _ _ hFault => Bool.noConfusion hFault
  · decide +kernel

/-- `crypto_blkcipher_setkey` fails on a new key: the context has it and the cipher has not. -/
theorem refused_key_stays :
    ∃ tr : Trace CipherCctx KexMsg, tr.map Prod.fst = [smallParams (some 0)] ∧
      IsTrace (KexMsg.Step repeatPrf) blankCipher tr ∧
      ((smallParams (some 0)).run repeatPrf blankCipher).1 < 0 ∧
      (lastState blankCipher tr).kex.cctx.key ≠ blankCipher.kex.cctx.key ∧
      (lastState blankCipher tr).cipherKey = blankCipher.cipherKey ∧
      ¬ EachStep (fun c m => m.Atomic repeatPrf c) blankCipher tr := by
  have hNeg : ((smallParams (some 0)).run repeatPrf blankCipher).1 < 0 := by decide +kernel
  have hKey : ((smallParams (some 0)).run repeatPrf blankCipher).2.2.kex.cctx.key ≠
      blankCipher.kex.cctx.key := by decide +kernel
  refine ⟨[(_, _)], rfl, ⟨rfl, trivial⟩, hNeg, hKey, by decide +kernel, ?_⟩
  exact fun hAll => hKey (hAll.1.failed hNeg).1

end Lacuna.Kex
