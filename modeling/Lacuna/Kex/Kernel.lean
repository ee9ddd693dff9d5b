import Lacuna.Crypt.Context
import Lacuna.Kex.Dhm

/-!
# The kernel end of the key exchange

The `KEY_EXCHANGE` ioctl of `drivers/priv/priv_crypt_drv.c`, `process_kex_msg`
of `kex.c`, the responder of `crypto_math_drv.c` and `priv_set_key` of
`crypto.c`. A message arrives in the `kex_buf` of the context, and the answer
is written over it while it is read.
-/

namespace Lacuna.Kex

open Lacuna.Lib Lacuna.Crypt

variable {P G GX : Nat} {k k' : KexCctx} {tls : Tls1Prf}

def ENOMEM : Int := 12
def EFAULT : Int := 14

def MAX_KEX_MSG_LEN : Nat := 4096

def PRIV_CRYPT_KEX_PARAMS : UInt8 := 1
def PRIV_CRYPT_KEX_RESPONSE : UInt8 := 2
def PRIV_CRYPT_KEX_DEBUG : UInt8 := 255

def overwrite (src buf : List UInt8) : List UInt8 := src ++ buf.drop src.length

theorem take_overwrite (src buf : List UInt8) : (overwrite src buf).take src.length = src :=
  List.take_left' rfl

/-- `struct priv_crypt_ctx` with what the exchange needs besides. -/
structure KexCctx where
  cctx : PrivCryptCtx
  keySize : Nat
  kexBuf : List UInt8
  deriving DecidableEq

/-- The calls of the kernel end that may fail for reasons of their own. -/
inductive KernCall where
  | copyDesc
  | copyIn
  | copySize
  | copyOut
  | symbolRequest
  | init
  | readP
  | readG
  | readGY
  | makePublic
  | calcSecret
  | preMaster
  | setkey
  deriving DecidableEq

/-- What the kernel end meets: the failures of its calls and what its generator draws. -/
structure KernEnv where
  fault : KernCall → Fault
  random : Nat

/-- On the bytes after the type: the context and the length of the answer, if there is one, and
the buffer. -/
def cmDhmRespond (env : KernEnv) (outBufLen inBufLen : Nat) (buf : List UInt8) :
    Except Int (DhmContext × Nat) × List UInt8 :=
  match dhmReadParams (env.fault .readP) (env.fault .readG) (env.fault .readGY)
      (buf.take inBufLen) with
  | .error _ => (.error (-1), buf)
  | .ok ctx =>
    if outBufLen < ctx.len then (.error (-ENOMEM), buf)
    else
      match dhmMakePublic (env.fault .makePublic) ctx ctx.len env.random with
      | .error _ => (.error (-1), buf)
      | .ok (ctx, out) =>
        match dhmCalcSecretNoExport (env.fault .calcSecret) ctx with
        | .error _ => (.error (-1), overwrite out buf)
        | .ok ctx => (.ok (ctx, ctx.len), overwrite out buf)

def cmDhmGetKey (tls : Tls1Prf) (env : KernEnv) (ctx : DhmContext) (keyLen : Nat) :
    Except Int (List UInt8) :=
  match calcSecret tls (env.fault .preMaster) keyLen ctx with
  | none => .error (-1)
  | some key => .ok key

def privSetKey (env : KernEnv) (k : KexCctx) (keySize : Nat) (key : List UInt8) : Int × KexCctx :=
  if keySize ≠ k.keySize then (-EINVAL, k)
  else
    let k := { k with cctx := { k.cctx with key := key.take keySize } }
    match env.fault .setkey with
    | some n => (Fault.rc n, k)
    | none => (0, k)

def debugMsg : List UInt8 := PRIV_CRYPT_KEX_DEBUG :: (List.range 256).map UInt8.ofNat

/-- With one buffer: the return code, `out_sz` and the context afterwards. -/
def processKexMsg (tls : Tls1Prf) (env : KernEnv) (k : KexCctx) (outSz inSz : Nat) :
    Int × Nat × KexCctx :=
  let msgType := k.kexBuf.headD 0
  if inSz < 1 then (-1, outSz, k)
  else if msgType = PRIV_CRYPT_KEX_PARAMS then
    if (env.fault .symbolRequest).isSome then (-1, outSz, k)
    else if (env.fault .init).isSome then (-ENOMEM, outSz, k)
    else
      let (r, rest) := cmDhmRespond env (outSz - 1) (inSz - 1) k.kexBuf.tail
      -- `destroy` is reached from every branch, and sets the type
      let k := { k with kexBuf := PRIV_CRYPT_KEX_RESPONSE :: rest }
      match r with
      | .error rc => (rc, outSz - 1, k)
      | .ok (ctx, outLen) =>
        match cmDhmGetKey tls env ctx k.keySize with
        | .error rc => (rc, outLen + 1, k)
        | .ok key =>
          let (rc, k) := privSetKey env k k.keySize key
          (rc, outLen + 1, k)
  else if msgType = PRIV_CRYPT_KEX_DEBUG then
    (0, debugMsg.length, { k with kexBuf := overwrite debugMsg k.kexBuf })
  else (-1, outSz, k)

/-- The `KEY_EXCHANGE` ioctl (`do_kex` of the driver): an error, or what is copied back. -/
def kexIoctl (tls : Tls1Prf) (env : KernEnv) (k : KexCctx) (inBuf : List UInt8) :
    Except Int (Nat × List UInt8) × KexCctx :=
  if (env.fault .copyDesc).isSome then (.error (-EFAULT), k)
  else if MAX_KEX_MSG_LEN < inBuf.length then (.error (-EINVAL), k)
  else if (env.fault .copyIn).isSome then (.error (-EFAULT), k)
  else
    let k := { k with kexBuf := overwrite inBuf k.kexBuf }
    let (rc, outSz, k) := processKexMsg tls env k MAX_KEX_MSG_LEN inBuf.length
    if rc < 0 then (.error rc, k)
    else if (env.fault .copySize).isSome then (.error (-EFAULT), k)
    else if (env.fault .copyOut).isSome then (.error (-EFAULT), k)
    else (.ok (outSz, k.kexBuf.take outSz), k)

/-! ## The size of the key -/

/-- A context for keys of `n` bytes holds a key of `n` bytes. -/
structure KexCctx.Sized (k : KexCctx) (n : Nat) : Prop where
  keySize_eq : k.keySize = n
  length_key : k.cctx.key.length = n

section Sized

variable {tls : Tls1Prf} {env : KernEnv} {k : KexCctx} {n : Nat}

theorem KexCctx.Sized.privSetKey {keySize : Nat} {key : List UInt8} (h : k.Sized n)
    (hKey : key.length = keySize) : (privSetKey env k keySize key).2.Sized n := by
  unfold Kex.privSetKey
  by_cases hSize : keySize = k.keySize
  · rw [if_neg (not_not.mpr hSize)]
    have hLen : (key.take keySize).length = n := by
      rw [← hKey, List.take_length, hKey, hSize, h.keySize_eq]
    cases env.fault .setkey with
    | none => exact ⟨h.keySize_eq, hLen⟩
    | some _ => exact ⟨h.keySize_eq, hLen⟩
  · rw [if_pos hSize]
    exact h

theorem KexCctx.Sized.processKexMsg {outSz inSz : Nat} (h : k.Sized n) :
    (processKexMsg tls env k outSz inSz).2.2.Sized n := by
  unfold Kex.processKexMsg
  dsimp only
  split
  · exact h
  split
  · split
    · exact h
    split
    · exact h
    cases cmDhmRespond env (outSz - 1) (inSz - 1) k.kexBuf.tail with
    | mk r rest =>
    cases r with
    | error rc => exact ⟨h.keySize_eq, h.length_key⟩
    | ok r =>
      dsimp only
      unfold cmDhmGetKey
      cases hSecret : calcSecret tls (env.fault .preMaster) k.keySize r.1 with
      | none => exact ⟨h.keySize_eq, h.length_key⟩
      | some key =>
        exact KexCctx.Sized.privSetKey ⟨h.keySize_eq, h.length_key⟩
          (calcSecret_eq rfl hSecret hSecret).2
  split
  · exact ⟨h.keySize_eq, h.length_key⟩
  · exact h

theorem KexCctx.Sized.kexIoctl {inBuf : List UInt8} (h : k.Sized n) :
    (kexIoctl tls env k inBuf).2.Sized n := by
  unfold Kex.kexIoctl
  split
  · exact h
  split
  · exact h
  split
  · exact h
  have hProc := @KexCctx.Sized.processKexMsg tls env { k with kexBuf := overwrite inBuf k.kexBuf } n
    MAX_KEX_MSG_LEN inBuf.length ⟨h.keySize_eq, h.length_key⟩
  dsimp only
  split
  · exact hProc
  split
  · exact hProc
  split
  · exact hProc
  · exact hProc

end Sized

/-! ## What a message leaves alone -/

section Frame

variable (tls : Tls1Prf) (env : KernEnv) (k : KexCctx)

theorem privSetKey_frame (keySize : Nat) (key : List UInt8) :
    ∃ key', (privSetKey env k keySize key).2 = { k with cctx := { k.cctx with key := key' } } := by
  unfold privSetKey
  split
  · exact ⟨k.cctx.key, rfl⟩
  · split
    · exact ⟨_, rfl⟩
    · exact ⟨_, rfl⟩

theorem processKexMsg_frame (outSz inSz : Nat) :
    ∃ key kexBuf, (processKexMsg tls env k outSz inSz).2.2 =
      ⟨{ k.cctx with key := key }, k.keySize, kexBuf⟩ := by
  unfold processKexMsg
  dsimp only
  split
  · exact ⟨k.cctx.key, k.kexBuf, rfl⟩
  split
  · split
    · exact ⟨k.cctx.key, k.kexBuf, rfl⟩
    split
    · exact ⟨k.cctx.key, k.kexBuf, rfl⟩
    split
    · exact ⟨k.cctx.key, _, rfl⟩
    split
    · exact ⟨k.cctx.key, _, rfl⟩
    · obtain ⟨key, hSet⟩ := privSetKey_frame env { k with kexBuf := PRIV_CRYPT_KEX_RESPONSE ::
          (cmDhmRespond env (outSz - 1) (inSz - 1) k.kexBuf.tail).2 } k.keySize _
      exact ⟨key, _, hSet⟩
  split
  · exact ⟨k.cctx.key, _, rfl⟩
  · exact ⟨k.cctx.key, k.kexBuf, rfl⟩

theorem kexIoctl_frame (inBuf : List UInt8) : ∃ key kexBuf, (kexIoctl tls env k inBuf).2 =
      ⟨{ k.cctx with key := key }, k.keySize, kexBuf⟩ := by
  obtain ⟨key, kexBuf, hProc⟩ := processKexMsg_frame tls env
    { k with kexBuf := overwrite inBuf k.kexBuf } MAX_KEX_MSG_LEN inBuf.length
  unfold kexIoctl
  split
  · exact ⟨k.cctx.key, k.kexBuf, rfl⟩
  split
  · exact ⟨k.cctx.key, k.kexBuf, rfl⟩
  split
  · exact ⟨k.cctx.key, k.kexBuf, rfl⟩
  dsimp only
  split
  · exact ⟨key, kexBuf, hProc⟩
  split
  · exact ⟨key, kexBuf, hProc⟩
  split
  · exact ⟨key, kexBuf, hProc⟩
  · exact ⟨key, kexBuf, hProc⟩

end Frame

/-! ## A successful answer -/

theorem cmDhmRespond_ok {env : KernEnv} {outBufLen outLen : Nat} {buf rest : List UInt8}
    {ctx : DhmContext} (hP : mpiSize P < 65536) (hG : mpiSize G < 65536)
    (hGX : mpiSize GX < 65536) (hBuf : buf.take (paramsMsg P G GX).length = paramsMsg P G GX)
    (h : cmDhmRespond env outBufLen (paramsMsg P G GX).length buf = (.ok (ctx, outLen), rest)) :
    ∃ Y GY, GY = G ^ Y % P ∧ ctx.K = GX ^ Y % P ∧ mpiSize GY ≤ outLen ∧
      rest.take outLen = beBytes outLen GY := by
  unfold cmDhmRespond at h
  rw [hBuf] at h
  cases hRead : dhmReadParams (env.fault .readP) (env.fault .readG) (env.fault .readGY)
      (paramsMsg P G GX) with
  | error rc =>
    rw [hRead] at h
    cases h
  | ok ctx₀ =>
  rw [hRead] at h
  obtain rfl := dhmReadParams_export hP hG hGX hRead
  dsimp only at h
  split at h
  · cases h
  split at h
  · cases h
  · rename_i ctx₁ out hMake
    obtain ⟨Y, GY, hGY, hSize, rfl, rfl⟩ := dhmMakePublic_ok hMake
    split at h
    · cases h
    · rename_i ctx₂ hCalc
      obtain rfl := dhmCalcSecretNoExport_ok hCalc
      cases h
      refine ⟨Y, GY, hGY, rfl, hSize, ?_⟩
      have hTake := take_overwrite (beBytes (mpiSize P) GY) buf
      rwa [length_beBytes] at hTake

theorem privSetKey_ok {env : KernEnv} {keySize : Nat} {key : List UInt8} {rc : Int}
    (hRc : 0 ≤ rc) (h : privSetKey env k keySize key = (rc, k')) :
    k' = { k with cctx := { k.cctx with key := key.take keySize } } := by
  unfold privSetKey at h
  split at h
  · cases h
    exact absurd hRc (by decide)
  · split at h
    · rename_i n _
      cases h
      unfold Fault.rc at hRc
      omega
    · cases h
      rfl

theorem cmDhmRespond_error {env : KernEnv} {outBufLen inBufLen : Nat} {buf rest : List UInt8}
    {rc : Int} (h : cmDhmRespond env outBufLen inBufLen buf = (.error rc, rest)) : rc < 0 := by
  unfold cmDhmRespond at h
  split at h
  · cases h
    decide
  split at h
  · cases h
    decide
  split at h
  · cases h
    decide
  split at h
  · cases h
    decide
  · cases h

/-- An answer to the parameters: the public value of some exponent, in any number of bytes that
holds it, with the key of the secret shared then installed as `kernKey`. -/
structure Answer (tls : Tls1Prf) (keySize P G GX : Nat) (out kernKey : List UInt8) where
  Y : Nat
  len : Nat
  fits : mpiSize (G ^ Y % P) ≤ len
  out_eq : out = PRIV_CRYPT_KEX_RESPONSE :: beBytes len (G ^ Y % P)
  ctx : DhmContext
  secret : ctx.K = GX ^ Y % P
  fault : Fault
  key : List UInt8
  key_eq : calcSecret tls fault keySize ctx = some key
  installed : kernKey = key.take keySize

theorem Answer.length_out {keySize : Nat} {out kernKey : List UInt8}
    (a : Answer tls keySize P G GX out kernKey) : out.length = a.len + 1 := by
  have hLen := congrArg List.length a.out_eq
  rwa [List.length_cons, length_beBytes] at hLen

theorem processKexMsg_ok {env : KernEnv} {outSz n : Nat}
    {msg : List UInt8} {rc : Int} (hP : mpiSize P < 65536) (hG : mpiSize G < 65536)
    (hGX : mpiSize GX < 65536) (hMsg : msg = paramsMsg P G GX)
    (hBuf : k.kexBuf.take (msg.length + 1) = PRIV_CRYPT_KEX_PARAMS :: msg) (hRc : 0 ≤ rc)
    (h : processKexMsg tls env k n (msg.length + 1) = (rc, outSz, k')) :
    ∃ a : Answer tls k.keySize P G GX (k'.kexBuf.take outSz) k'.cctx.key, outSz = a.len + 1 := by
  obtain ⟨cctx, keySize, kexBuf⟩ := k
  cases kexBuf with
  | nil => simp at hBuf
  | cons hd tl =>
  obtain ⟨rfl, hTail⟩ := List.cons.inj hBuf
  subst hMsg
  unfold processKexMsg at h
  simp only [List.headD_cons, List.tail_cons, Nat.add_sub_cancel] at h
  rw [if_neg (by omega), if_pos trivial] at h
  split at h
  · cases h
    exact absurd hRc (by decide)
  split at h
  · cases h
    exact absurd hRc (by decide)
  cases hResp : cmDhmRespond env (n - 1) (paramsMsg P G GX).length tl with
  | mk r rest =>
  rw [hResp] at h
  cases r with
  | error ret =>
    cases h
    have hNeg := cmDhmRespond_error hResp
    omega
  | ok r =>
    obtain ⟨ctx, len⟩ := r
    obtain ⟨Y, GY, hGY, hK, hSize, hRest⟩ := cmDhmRespond_ok hP hG hGX hTail hResp
    dsimp only at h
    unfold cmDhmGetKey at h
    cases hSecret : calcSecret tls (env.fault .preMaster) keySize ctx with
    | none =>
      rw [hSecret] at h
      cases h
      exact absurd hRc (by decide)
    | some key =>
      rw [hSecret] at h
      simp only [Prod.mk.injEq] at h
      obtain ⟨hSetRc, rfl, hSet⟩ := h
      have hSet := privSetKey_ok hRc (Prod.ext hSetRc hSet)
      subst hGY
      refine ⟨⟨Y, len, hSize, ?_, ctx, hK, _, key, hSecret, ?_⟩, rfl⟩
      · rw [hSet, List.take_succ_cons, hRest]
      · rw [hSet]

/-- **The kernel end**: if the ioctl succeeds on parameters, what it copies back
answers them. -/
theorem kexIoctl_ok {env : KernEnv} {outSz : Nat}
    {out : List UInt8} (hP : mpiSize P < 65536) (hG : mpiSize G < 65536)
    (hGX : mpiSize GX < 65536)
    (h : kexIoctl tls env k (PRIV_CRYPT_KEX_PARAMS :: paramsMsg P G GX) = (.ok (outSz, out), k')) :
    ∃ a : Answer tls k.keySize P G GX out k'.cctx.key, outSz = a.len + 1 := by
  unfold kexIoctl at h
  split at h
  · cases h
  split at h
  · cases h
  split at h
  · cases h
  cases hProc : processKexMsg tls env
      { k with kexBuf := overwrite (PRIV_CRYPT_KEX_PARAMS :: paramsMsg P G GX) k.kexBuf }
      MAX_KEX_MSG_LEN (PRIV_CRYPT_KEX_PARAMS :: paramsMsg P G GX).length with
  | mk rc r =>
  obtain ⟨sz, k₁⟩ := r
  dsimp only at h
  rw [hProc] at h
  dsimp only at h
  split at h
  · cases h
  split at h
  · cases h
  split at h
  · cases h
  cases h
  have hRc : 0 ≤ rc := by omega
  have hBuf := take_overwrite (PRIV_CRYPT_KEX_PARAMS :: paramsMsg P G GX) k.kexBuf
  have hAnswer := processKexMsg_ok hP hG hGX rfl hBuf hRc hProc
  exact hAnswer

end Lacuna.Kex
