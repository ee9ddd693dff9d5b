import Lacuna.Crypt.Aesni
import Lacuna.Kex.Kernel

/-!
# The userspace end of the key exchange

`do_kex` of `libprivcrypt/priv_crypt.c`, with the state machine of
`polarssl_kex.c`, the kernel as its backend (`kern_send_kex_msg` of
`kern_backend.c`) and the AES-NI cipher (`aesni.c`). Messages are built, sent
and received in one buffer.
-/

namespace Lacuna.Kex

open Lacuna.Lib Lacuna.Crypt

variable {u u' : UserKex}

inductive KexState where
  | start
  | initSent
  | done
  deriving DecidableEq

structure PolarsslKexCtx where
  keySize : Nat
  key : List UInt8
  dhmCtx : DhmContext
  state : KexState
  deriving DecidableEq

/-- The calls of the userspace end that may fail for reasons of their own. -/
inductive UserCall where
  | init
  | readString
  | makeParams
  | readPublic
  | calcSecret
  | preMaster
  | setKey
  deriving DecidableEq

structure UserEnv where
  fault : UserCall → Fault
  random : Nat

def polarsslInit (keySize : Nat) : PolarsslKexCtx where
  keySize := keySize
  key := []
  dhmCtx := { len := 0, P := 0, G := 0, X := 0, GX := 0, GY := 0, K := 0 }
  state := .start

def dhmSampleP : Nat :=
  ((0xE4004C1F94182000103D883A448B3F802CE4B44A83301270002C20D0321CFD00 * 2 ^ 256 +
    0x11CCEF784C26A400F43DFB901BCA7538F2C6B176001CF5A0FD16D2C48B1D0C1C) * 2 ^ 256 +
    0xF6AC8E1DA6BCC3B4E1F96B0564965300FFA1D0B601EB2800F489AA512C4B248C) * 2 ^ 256 +
    0x01F76949A60BB7F00A40B1EAB64BDD48E8A700D60B7F1200FA8E77B0A979DABF

def dhmSampleG : Nat := 0x4

def getPublic (env : UserEnv) (ctx : DhmContext) : Except Int DhmContext :=
  if (env.fault .readString).isSome then .error (-1)
  else .ok { ctx with P := dhmSampleP, G := dhmSampleG }

def maxDhmBufSize (ctx : DhmContext) : Nat := 3 * (mpiSize ctx.P + 2) + 2

def makeParams (env : UserEnv) (ctx : DhmContext) : Except Int (DhmContext × List UInt8) :=
  match dhmMakeParams (env.fault .makeParams) ctx env.random with
  | .error rc => .error rc
  | .ok (ctx, msg) => .ok (ctx, msg ++ [0, 0])

structure UserKex where
  ctx : PolarsslKexCtx
  kexBuf : List UInt8
  kexInLen : Nat
  kexOutLen : Nat
  deriving DecidableEq

def sendParams (env : UserEnv) (u : UserKex) : Int × UserKex :=
  match getPublic env u.ctx.dhmCtx with
  | .error rc => (rc, u)
  | .ok dhm =>
    let u := { u with ctx := { u.ctx with dhmCtx := dhm } }
    if MAX_KEX_MSG_LEN - 1 < maxDhmBufSize dhm then (-PRIV_CRYPT_SOME_ERR, u)
    else
      match makeParams env dhm with
      | .error rc => (rc, { u with kexBuf := overwrite [PRIV_CRYPT_KEX_PARAMS] u.kexBuf })
      | .ok (dhm, msg) =>
        (1, { u with
          ctx := { u.ctx with dhmCtx := dhm, state := .initSent }
          kexBuf := overwrite (PRIV_CRYPT_KEX_PARAMS :: msg) u.kexBuf
          kexOutLen := msg.length + 1 })

/-- The case `KEX_INIT_SENT` of `polarssl_process_msg`. -/
def recvResponse (tls : Tls1Prf) (env : UserEnv) (u : UserKex) : Int × UserKex :=
  if u.kexInLen < 1 then (-PRIV_CRYPT_SOME_ERR, u)
  else if u.kexBuf.headD 0 ≠ PRIV_CRYPT_KEX_RESPONSE then (-PRIV_CRYPT_SOME_ERR, u)
  else
    match dhmReadPublic (env.fault .readPublic) u.ctx.dhmCtx
        (u.kexBuf.tail.take (u.kexInLen - 1)) with
    | .error _ => (-1, u)
    | .ok dhm =>
      match dhmCalcSecretNoExport (env.fault .calcSecret) dhm with
      | .error _ => (-1, { u with ctx := { u.ctx with dhmCtx := dhm } })
      | .ok dhm =>
        match calcSecret tls (env.fault .preMaster) u.ctx.keySize dhm with
        | none => (-1, { u with ctx := { u.ctx with dhmCtx := dhm } })
        | some key =>
          (0, { u with ctx := { u.ctx with dhmCtx := dhm, key := key, state := .done } })

def polarsslProcessMsg (tls : Tls1Prf) (env : UserEnv) (u : UserKex) : Int × UserKex :=
  match u.ctx.state with
  | .start => sendParams env u
  | .initSent => recvResponse tls env u
  | .done => (0, u)

def kernSendKexMsg (tls : Tls1Prf) (env : KernEnv) (u : UserKex) (k : KexCctx) :
    Int × UserKex × KexCctx :=
  match kexIoctl tls env k (u.kexBuf.take u.kexOutLen) with
  | (.error _, k) => (-PRIV_CRYPT_SOME_ERR, u, k)
  | (.ok (outSize, out), k) =>
    (if 0 < outSize then 1 else 0,
      { u with kexBuf := overwrite out u.kexBuf, kexInLen := outSize }, k)

/-- The loop of `do_kex`, for at most so many turns; `none` if they are not
enough. -/
def kexLoop (tls : Tls1Prf) (uenv : UserEnv) (kenv : KernEnv) :
    Nat → UserKex → KexCctx → Option (Int × UserKex × KexCctx)
  | 0, _, _ => none
  | turns + 1, u, k =>
    let (rc, u) := polarsslProcessMsg tls uenv u
    if rc < 1 then some (rc, u, k)
    else
      let (rc, u, k) := kernSendKexMsg tls kenv u k
      if 0 ≤ rc then kexLoop tls uenv kenv turns u k else some (rc, u, k)

def privAesniSetKey (env : UserEnv) (userCtx : Option AesniState) (key : List UInt8) :
    Int × Option AesniState :=
  match userCtx with
  | none => (-PRIV_CRYPT_SOME_ERR, none)
  | some st =>
    if (env.fault .setKey).isSome then (-PRIV_CRYPT_SOME_ERR, some st)
    else (0, some { st with key := key })

/-- The return code, the cipher and the kernel context. `stack` and `kexOutLen` are what `kex_buf`
and `kex_out_len` hold at first. -/
def doKex (tls : Tls1Prf) (uenv : UserEnv) (kenv : KernEnv) (turns keySize : Nat)
    (stack : List UInt8) (kexOutLen : Nat) (userCtx : Option AesniState) (k : KexCctx) :
    Option (Int × Option AesniState × KexCctx) :=
  if (uenv.fault .init).isSome then some (-PRIV_CRYPT_SOME_ERR, userCtx, k)
  else
    match kexLoop tls uenv kenv turns
        { ctx := polarsslInit keySize, kexBuf := stack, kexInLen := 0, kexOutLen := kexOutLen }
        k with
    | none => none
    | some (rc, u, k) =>
      if rc = 0 then
        let (rc, userCtx) := privAesniSetKey uenv userCtx (u.ctx.key.take keySize)
        some (rc, userCtx, k)
      else some (rc, userCtx, k)

/-! ## Steps of the state machine -/

theorem mpiSize_dhmSampleP : mpiSize dhmSampleP = 128 := by decide +kernel

theorem mpiSize_dhmSampleG : mpiSize dhmSampleG = 1 := by decide +kernel

/-- The library has drawn `X`, sent its public value and waits for the
answer. -/
structure ParamsSent (u : UserKex) (keySize X : Nat) : Prop where
  state : u.ctx.state = .initSent
  keySize_eq : u.ctx.keySize = keySize
  prime : u.ctx.dhmCtx.P = dhmSampleP
  exponent : u.ctx.dhmCtx.X = X

theorem sendParams_spec {env : UserEnv} {rc : Int} (h : sendParams env u = (rc, u')) :
    rc < 0 ∨ rc = 1 ∧ ∃ X GX, GX = dhmSampleG ^ X % dhmSampleP ∧
      ParamsSent u' u.ctx.keySize X ∧ u'.kexBuf.take u'.kexOutLen =
        PRIV_CRYPT_KEX_PARAMS :: paramsMsg dhmSampleP dhmSampleG GX := by
  unfold sendParams getPublic at h
  by_cases hRead : (env.fault .readString).isSome = true
  · rw [if_pos hRead] at h
    cases h
    exact .inl (by decide)
  rw [if_neg hRead] at h
  dsimp only at h
  split at h
  · cases h
    exact .inl (by decide)
  unfold makeParams at h
  cases hMake : dhmMakeParams (env.fault .makeParams)
      { u.ctx.dhmCtx with P := dhmSampleP, G := dhmSampleG } env.random with
  | error ret =>
    rw [hMake] at h
    cases h
    exact .inl (dhmMakeParams_error hMake)
  | ok r =>
    obtain ⟨dhm, msg⟩ := r
    rw [hMake] at h
    cases h
    obtain ⟨X, GX, hGX, _, rfl, rfl⟩ := dhmMakeParams_ok hMake
    refine .inr ⟨rfl, X, GX, hGX, ⟨rfl, rfl, rfl, rfl⟩, ?_⟩
    dsimp only
    rw [paramsMsg, ← List.append_assoc, ← List.append_assoc, ← List.append_assoc]
    exact take_overwrite (PRIV_CRYPT_KEX_PARAMS :: _) _

def UserKex.received (u : UserKex) : Nat := ofBeBytes (u.kexBuf.tail.take (u.kexInLen - 1))

theorem recvResponse_cases {tls : Tls1Prf} {env : UserEnv} {rc : Int}
    (h : recvResponse tls env u = (rc, u')) :
    rc < 0 ∨ rc = 0 ∧ 1 ≤ u.kexInLen ∧ u.kexBuf.headD 0 = PRIV_CRYPT_KEX_RESPONSE ∧
      2 ≤ u.received ∧ u.received + 2 ≤ u.ctx.dhmCtx.P ∧
      ∃ ctx, ctx.K = u.received ^ u.ctx.dhmCtx.X % u.ctx.dhmCtx.P ∧
        calcSecret tls (env.fault .preMaster) u.ctx.keySize ctx = some u'.ctx.key := by
  unfold recvResponse at h
  split at h
  · cases h
    exact .inl (by decide)
  rename_i hLen
  split at h
  · cases h
    exact .inl (by decide)
  rename_i hType
  split at h
  · cases h
    exact .inl (by decide)
  rename_i dhm hRead
  obtain rfl := dhmReadPublic_ok hRead
  split at h
  · cases h
    exact .inl (by decide)
  rename_i dhm hCalc
  obtain ⟨hLower, hUpper⟩ := dhmCalcSecretNoExport_range hCalc
  obtain rfl := dhmCalcSecretNoExport_ok hCalc
  split at h
  · cases h
    exact .inl (by decide)
  · rename_i key hSecret
    cases h
    exact .inr ⟨rfl, Nat.not_lt.mp hLen, not_not.mp hType, hLower, hUpper, _, rfl, hSecret⟩

theorem recvResponse_spec {tls : Tls1Prf} {env : UserEnv} {rc : Int} {GY len : Nat}
    (hBuf : u.kexBuf.take u.kexInLen = PRIV_CRYPT_KEX_RESPONSE :: beBytes len GY)
    (hLen : u.kexInLen = len + 1) (hSize : mpiSize GY ≤ len)
    (h : recvResponse tls env u = (rc, u')) :
    rc < 0 ∨ rc = 0 ∧ ∃ ctx, ctx.K = GY ^ u.ctx.dhmCtx.X % u.ctx.dhmCtx.P ∧
      calcSecret tls (env.fault .preMaster) u.ctx.keySize ctx = some u'.ctx.key := by
  have hReceived : u.received = GY := by
    unfold UserKex.received
    cases hCons : u.kexBuf with
    | nil => simp [hCons] at hBuf
    | cons hd tl =>
      rw [hCons, hLen, List.take_succ_cons] at hBuf
      rw [hLen, List.tail_cons, Nat.add_sub_cancel, (List.cons.inj hBuf).2, ofBeBytes_write hSize]
  rcases recvResponse_cases h with hNeg | ⟨hRc, -, -, -, -, ctx, hK, hSecret⟩
  · exact .inl hNeg
  · rw [hReceived] at hK
    exact .inr ⟨hRc, ctx, hK, hSecret⟩

end Lacuna.Kex
