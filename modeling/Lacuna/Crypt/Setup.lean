import Lacuna.Crypt.Backend
import Lacuna.Crypt.Channel
import Lacuna.Kex.Agreement

/-!
# Setting up a backend

`priv_create_cctx` and `priv_new_backend` of `libprivcrypt`, with any algorithm and size
of keys and the whole key exchange, against the driver of the control device.
`kern_init` keeps the result of the `NEW_CTX` ioctl in `backend->id`, which is unsigned, and
compares it with 0. It returns an error only if the device cannot be opened.
-/

namespace Lacuna.Crypt.Setup

open Lacuna.Lib Lacuna.Kex Function

def PRIV_CRYPT_NO_ALG : Int := 2

structure Cctx where
  alg : UInt32
  keySize : UInt32
  dir : UInt8
  userCtx : Option AesniState
  iv : List UInt8
  /-- set by `priv_new_backend` -/
  backendCtx : Option KernBackend
  deriving DecidableEq

structure SetupEnv where
  /-- `malloc` in `priv_create_cctx` -/
  cctx : Bool
  /-- `malloc` in `priv_aesni_init` -/
  userInit : Bool
  /-- the key schedule before there is a key -/
  schedule : List UInt8
  /-- the random bytes -/
  iv : List UInt8
  length_iv : iv.length = 16
  /-- the option `PRIV_OPTION_DIR_DEC` is set -/
  dirDec : Bool
  /-- `malloc` and `open` in `kern_init` -/
  kernFd : Option Nat
  pid : Nat
  /-- `copy_from_user` for `NEW_CTX` -/
  newCtxCopied : Bool
  make : MakeEnv
  /-- the pointer `cctx` of `do_new_ctx` before it is set -/
  junk : Nat
  uenv : UserEnv
  kenv : KernEnv
  /-- `kex_buf` and `kex_out_len` of `do_kex` before they are set -/
  stack : List UInt8
  kexOutLen : Nat
  /-- `copy_from_user` for `SET_IV` -/
  setIvCopied : Bool

/-! ## The library -/

def privCreateCctx (env : SetupEnv) (alg keySize : UInt32) : Except Int Cctx :=
  if alg ≠ PRIV_CRYPT_ALG_AES_CTR then .error (-PRIV_CRYPT_NO_ALG)
  else if env.cctx = false then .error (-PRIV_CRYPT_SOME_ERR)
  else if env.userInit = false then .error (-PRIV_CRYPT_SOME_ERR)
  else .ok
    { alg := alg
      keySize := keySize
      dir := if env.dirDec then PRIV_CRYPT_DIR_DEC else PRIV_CRYPT_DIR_ENC
      userCtx := some ⟨env.schedule, BitVec.ofNat 128 (ofBeBytes env.iv)⟩
      iv := env.iv
      backendCtx := none }

def Cctx.desc (cctx : Cctx) : AlgDesc := ⟨cctx.alg, cctx.keySize, cctx.dir⟩

def Cctx.kernDir (cctx : Cctx) : Dir := if cctx.dir = PRIV_CRYPT_DIR_ENC then .enc else .dec

def ioctlRet : Outcome → Int
  | .ret rc => sysRet rc
  | .oops => -1

def privCmdNewCtx (env : SetupEnv) (cctx : Cctx) (d : Control) (f : Nat) : UInt32 × Control :=
  let arg := if env.newCtxCopied then some cctx.desc else none
  match d.doNewCtx f env.pid arg env.make env.junk with
  | (out, _, d) => (UInt32.ofBitVec (BitVec.ofInt 32 (ioctlRet out)), d)

def kernInit (env : SetupEnv) (cctx : Cctx) (d : Control) : Int × Option KernBackend × Control :=
  match env.kernFd with
  | none => (-PRIV_CRYPT_SOME_ERR, none, d)
  | some f =>
    match privCmdNewCtx env cctx (d.clearFile f) f with
    | (id, d) => if id < 0 then (-PRIV_CRYPT_SOME_ERR, none, d) else (0, some ⟨f, id⟩, d)

def kernSetIv (env : SetupEnv) (cctx : Cctx) (d : Control) (f : Nat) : Int × Control :=
  let arg := if env.setIvCopied then some ⟨16, cctx.iv⟩ else none
  match d.doSetIv f arg with
  | (out, _, d) => (if ioctlRet out < 0 then -PRIV_CRYPT_SOME_ERR else 0, d)

def sendKexMsg (tls : Tls1Prf) (env : KernEnv) (u : UserKex) (d : Control) (f : Nat) :
    Outcome × UserKex × Control :=
  match d.doKex tls f env (u.kexBuf.take u.kexOutLen) with
  | (.oops, _, d') => (.oops, u, d')
  | (.ret _, none, d') => (.ret (-PRIV_CRYPT_SOME_ERR), u, d')
  | (.ret _, some c, d') =>
    match kernSendKexMsg tls env u (d.kexCctx c) with
    | (rc, u, _) => (.ret rc, u, d')

/-- The loop of `do_kex`, for at most so many turns; `none` if they are not enough. -/
def kexLoop (tls : Tls1Prf) (uenv : UserEnv) (kenv : KernEnv) (f : Nat) :
    Nat → UserKex → Control → Option (Outcome × UserKex × Control)
  | 0, _, _ => none
  | turns + 1, u, d =>
    let (rc, u) := polarsslProcessMsg tls uenv u
    if rc < 1 then some (.ret rc, u, d)
    else
      match sendKexMsg tls kenv u d f with
      | (.oops, u, d) => some (.oops, u, d)
      | (.ret rc, u, d) =>
        if 0 ≤ rc then kexLoop tls uenv kenv f turns u d else some (.ret rc, u, d)

def doKex (tls : Tls1Prf) (turns : Nat) (env : SetupEnv) (cctx : Cctx) (d : Control) (f : Nat) :
    Option (Outcome × Cctx × Control) :=
  if (env.uenv.fault .init).isSome then some (.ret (-PRIV_CRYPT_SOME_ERR), cctx, d)
  else
    match kexLoop tls env.uenv env.kenv f turns
        { ctx := polarsslInit cctx.keySize.toNat, kexBuf := env.stack, kexInLen := 0,
          kexOutLen := env.kexOutLen } d with
    | none => none
    | some (.oops, _, d) => some (.oops, cctx, d)
    | some (.ret rc, u, d) =>
      if rc = 0 then
        match privAesniSetKey env.uenv cctx.userCtx (u.ctx.key.take cctx.keySize.toNat) with
        | (rc, userCtx) => some (.ret rc, { cctx with userCtx := userCtx }, d)
      else some (.ret rc, cctx, d)

def privNewBackend (tls : Tls1Prf) (turns : Nat) (env : SetupEnv) (cctx : Cctx) (d : Control) :
    Option (Outcome × Cctx × Control) :=
  match kernInit env cctx d with
  | (rc, none, d) => some (.ret rc, cctx, d)
  | (_, some backend, d) =>
    match doKex tls turns env cctx d backend.kernFd with
    | none => none
    | some (.oops, cctx, d) => some (.oops, cctx, d)
    | some (.ret rc, cctx, d) =>
      if rc < 0 then some (.ret rc, cctx, kernDestroy d backend)
      else
        match kernSetIv env cctx d backend.kernFd with
        | (rc, d) =>
          if rc < 0 then some (.ret rc, cctx, kernDestroy d backend)
          else some (.ret 0, { cctx with backendCtx := some backend }, d)

/-- Between `d` and `d'` the kernel has made a context, and the file names it. -/
def Created (d d' : Control) (f : Nat) : Prop :=
  ∃ c, d'.files f = some c ∧ c ∈ d'.reg.ctxList ∧ d'.births c = d.births c + 1

/-- The file names a context made since `d`, with the key and the IV of the user. -/
def HoldsKey (cctx : Cctx) (d d' : Control) : Prop :=
  ∃ backend c st, cctx.backendCtx = some backend ∧ d'.files backend.kernFd = some c ∧
    c ∈ d'.reg.ctxList ∧ d'.births c = d.births c + 1 ∧ cctx.userCtx = some st ∧
    (d'.reg.heap c).key = st.key ∧ (d'.reg.heap c).ctr = st.iv

structure Detects (tls : Tls1Prf) (turns : Nat) (env : SetupEnv) (cctx : Cctx) (d : Control) :
    Prop where
  init : ∀ backend d', kernInit env cctx d = (0, some backend, d') → Created d d' backend.kernFd
  noOops : ∀ cctx' d', privNewBackend tls turns env cctx d ≠ some (.oops, cctx', d')
  keyed : ∀ cctx' d', privNewBackend tls turns env cctx d = some (.ret 0, cctx', d') →
    HoldsKey cctx' d d'

/-- `make_crypto_ctx` is reached, and makes a context with an id not taken for an error. -/
structure SetupEnv.MakesCtx (env : SetupEnv) (cctx : Cctx) (d : Control) : Prop where
  copied : env.newCtxCopied = true
  makes : ¬ env.make.Fails cctx.desc
  kexBuf : env.make.kexBuf ≠ none
  id : 0 ≤ (d.reg.lastId + 1).toBitVec.toInt

/-! ## `kern_init` -/

section Init

variable {env : SetupEnv} {cctx : Cctx} {d : Control} {f : Nat}

theorem kernInit_some (hFd : env.kernFd = some f) :
    kernInit env cctx d = (0, some ⟨f, (privCmdNewCtx env cctx (d.clearFile f) f).1⟩,
      (privCmdNewCtx env cctx (d.clearFile f) f).2) := by
  unfold kernInit
  rw [hFd]
  exact if_neg (UInt32.not_lt_zero)

theorem privCmdNewCtx_copied (hCopied : env.newCtxCopied = true) : (privCmdNewCtx env cctx d f).2 =
      (d.doNewCtx f env.pid (some cctx.desc) env.make env.junk).2.2 := by
  unfold privCmdNewCtx
  rw [hCopied]
  rfl

theorem privCmdNewCtx_made (h : env.MakesCtx cctx d) (f : Nat) :
    ∃ c kexBuf, (privCmdNewCtx env cctx (d.clearFile f) f).2 =
      ((d.clearFile f).addCtx c cctx.desc kexBuf).storeCtx f env.pid c := by
  rw [privCmdNewCtx_copied h.copied]
  rcases makeCryptoCtx_cases (d.clearFile f) cctx.desc env.make with ⟨hFails, -⟩ | ⟨-, hBuf, -⟩ |
    ⟨-, c, kexBuf, -, -, hMake⟩
  · exact absurd hFails h.makes
  · exact absurd hBuf h.kexBuf
  · have hId : ¬ ((d.clearFile f).reg.lastId + 1).toBitVec.toInt < 0 := Int.not_lt.mpr h.id
    simp only [Control.doNewCtx, hMake, if_neg hId]
    exact ⟨c, kexBuf, rfl⟩

theorem not_created (h : ¬ env.MakesCtx cctx d) (f : Nat) :
    ¬ Created d (privCmdNewCtx env cctx (d.clearFile f) f).2 f := by
  rintro ⟨c, hFile, -, hBirth⟩
  have hClear : (d.clearFile f).files f = none := files_clearFile d f
  cases hCopied : env.newCtxCopied with
  | false =>
    have hNew : (privCmdNewCtx env cctx (d.clearFile f) f).2 = d.clearFile f := by
      unfold privCmdNewCtx
      rw [hCopied]
      rfl
    rw [hNew] at hFile
    cases hClear.symm.trans hFile
  | true =>
    rw [privCmdNewCtx_copied hCopied] at hFile hBirth
    rcases makeCryptoCtx_cases (d.clearFile f) cctx.desc env.make with ⟨-, rc, hNeg, hMake⟩ |
      ⟨hMakes, hBuf, -⟩ | ⟨hMakes, c', kexBuf, -, hBuf, hMake⟩
    · simp only [Control.doNewCtx, hMake, if_pos hNeg] at hFile
      cases hClear.symm.trans hFile
    · rw [doNewCtx_junk hBuf hMakes] at hBirth
      exact absurd hBirth (Nat.ne_of_lt (Nat.lt_succ_self (d.births c)))
    · by_cases hId : ((d.clearFile f).reg.lastId + 1).toBitVec.toInt < 0
      · simp only [Control.doNewCtx, hMake, if_pos hId] at hFile
        cases hClear.symm.trans hFile
      · refine h ⟨hCopied, hMakes, ?_, Int.not_lt.mp hId⟩
        rw [hBuf]
        exact Option.some_ne_none kexBuf

end Init

/-! ## The key exchange -/

section Exchange

variable {tls : Tls1Prf} {d : Control} {f c : Nat}

/-- The exchange has come from `d` to `d'`, and the context `c` to `k`. -/
structure Exchanged (d d' : Control) (c : Nat) (k : KexCctx) : Prop extends Keyed d d' c where
  ctx : d'.kexCctx c = k
  ctr : (d'.reg.heap c).ctr = (d.reg.heap c).ctr
  dir : (d'.reg.heap c).dir = (d.reg.heap c).dir

theorem Exchanged.refl (d : Control) (c : Nat) : Exchanged d d c (d.kexCctx c) :=
  ⟨Keyed.refl d c, rfl, rfl, rfl⟩

theorem Exchanged.trans {d₁ d₂ : Control} {k₁ k₂ : KexCctx} (h : Exchanged d d₁ c k₁)
    (h' : Exchanged d₁ d₂ c k₂) : Exchanged d d₂ c k₂ :=
  ⟨h.toKeyed.trans h'.toKeyed, h'.ctx, h'.ctr.trans h.ctr, h'.dir.trans h.dir⟩

theorem kernSendKexMsg_kern (env : KernEnv) (u : UserKex) (k : KexCctx) :
    (kernSendKexMsg tls env u k).2.2 = (kexIoctl tls env k (u.kexBuf.take u.kexOutLen)).2 := by
  unfold kernSendKexMsg
  split
  · rename_i h
    rw [h]
  · rename_i h
    rw [h]

def putKex (d : Control) (c : Nat) (k : KexCctx) : Control :=
  { d.modifyCtx c fun _ => k.cctx with kexBuf := update d.kexBuf c k.kexBuf }

theorem exchanged_putKex (d : Control) (c : Nat) (key kexBuf : List UInt8) :
    Exchanged d (putKex d c ⟨{ d.reg.heap c with key := key }, d.keySize c, kexBuf⟩) c
      ⟨{ d.reg.heap c with key := key }, d.keySize c, kexBuf⟩ := by
  have hKeyed := keyed_modifyCtx (d := d) (c := c)
    (g := fun _ => { d.reg.heap c with key := key }) rfl rfl
  refine ⟨⟨⟨hKeyed.sameList, rfl, rfl, rfl⟩, hKeyed.id, hKeyed.userLock, hKeyed.heap, rfl⟩, ?_, ?_, ?_⟩
  · simp [putKex, Control.kexCctx, Control.modifyCtx, Registry.modifyCtx]
  · simp [putKex, Control.modifyCtx, Registry.modifyCtx]
  · simp [putKex, Control.modifyCtx, Registry.modifyCtx]

theorem doKex_of_file (env : KernEnv) {inBuf : List UInt8} (hFile : d.files f = some c)
    (hDesc : ¬ (env.fault .copyDesc).isSome = true) (hLen : ¬ MAX_KEX_MSG_LEN < inBuf.length) :
    ∃ rc, d.doKex tls f env inBuf =
      (.ret rc, some c, putKex d c (kexIoctl tls env (d.kexCctx c) inBuf).2) := by
  unfold Control.doKex
  rw [if_neg hDesc, if_neg hLen, hFile]
  exact ⟨_, rfl⟩

theorem sendKexMsg_of_file (env : KernEnv) (u : UserKex) (hFile : d.files f = some c) :
    ∃ d', sendKexMsg tls env u d f = (.ret (kernSendKexMsg tls env u (d.kexCctx c)).1,
        (kernSendKexMsg tls env u (d.kexCctx c)).2.1, d') ∧
      Exchanged d d' c (kernSendKexMsg tls env u (d.kexCctx c)).2.2 := by
  by_cases hDesc : (env.fault .copyDesc).isSome = true
  · have hSend : kernSendKexMsg tls env u (d.kexCctx c) =
        (-PRIV_CRYPT_SOME_ERR, u, d.kexCctx c) := by
      simp only [kernSendKexMsg, kexIoctl, if_pos hDesc]
    rw [hSend]
    refine ⟨d, ?_, .refl d c⟩
    simp only [sendKexMsg, Control.doKex, if_pos hDesc, Control.refuse]
  by_cases hLen : MAX_KEX_MSG_LEN < (u.kexBuf.take u.kexOutLen).length
  · have hSend : kernSendKexMsg tls env u (d.kexCctx c) =
        (-PRIV_CRYPT_SOME_ERR, u, d.kexCctx c) := by
      simp only [kernSendKexMsg, kexIoctl, if_neg hDesc, if_pos hLen]
    rw [hSend]
    refine ⟨d, ?_, .refl d c⟩
    simp only [sendKexMsg, Control.doKex, if_neg hDesc, if_pos hLen, Control.refuse]
  · obtain ⟨rc, hDo⟩ := @doKex_of_file tls d f c env _ hFile hDesc hLen
    obtain ⟨key, kexBuf, hFrame⟩ := kexIoctl_frame tls env (d.kexCctx c) (u.kexBuf.take u.kexOutLen)
    refine ⟨_, by simp only [sendKexMsg, hDo]; rfl, ?_⟩
    rw [kernSendKexMsg_kern, hFrame]
    exact exchanged_putKex d c key kexBuf

theorem kexLoop_of_file (uenv : UserEnv) (kenv : KernEnv) {turns : Nat} {u u' : UserKex} {rc : Int}
    {k : KexCctx} (hFile : d.files f = some c)
    (hLoop : Kex.kexLoop tls uenv kenv turns u (d.kexCctx c) = some (rc, u', k)) :
    ∃ d', kexLoop tls uenv kenv f turns u d = some (.ret rc, u', d') ∧ Exchanged d d' c k := by
  induction turns generalizing u d with
  | zero => cases hLoop
  | succ turns ih =>
    rw [Kex.kexLoop] at hLoop
    rw [kexLoop]
    rcases hProc : polarsslProcessMsg tls uenv u with ⟨rc₁, u₁⟩
    rw [hProc] at hLoop
    dsimp only at hLoop ⊢
    by_cases hEnd : rc₁ < 1
    · rw [if_pos hEnd] at hLoop ⊢
      cases hLoop
      exact ⟨d, rfl, .refl d c⟩
    rw [if_neg hEnd] at hLoop ⊢
    obtain ⟨d₁, hSend, hEx⟩ := @sendKexMsg_of_file tls d f c kenv u₁ hFile
    rw [hSend]
    rcases hKern : kernSendKexMsg tls kenv u₁ (d.kexCctx c) with ⟨rc₂, u₂, k₂⟩
    rw [hKern] at hLoop hEx
    dsimp only at hLoop hEx ⊢
    by_cases hMore : 0 ≤ rc₂
    · rw [if_pos hMore] at hLoop ⊢
      rw [← hEx.ctx] at hLoop
      obtain ⟨d', hRest, hEx'⟩ := ih ((congrFun hEx.files f).trans hFile) hLoop
      exact ⟨d', hRest, hEx.trans hEx'⟩
    · rw [if_neg hMore] at hLoop ⊢
      cases hLoop
      exact ⟨d₁, rfl, hEx⟩

theorem doKex_of_kex {turns : Nat} {env : SetupEnv} {cctx : Cctx} {rc : Int}
    {userCtx : Option AesniState} {k : KexCctx} (hFile : d.files f = some c)
    (hKex : Kex.doKex tls env.uenv env.kenv turns cctx.keySize.toNat env.stack env.kexOutLen
      cctx.userCtx (d.kexCctx c) = some (rc, userCtx, k)) :
    ∃ d', doKex tls turns env cctx d f = some (.ret rc, { cctx with userCtx := userCtx }, d') ∧
      Exchanged d d' c k := by
  unfold Kex.doKex at hKex
  unfold doKex
  by_cases hInit : (env.uenv.fault .init).isSome = true
  · rw [if_pos hInit] at hKex ⊢
    cases hKex
    exact ⟨d, rfl, .refl d c⟩
  rw [if_neg hInit] at hKex ⊢
  split at hKex
  · cases hKex
  · rename_i rc₁ u k₁ hLoop
    obtain ⟨d', hRun, hEx⟩ := kexLoop_of_file env.uenv env.kenv hFile hLoop
    rw [hRun]
    dsimp only
    by_cases hRc : rc₁ = 0
    · rw [if_pos hRc] at hKex ⊢
      cases hKex
      exact ⟨d', rfl, hEx⟩
    · rw [if_neg hRc] at hKex ⊢
      cases hKex
      exact ⟨d', rfl, hEx⟩

end Exchange

section UserEnd

variable {tls : Tls1Prf} {uenv : UserEnv} {kenv : KernEnv}

theorem kexLoop_nonpos {turns : Nat} {u u' : UserKex} {k k' : KexCctx} {rc : Int}
    (h : Kex.kexLoop tls uenv kenv turns u k = some (rc, u', k')) : rc ≤ 0 := by
  induction turns generalizing u k with
  | zero => cases h
  | succ turns ih =>
    rw [Kex.kexLoop] at h
    dsimp only at h
    split at h
    · rename_i hEnd
      cases h
      omega
    · split at h
      · exact ih h
      · rename_i hNeg
        cases h
        omega

theorem doKex_user {turns keySize kexOutLen : Nat} {stack : List UInt8} {st : AesniState}
    {userCtx : Option AesniState} {k k' : KexCctx} {rc : Int}
    (h : Kex.doKex tls uenv kenv turns keySize stack kexOutLen (some st) k =
      some (rc, userCtx, k')) : rc ≤ 0 ∧ ∃ key, userCtx = some { st with key := key } := by
  unfold Kex.doKex at h
  split at h
  · cases h
    exact ⟨by decide, st.key, rfl⟩
  split at h
  · cases h
  · rename_i rc₁ u k₁ hLoop
    have hRc := kexLoop_nonpos hLoop
    split at h
    · unfold privAesniSetKey at h
      dsimp only at h
      split at h
      · cases h
        exact ⟨(by decide : -PRIV_CRYPT_SOME_ERR ≤ 0), st.key, rfl⟩
      · cases h
        exact ⟨Int.le_refl 0, _, rfl⟩
    · cases h
      exact ⟨hRc, st.key, rfl⟩

end UserEnd

/-! ## `priv_new_backend` -/

section NewBackend

variable {tls : Tls1Prf} {turns : Nat} {env : SetupEnv} {cctx : Cctx} {d : Control} {f c : Nat}

theorem privCreateCctx_ok {alg keySize : UInt32} (h : privCreateCctx env alg keySize = .ok cctx) :
    cctx.iv.length = 16 ∧
      cctx.userCtx = some ⟨env.schedule, BitVec.ofNat 128 (ofBeBytes cctx.iv)⟩ := by
  unfold privCreateCctx at h
  split at h
  · cases h
  split at h
  · cases h
  split at h
  · cases h
  · cases h
    exact ⟨env.length_iv, rfl⟩

theorem kernSetIv_of_file (hFile : d.files f = some c) (hLen : cctx.iv.length = 16) :
    (∃ d', kernSetIv env cctx d f = (-PRIV_CRYPT_SOME_ERR, d')) ∨
    ∃ d', kernSetIv env cctx d f = (0, d') ∧ OnlyContext d d' ∧
      (d'.reg.heap c).key = (d.reg.heap c).key ∧
      (d'.reg.heap c).ctr = BitVec.ofNat 128 (ofBeBytes cctx.iv) ∧
      (d'.reg.heap c).dir = (d.reg.heap c).dir := by
  unfold kernSetIv
  have hOnly := onlyContext_doSetIv (d := d) f (some ⟨16, cctx.iv⟩)
  cases env.setIvCopied with
  | false =>
    refine .inl ⟨d, ?_⟩
    simp only [Bool.false_eq_true, if_false, Control.doSetIv, hFile, Control.refuse]
    rfl
  | true =>
    refine .inr ?_
    simp only [if_true]
    rw [Control.doSetIv, hFile] at hOnly ⊢
    refine ⟨_, rfl, hOnly, ?_, ?_, ?_⟩
    · simp [Control.modifyCtx, Registry.modifyCtx, Control.privSetIv]
    · simp [Control.modifyCtx, Registry.modifyCtx, Control.privSetIv,
        List.take_of_length_le (Nat.le_of_eq hLen)]
    · simp [Control.modifyCtx, Registry.modifyCtx, Control.privSetIv]

theorem privNewBackend_made (hTurns : 2 ≤ turns) {d₁ : Control} {backend : KernBackend}
    {st : AesniState} (hInit : kernInit env cctx d = (0, some backend, d₁))
    (hFile : d₁.files backend.kernFd = some c) (hSize : d₁.keySize c = cctx.keySize.toNat)
    (hLen : cctx.iv.length = 16) (hUser : cctx.userCtx = some st)
    (hIv : st.iv = BitVec.ofNat 128 (ofBeBytes cctx.iv)) :
    (∃ rc < 0, ∃ cctx' d', privNewBackend tls turns env cctx d = some (.ret rc, cctx', d')) ∨
    ∃ key d', privNewBackend tls turns env cctx d =
        some (.ret 0, { cctx with userCtx := some { st with key := key },
                                  backendCtx := some backend }, d') ∧
      OnlyContext d₁ d' ∧ (d'.reg.heap c).key = key ∧ (d'.reg.heap c).ctr = st.iv ∧
      (d'.reg.heap c).dir = (d₁.reg.heap c).dir := by
  obtain ⟨turns, rfl⟩ : ∃ n, turns = n + 2 := ⟨turns - 2, by omega⟩
  obtain ⟨rc, userCtx, k, hKex, hAgree⟩ := doKex_agree tls env.uenv env.kenv turns env.stack
    env.kexOutLen cctx.userCtx (d₁.kexCctx c)
  have hKeySize : (d₁.kexCctx c).keySize = cctx.keySize.toNat := hSize
  rw [hKeySize] at hKex
  obtain ⟨d₂, hDo, hEx⟩ := doKex_of_kex hFile hKex
  rw [hUser] at hKex
  obtain ⟨hRc, key, rfl⟩ := doKex_user hKex
  unfold privNewBackend
  rw [hInit]
  dsimp only
  rw [hDo]
  dsimp only
  by_cases hNeg : rc < 0
  · rw [if_pos hNeg]
    exact .inl ⟨rc, hNeg, _, _, rfl⟩
  rw [if_neg hNeg]
  obtain rfl : rc = 0 := Int.le_antisymm hRc (Int.not_lt.mp hNeg)
  obtain ⟨st', hSt, hKey, -⟩ := hAgree rfl
  cases hSt
  have hFile₂ : d₂.files backend.kernFd = some c := (congrFun hEx.files _).trans hFile
  rcases @kernSetIv_of_file env { cctx with userCtx := some { st with key := key } } d₂
      backend.kernFd c hFile₂ hLen with ⟨d₃, hSet⟩ | ⟨d₃, hSet, hOnly, hSame, hCtr, hDir⟩
  · rw [hSet]
    exact .inl ⟨-PRIV_CRYPT_SOME_ERR, by decide, _, _, rfl⟩
  · rw [hSet]
    refine .inr ⟨key, d₃, rfl, ?_, ?_, hCtr.trans hIv.symm, hDir.trans hEx.dir⟩
    · exact ⟨⟨hOnly.sameList.1.trans hEx.sameList.1, hOnly.sameList.2.trans hEx.sameList.2⟩,
        hOnly.files.trans hEx.files, hOnly.births.trans hEx.births,
        hOnly.fileBirth.trans hEx.fileBirth⟩
    · rw [hSame]
      exact (congrArg (·.cctx.key) hEx.ctx).trans hKey.symm

theorem detects_of_unopened (hFd : env.kernFd = none) : Detects tls turns env cctx d := by
  have hInit : kernInit env cctx d = (-PRIV_CRYPT_SOME_ERR, none, d) := by
    unfold kernInit
    rw [hFd]
  have hNew : privNewBackend tls turns env cctx d =
      some (.ret (-PRIV_CRYPT_SOME_ERR), cctx, d) := by
    unfold privNewBackend
    rw [hInit]
  refine ⟨fun backend d' hZero => ?_, fun cctx' d' hOops => ?_, fun cctx' d' hZero => ?_⟩
  · rw [hInit] at hZero
    cases hZero
  · rw [hNew] at hOops
    cases hOops
  · rw [hNew] at hZero
    cases hZero

theorem kernInit_made (hMakes : env.MakesCtx cctx d) (hFd : env.kernFd = some f) :
    ∃ id c d₁, kernInit env cctx d = (0, some ⟨f, id⟩, d₁) ∧ d₁.files f = some c ∧
      c ∈ d₁.reg.ctxList ∧ d₁.births c = d.births c + 1 ∧
      d₁.keySize c = cctx.keySize.toNat ∧ (d₁.reg.heap c).dir = cctx.kernDir := by
  obtain ⟨c, kexBuf, hState⟩ := privCmdNewCtx_made hMakes f
  refine ⟨_, c, _, kernInit_some hFd, ?_⟩
  rw [hState]
  refine ⟨(made_storeCtx (d.clearFile f) f env.pid c cctx.desc kexBuf).file, List.mem_cons_self,
    update_self .., update_self .., ?_⟩
  simp only [Control.storeCtx, Control.addCtx, Control.modifyCtx, Registry.modifyCtx,
    Crypt.makeCryptoCtx, Control.setFile, update_self]
  rfl

theorem detects_of_makes {alg keySize : UInt32} (hTurns : 2 ≤ turns)
    (hCreate : privCreateCctx env alg keySize = .ok cctx) (hFd : env.kernFd = some f)
    (hMakes : env.MakesCtx cctx d) : Detects tls turns env cctx d := by
  obtain ⟨id, c, d₁, hInit, hFile, hListed, hBirth, hSize, -⟩ := kernInit_made hMakes hFd
  obtain ⟨hLen, hUser⟩ := privCreateCctx_ok hCreate
  have hEnds := @privNewBackend_made tls turns env cctx d c hTurns _ _ _ hInit hFile hSize hLen
    hUser rfl
  refine ⟨fun backend d' hZero => ?_, fun cctx' d' hOops => ?_, fun cctx' d' hZero => ?_⟩
  · rw [hInit] at hZero
    cases hZero
    exact ⟨c, hFile, hListed, hBirth⟩
  · rcases hEnds with ⟨rc, -, _, _, hNew⟩ | ⟨_, _, hNew, -⟩
    · rw [hNew] at hOops
      cases hOops
    · rw [hNew] at hOops
      cases hOops
  · rcases hEnds with ⟨rc, hNeg, _, _, hNew⟩ | ⟨key, d₂, hNew, hOnly, hKey, hCtr, -⟩
    · rw [hNew] at hZero
      cases hZero
      exact absurd hNeg (Int.lt_irrefl 0)
    · rw [hNew] at hZero
      cases hZero
      refine ⟨_, c, _, rfl, (congrFun hOnly.files _).trans hFile, ?_, ?_, rfl, hKey, hCtr⟩
      · rw [hOnly.sameList.1]
        exact hListed
      · rw [hOnly.births]
        exact hBirth

def channel (cctx : Cctx) (d : Control) (c : Nat) : Channel :=
  ⟨d.reg.heap c, ⟨cctx.kernDir, cctx.userCtx⟩⟩

/-- **From set-up to messages.** When `priv_new_backend` has returned 0 and the context is
activated, every message gets across, whichever end encrypts. -/
theorem established_channel {alg keySize : UInt32} {cctx' : Cctx} {d' : Control} (hTurns : 2 ≤ turns)
    (hCreate : privCreateCctx env alg keySize = .ok cctx) (hFd : env.kernFd = some f)
    (hMakes : env.MakesCtx cctx d)
    (hNew : privNewBackend tls turns env cctx d = some (.ret 0, cctx', d'))
    (aes : List UInt8 → BlockStream 128 16) (msgs : List (AesBlock × List UInt8)) :
    ∃ c, d'.files f = some c ∧
      ((channel cctx' (d'.doSetActivated f true).2.2 c).sendAll aes msgs).map
        (fun x => (x.kernRc, x.userRc, x.recovered)) = msgs.map fun m => (0, 0, m.2) := by
  obtain ⟨id, c, d₁, hInit, hFile, -, -, hSize, hDir⟩ := kernInit_made hMakes hFd
  obtain ⟨hLen, hUser⟩ := privCreateCctx_ok hCreate
  rcases @privNewBackend_made tls turns env cctx d c hTurns _ _ _ hInit hFile hSize hLen hUser rfl
    with ⟨rc, hNeg, _, _, hEnd⟩ | ⟨key, d₂, hEnd, hOnly, hKey, hCtr, hSame⟩
  · cases hEnd.symm.trans hNew
    exact absurd hNeg (Int.lt_irrefl 0)
  · cases hEnd.symm.trans hNew
    have hFile' : d'.files f = some c := (congrFun hOnly.files f).trans hFile
    have hHeap : (d'.doSetActivated f true).2.2.reg.heap c =
        { d'.reg.heap c with activated := true } := by
      rw [Control.doSetActivated, hFile']
      exact update_self ..
    refine ⟨c, hFile', Paired.delivers (?_ : Paired _ key (BitVec.ofNat 128 (ofBeBytes cctx.iv))) msgs⟩
    rw [channel, hHeap]
    exact ⟨rfl, hKey, hCtr, congrArg (PrivCctx.mk · _) (hSame.trans hDir).symm⟩

/-- **Setting up a backend**: what the library concludes from `NEW_CTX` is right exactly if it
is not reached or makes a context. -/
theorem setup_iff {alg keySize : UInt32} (hTurns : 2 ≤ turns)
    (hCreate : privCreateCctx env alg keySize = .ok cctx) :
    Detects tls turns env cctx d ↔ env.kernFd = none ∨ env.MakesCtx cctx d := by
  refine ⟨fun h => ?_, fun h => ?_⟩
  · cases hFd : env.kernFd with
    | none => exact Or.inl rfl
    | some f =>
      refine Or.inr (by_contra fun hNot => ?_)
      exact not_created hNot f (h.init _ _ (kernInit_some hFd))
  · cases hFd : env.kernFd with
    | none => exact detects_of_unopened hFd
    | some f =>
      exact detects_of_makes hTurns hCreate hFd
        (h.resolve_left fun hNone => nomatch hFd.symm.trans hNone)

end NewBackend

/-- Nothing fails in user space and the kernel has memory at 7. -/
def sampleSetup (ctx : Option Nat) : SetupEnv where
  cctx := true
  userInit := true
  schedule := []
  iv := List.replicate 16 3
  length_iv := rfl
  dirDec := false
  kernFd := some 0
  pid := 1
  newCtxCopied := true
  make := ⟨ctx, none, some (List.replicate MAX_KEX_MSG_LEN 0)⟩
  junk := 0
  uenv := { fault := fun _ => none, random := 1 }
  kenv := { fault := fun _ => none, random := 2 }
  stack := List.replicate MAX_KEX_MSG_LEN 0
  kexOutLen := 0
  setIvCopied := true

def sampleCctx (keySize : UInt32) : Cctx :=
  ⟨PRIV_CRYPT_ALG_AES_CTR, keySize, PRIV_CRYPT_DIR_ENC,
    some ⟨[], BitVec.ofNat 128 (ofBeBytes (List.replicate 16 3))⟩, List.replicate 16 3, none⟩

theorem setup_sample :
    Detects repeatPrf 2 (sampleSetup (some 7)) (sampleCctx 16) emptyControl ∧
    (privNewBackend repeatPrf 2 (sampleSetup (some 7)) (sampleCctx 16) emptyControl).map
      Prod.fst = some (.ret 0) := by
  have hCreate : privCreateCctx (sampleSetup (some 7)) 1 16 = .ok (sampleCctx 16) := rfl
  have hMakes : (sampleSetup (some 7)).MakesCtx (sampleCctx 16) emptyControl := by
    refine ⟨rfl, ?_, Option.some_ne_none _, by decide⟩
    rintro (h | h | h | h | h)
    · exact absurd h (by decide)
    · exact absurd h (by decide)
    · cases h
    · exact absurd h (by decide)
    · cases h
  exact ⟨(setup_iff (Nat.le_refl 2) hCreate).mpr (Or.inr hMakes), by decide +kernel⟩

theorem established_channel_sample : ∃ cctx d c,
    privNewBackend repeatPrf 2 (sampleSetup (some 7)) (sampleCctx 16) emptyControl =
      some (.ret 0, cctx, d) ∧ d.files 0 = some c ∧
    ((channel cctx (d.doSetActivated 0 true).2.2 c).sendAll repeatCtr
      [(⟨List.replicate 16 0, rfl⟩, [1, 2, 3])]).map
        (fun x => (x.kernRc, x.userRc, x.recovered)) = [(0, 0, [1, 2, 3])] := by
  have hRun : (privNewBackend repeatPrf 2 (sampleSetup (some 7)) (sampleCctx 16)
      emptyControl).map Prod.fst = some (.ret 0) := by decide +kernel
  obtain ⟨⟨_, cctx, d⟩, hNew, rfl⟩ := Option.map_eq_some_iff.mp hRun
  have hMakes : (sampleSetup (some 7)).MakesCtx (sampleCctx 16) emptyControl :=
    ⟨rfl, by simp [MakeEnv.Fails, sampleSetup, sampleCctx, Cctx.desc], Option.some_ne_none _,
      by decide⟩
  have hCreate : privCreateCctx (sampleSetup (some 7)) 1 16 = .ok (sampleCctx 16) := rfl
  obtain ⟨c, hFile, hAll⟩ := established_channel (Nat.le_refl 2) hCreate rfl hMakes hNew repeatCtr _
  exact ⟨cctx, d, c, hNew, hFile, hAll⟩

/-- With keys of 20 bytes, or without memory, `NEW_CTX` fails; `kern_init` returns 0, and the key
exchange goes to a null pointer. -/
theorem setup_misses_failure :
    (privCreateCctx (sampleSetup (some 7)) 1 20 = .ok (sampleCctx 20) ∧
      (kernInit (sampleSetup (some 7)) (sampleCctx 20) emptyControl).1 = 0 ∧
      (kernInit (sampleSetup (some 7)) (sampleCctx 20) emptyControl).2.2.files 0 = none ∧
      (privNewBackend repeatPrf 2 (sampleSetup (some 7)) (sampleCctx 20) emptyControl).map
        Prod.fst = some .oops ∧
      ¬ Detects repeatPrf 2 (sampleSetup (some 7)) (sampleCctx 20) emptyControl) ∧
    (privNewBackend repeatPrf 2 (sampleSetup none) (sampleCctx 16) emptyControl).map
      Prod.fst = some .oops := by
  refine ⟨⟨rfl, rfl, rfl, by decide +kernel, fun h => ?_⟩, by decide +kernel⟩
  obtain ⟨c, hFile, -⟩ := h.init _ _ rfl
  cases hFile

end Lacuna.Crypt.Setup
