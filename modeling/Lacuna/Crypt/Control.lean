import Lacuna.Crypt.Registry
import Lacuna.Kex.Kernel

/-!
# The control device

The ioctls of `drivers/priv/priv_crypt_drv.c` and `make_crypto_ctx` of
`crypto.c`. An open file names a context in its `private_data`, and goes on naming
its memory when the context is destroyed through another file, or its process dies.

`Control.births` counts the contexts that were made at an address. It is history:
the context of a file is live (`Control.Live`) if it is listed and no other one has
been made in its place.
-/

namespace Lacuna.Crypt

open Lacuna.Lib Lacuna.Kex Function

def PRIV_CRYPT_ALG_AES_CTR : UInt32 := 1
def PRIV_CRYPT_DIR_ENC : UInt8 := 1
def PRIV_CRYPT_DIR_DEC : UInt8 := 2

structure Control where
  reg : Registry
  /-- `key_size` of the contexts -/
  keySize : Nat → Nat
  /-- `kex_buf` of the contexts -/
  kexBuf : Nat → List UInt8
  /-- `private_data` of the files -/
  files : Nat → Option Nat
  /-- history: the number of contexts made at an address -/
  births : Nat → Nat
  /-- history: `births` when the file was given its context -/
  fileBirth : Nat → Nat

namespace Control

/-- The context that the file was given has not been destroyed. -/
def Live (d : Control) (f : Nat) : Prop :=
  ∃ c, d.files f = some c ∧ c ∈ d.reg.ctxList ∧ d.fileBirth f = d.births c

def setFile (d : Control) (f c : Nat) : Control :=
  { d with
    files := update d.files f (some c)
    fileBirth := update d.fileBirth f (d.births c) }

def clearFile (d : Control) (f : Nat) : Control :=
  { d with files := update d.files f none }

def modifyCtx (d : Control) (c : Nat) (f : PrivCryptCtx → PrivCryptCtx) : Control :=
  { d with reg := d.reg.modifyCtx c f }

end Control

/-! ## Commands -/

structure AlgDesc where
  alg : UInt32
  keySize : UInt32
  dir : UInt8

structure IvDesc where
  ivSize : UInt32
  iv : List UInt8

structure MakeEnv where
  /-- the address that `kzalloc` returns -/
  ctx : Option Nat
  /-- a failure of `setup_crypto_ctx`: of the cipher, the page or the first key -/
  setup : Fault
  /-- what `kmalloc` returns for `kex_buf` -/
  kexBuf : Option (List UInt8)

/-- The ioctls, with what `copy_from_user` finds (`none` if it fails). For `NEW_CTX`, `junk` is
what the pointer `cctx` holds before it is set. -/
inductive Cmd where
  | newCtx (pid : Nat) (arg : Option AlgDesc) (env : MakeEnv) (junk : Nat)
  | useCtx (arg : Option UInt32)
  | setIv (arg : Option IvDesc)
  | activate
  | deactivate
  | keyExchange (env : KernEnv) (inBuf : List UInt8)
  | destroy
  | other

/-- What an ioctl comes to: a return value, or a fault of the kernel. -/
inductive Outcome where
  | ret (rc : Int)
  | oops
  deriving DecidableEq

/-- An ioctl: its outcome, the context it acts on, and the state afterwards. -/
abbrev Effect := Outcome × Option Nat × Control

namespace Control

def refuse (d : Control) (rc : Int) : Effect := (.ret rc, none, d)

def addCtx (d : Control) (c : Nat) (desc : AlgDesc) (kexBuf : List UInt8) : Control :=
  let dir := if desc.dir = PRIV_CRYPT_DIR_ENC then Dir.enc else Dir.dec
  { d with
    reg := Crypt.makeCryptoCtx d.reg c desc.keySize.toNat dir
    keySize := update d.keySize c desc.keySize.toNat
    kexBuf := update d.kexBuf c kexBuf
    births := update d.births c (d.births c + 1) }

/-- `store_ctx` for process `pid`, and `*priv_store`. -/
def storeCtx (d : Control) (f pid c : Nat) : Control :=
  let d := d.modifyCtx c fun k => { k with allocPid := pid }
  { d with reg := { d.reg with ctxList := c :: d.reg.ctxList } }.setFile f c

/-- The return code and, if it is set, `*result`. Without memory for `kex_buf` the code is 0, the
one of `setup_crypto_ctx`. -/
def makeCryptoCtx (d : Control) (desc : AlgDesc) (env : MakeEnv) : Int × Option Nat × Control :=
  if desc.alg ≠ PRIV_CRYPT_ALG_AES_CTR then (-EINVAL, none, d)
  else if desc.dir ≠ PRIV_CRYPT_DIR_ENC ∧ desc.dir ≠ PRIV_CRYPT_DIR_DEC then (-EINVAL, none, d)
  else
    match env.ctx with
    | none => (-ENOMEM, none, d)
    | some c =>
      if desc.keySize ≠ 16 ∧ desc.keySize ≠ 24 ∧ desc.keySize ≠ 32 then (-EINVAL, none, d)
      else
        match env.setup, env.kexBuf with
        | some n, _ => (Fault.rc n, none, d)
        | none, none => (0, none, d)
        | none, some kexBuf =>
          let d := d.addCtx c desc kexBuf
          (d.reg.lastId.toBitVec.toInt, some c, d)

def doNewCtx (d : Control) (f pid : Nat) (arg : Option AlgDesc) (env : MakeEnv) (junk : Nat) :
    Effect :=
  match arg with
  | none => d.refuse (-EFAULT)
  | some desc =>
    let (rc, result, d) := d.makeCryptoCtx desc env
    if rc < 0 then d.refuse rc
    else (.ret rc, some (result.getD junk), d.storeCtx f pid (result.getD junk))

def doUseCtx (d : Control) (f : Nat) (arg : Option UInt32) : Effect :=
  match arg with
  | none => d.refuse (-EFAULT)
  | some id =>
    match findCtxById d.reg id with
    | none => d.refuse (-ENODEV)
    | some c => (.ret 0, some c, d.setFile f c)

/-- The contexts of `ctr(aes)` have IVs of 16 bytes. -/
def privSetIv (desc : IvDesc) (k : PrivCryptCtx) : Int × PrivCryptCtx :=
  if desc.ivSize ≠ 16 then (-EINVAL, k)
  else (0, { k with ctr := BitVec.ofNat 128 (ofBeBytes (desc.iv.take 16)) })

def doSetIv (d : Control) (f : Nat) (arg : Option IvDesc) : Effect :=
  match d.files f with
  | none => d.refuse (-EINVAL)
  | some c =>
    match arg with
    | none => d.refuse (-EFAULT)
    | some desc =>
      (.ret (privSetIv desc (d.reg.heap c)).1, some c, d.modifyCtx c fun k => (privSetIv desc k).2)

def doSetActivated (d : Control) (f : Nat) (activated : Bool) : Effect :=
  match d.files f with
  | none => d.refuse (-EINVAL)
  | some c => (.ret 0, some c, d.modifyCtx c fun k => privSetActivated k activated)

def doDestroy (d : Control) (f : Nat) : Effect :=
  match d.files f with
  | none => d.refuse (-EINVAL)
  | some c => (.ret 0, some c, { d with reg := destroyCtx d.reg c }.clearFile f)

def kexCctx (d : Control) (c : Nat) : KexCctx := ⟨d.reg.heap c, d.keySize c, d.kexBuf c⟩

/-- Without a context `cctx->kex_buf` is read through a null pointer. -/
def doKex (tls : Tls1Prf) (d : Control) (f : Nat) (env : KernEnv) (inBuf : List UInt8) : Effect :=
  if (env.fault .copyDesc).isSome then d.refuse (-EFAULT)
  else if MAX_KEX_MSG_LEN < inBuf.length then d.refuse (-EINVAL)
  else
    match d.files f with
    | none => (.oops, none, d)
    | some c =>
      let (r, k) := kexIoctl tls env (d.kexCctx c) inBuf
      let rc := match r with
        | .error rc => rc
        | .ok _ => 0
      (.ret rc, some c,
        { d.modifyCtx c fun _ => k.cctx with kexBuf := update d.kexBuf c k.kexBuf })

def privCryptIoctl (tls : Tls1Prf) (d : Control) (f : Nat) : Cmd → Effect
  | .newCtx pid arg env junk => d.doNewCtx f pid arg env junk
  | .useCtx arg => d.doUseCtx f arg
  | .setIv arg => d.doSetIv f arg
  | .activate => d.doSetActivated f true
  | .deactivate => d.doSetActivated f false
  | .keyExchange env inBuf => d.doKex tls f env inBuf
  | .destroy => d.doDestroy f
  | .other => d.refuse (-EINVAL)

end Control

inductive ControlOp where
  | openFile (f : Nat)
  | ioctl (f : Nat) (cmd : Cmd)
  | pidDeath (pid : Nat)
  | deviceCctxIdStore (ref : Nat) (id : UInt32)

namespace ControlOp

def run (tls : Tls1Prf) (d : Control) : ControlOp → Control
  | .openFile f => d.clearFile f
  | .ioctl f cmd => (d.privCryptIoctl tls f cmd).2.2
  | .pidDeath pid => { d with reg := privPidDeathAction d.reg pid }
  | .deviceCctxIdStore ref id => { d with reg := (Crypt.deviceCctxIdStore d.reg ref id).2 }

def FreshMemory (d : Control) : ControlOp → Prop
  | .ioctl _ (.newCtx _ _ env _) => ∀ c, env.ctx = some c → d.reg.allocated c = false
  | _ => True

def Step (tls : Tls1Prf) (d : Control) (op : ControlOp) (d' : Control) : Prop :=
  op.FreshMemory d ∧ d' = op.run tls d

end ControlOp

/-- On the listed context that the file was given; without one, an error and no effect. -/
def Control.SafeEffect (d : Control) (f : Nat) (r : Effect) : Prop :=
  (∀ c, r.2.1 = some c → d.Live f ∧ c ∈ d.reg.ctxList ∧ d.reg.allocated c = true) ∧
    (¬ d.Live f → (∃ rc < 0, r.1 = .ret rc) ∧ r.2.2 = d)

/-- What a command may do. `NEW_CTX` acts on the context that it makes and lists, `USE_CTX` on a
listed one, the others on the listed context that the file was given. -/
def Cmd.Safe (tls : Tls1Prf) (d : Control) (f : Nat) (cmd : Cmd) : Prop :=
  let r := d.privCryptIoctl tls f cmd
  match cmd with
  | .newCtx _ _ _ _ => ∀ c, r.2.1 = some c →
      d.reg.allocated c = false ∧ c ∈ r.2.2.reg.ctxList ∧ r.2.2.reg.allocated c = true
  | .useCtx _ => ∀ c, r.2.1 = some c → c ∈ d.reg.ctxList ∧ d.reg.allocated c = true
  | _ => d.SafeEffect f r

def ControlOp.Safe (tls : Tls1Prf) (d : Control) : ControlOp → Prop
  | .ioctl f cmd => cmd.Safe tls d f
  | _ => True

/-- `make_crypto_ctx` fails before it comes to `kex_buf`. -/
def MakeEnv.Fails (env : MakeEnv) (desc : AlgDesc) : Prop :=
  desc.alg ≠ PRIV_CRYPT_ALG_AES_CTR ∨
    (desc.dir ≠ PRIV_CRYPT_DIR_ENC ∧ desc.dir ≠ PRIV_CRYPT_DIR_DEC) ∨ env.ctx = none ∨
    (desc.keySize ≠ 16 ∧ desc.keySize ≠ 24 ∧ desc.keySize ≠ 32) ∨ env.setup.isSome

/-- The command finds a live context if it comes as far, or none if it tests for that. -/
def Cmd.FindsContext (d : Control) (f : Nat) : Cmd → Prop
  | .newCtx _ arg env _ => ∀ desc, arg = some desc → env.kexBuf = none → env.Fails desc
  | .useCtx _ => True
  | .setIv arg => arg.isSome → d.Live f ∨ d.files f = none
  | .activate => d.Live f ∨ d.files f = none
  | .deactivate => d.Live f ∨ d.files f = none
  | .keyExchange env inBuf =>
    env.fault .copyDesc = none → inBuf.length ≤ MAX_KEX_MSG_LEN → d.Live f
  | .destroy => d.Live f ∨ d.files f = none
  | .other => True

def ControlOp.FindsContext (d : Control) : ControlOp → Prop
  | .ioctl f cmd => cmd.FindsContext d f
  | _ => True

structure ListInv (reg : Registry) : Prop where
  listed : ∀ c ∈ reg.ctxList, reg.allocated c = true
  nodup : reg.ctxList.Nodup

/-! ## One command -/

section Command

variable {d : Control} {f : Nat}

variable {pid junk : Nat} {tls : Tls1Prf} {r : Effect}

theorem makeCryptoCtx_cases (d : Control) (desc : AlgDesc) (env : MakeEnv) :
    (env.Fails desc ∧ ∃ rc < 0, d.makeCryptoCtx desc env = (rc, none, d)) ∨
    (¬ env.Fails desc ∧ env.kexBuf = none ∧ d.makeCryptoCtx desc env = (0, none, d)) ∨
    ¬ env.Fails desc ∧ ∃ c kexBuf, env.ctx = some c ∧ env.kexBuf = some kexBuf ∧
      d.makeCryptoCtx desc env = ((d.reg.lastId + 1).toBitVec.toInt, some c,
        d.addCtx c desc kexBuf) := by
  unfold Control.makeCryptoCtx
  by_cases hAlg : desc.alg ≠ PRIV_CRYPT_ALG_AES_CTR
  · rw [if_pos hAlg]
    exact .inl ⟨.inl hAlg, -EINVAL, by decide, rfl⟩
  rw [if_neg hAlg]
  by_cases hDir : desc.dir ≠ PRIV_CRYPT_DIR_ENC ∧ desc.dir ≠ PRIV_CRYPT_DIR_DEC
  · rw [if_pos hDir]
    exact .inl ⟨.inr (.inl hDir), -EINVAL, by decide, rfl⟩
  rw [if_neg hDir]
  cases hCtx : env.ctx with
  | none => exact .inl ⟨.inr (.inr (.inl hCtx)), -ENOMEM, by decide, rfl⟩
  | some c =>
    dsimp only
    by_cases hSize : desc.keySize ≠ 16 ∧ desc.keySize ≠ 24 ∧ desc.keySize ≠ 32
    · rw [if_pos hSize]
      exact .inl ⟨.inr (.inr (.inr (.inl hSize))), -EINVAL, by decide, rfl⟩
    rw [if_neg hSize]
    cases hSetup : env.setup with
    | some n =>
      refine .inl ⟨.inr (.inr (.inr (.inr ?_))), Fault.rc n, ?_, rfl⟩
      · rw [hSetup, Option.isSome_some]
      · unfold Fault.rc
        omega
    | none =>
      have hNot : ¬ env.Fails desc := by
        rintro (h | h | h | h | h)
        · exact hAlg h
        · exact hDir h
        · cases hCtx.symm.trans h
        · exact hSize h
        · rw [hSetup] at h
          cases h
      cases hBuf : env.kexBuf with
      | some kexBuf => exact .inr (.inr ⟨hNot, c, kexBuf, rfl, rfl, rfl⟩)
      | none => exact .inr (.inl ⟨hNot, rfl, rfl⟩)

/-- `NEW_CTX`, unless `kex_buf` is the first allocation to fail. A context whose id is negative
as an `int` is made, but not stored. -/
theorem doNewCtx_cases {arg : Option AlgDesc} {env : MakeEnv}
    (hFinds : ∀ desc, arg = some desc → env.kexBuf = none → env.Fails desc) :
    (∃ rc, d.doNewCtx f pid arg env junk = d.refuse rc) ∨
    ∃ c desc kexBuf, env.ctx = some c ∧
      ((∃ rc, d.doNewCtx f pid arg env junk = (d.addCtx c desc kexBuf).refuse rc) ∨
      ∃ rc, d.doNewCtx f pid arg env junk =
        (.ret rc, some c, (d.addCtx c desc kexBuf).storeCtx f pid c)) := by
  cases arg with
  | none => exact .inl ⟨-EFAULT, rfl⟩
  | some desc =>
    unfold Control.doNewCtx
    rcases makeCryptoCtx_cases d desc env with ⟨-, rc, hNeg, hMake⟩ | ⟨hNot, hBuf, -⟩ |
      ⟨-, c, kexBuf, hCtx, -, hMake⟩
    · simp only [hMake, if_pos hNeg]
      exact .inl ⟨rc, rfl⟩
    · exact absurd (hFinds desc rfl hBuf) hNot
    · simp only [hMake]
      refine .inr ⟨c, desc, kexBuf, hCtx, ?_⟩
      split
      · exact .inl ⟨_, rfl⟩
      · exact .inr ⟨_, rfl⟩

theorem doNewCtx_junk {desc : AlgDesc} {env : MakeEnv}
    (hBuf : env.kexBuf = none) (hNot : ¬ env.Fails desc) :
    d.doNewCtx f pid (some desc) env junk = (.ret 0, some junk, d.storeCtx f pid junk) := by
  unfold Control.doNewCtx
  rcases makeCryptoCtx_cases d desc env with ⟨hFails, -⟩ | ⟨-, -, hMake⟩ |
    ⟨-, c, kexBuf, -, hSome, -⟩
  · exact absurd hFails hNot
  · simp only [hMake]
    rfl
  · cases hBuf.symm.trans hSome

theorem newCtx_safe_iff {arg : Option AlgDesc} {env : MakeEnv}
    (hFree : ∀ c, env.ctx = some c → d.reg.allocated c = false) :
    (Cmd.newCtx pid arg env junk).Safe tls d f ↔
      (Cmd.newCtx pid arg env junk).FindsContext d f := by
  constructor
  · intro hSafe desc hArg hBuf
    subst hArg
    by_contra hNot
    have hAct : d.doNewCtx f pid (some desc) env junk = _ := doNewCtx_junk hBuf hNot
    obtain ⟨hBefore, -, hAfter⟩ := hSafe junk (congrArg (·.2.1) hAct)
    have hSame : (d.doNewCtx f pid (some desc) env junk).2.2.reg.allocated junk =
        d.reg.allocated junk := by rw [hAct]; rfl
    cases hBefore.symm.trans (hSame.symm.trans hAfter)
  · intro hFinds
    show ∀ c, (d.doNewCtx f pid arg env junk).2.1 = some c → d.reg.allocated c = false ∧
      c ∈ (d.doNewCtx f pid arg env junk).2.2.reg.ctxList ∧
      (d.doNewCtx f pid arg env junk).2.2.reg.allocated c = true
    rcases doNewCtx_cases hFinds with ⟨rc, hNew⟩ | ⟨c, desc, kexBuf, hCtx, ⟨rc, hNew⟩ | ⟨rc, hNew⟩⟩
    · rw [hNew]
      exact fun _ hAct => nomatch hAct
    · rw [hNew]
      exact fun _ hAct => nomatch hAct
    · rw [hNew]
      rintro _ ⟨⟩
      exact ⟨hFree c hCtx, List.mem_cons_self, update_self ..⟩

theorem useCtx_safe (hInv : ListInv d.reg) (arg : Option UInt32) :
    (Cmd.useCtx arg).Safe tls d f := by
  intro c hAct
  change (d.doUseCtx f arg).2.1 = some c at hAct
  unfold Control.doUseCtx at hAct
  cases arg with
  | none => cases hAct
  | some id =>
    cases hFind : findCtxById d.reg id with
    | none =>
      simp only [hFind] at hAct
      cases hAct
    | some c' =>
      simp only [hFind] at hAct
      cases hAct
      exact ⟨findCtxById_mem hFind, hInv.listed c (findCtxById_mem hFind)⟩

theorem refuse_safe (h : ∃ rc < 0, r = d.refuse rc) : d.SafeEffect f r := by
  obtain ⟨rc, hNeg, rfl⟩ := h
  exact ⟨fun _ hAct => (nomatch hAct), fun _ => ⟨⟨rc, hNeg, rfl⟩, rfl⟩⟩

theorem acts_safe_iff (hInv : ListInv d.reg) {c : Nat} (hFile : d.files f = some c)
    (hAct : r.2.1 = some c) : d.SafeEffect f r ↔ d.Live f := by
  refine ⟨fun h => (h.1 c hAct).1, fun hLive => ⟨fun c' hAct' => ?_, fun hNot => absurd hLive hNot⟩⟩
  obtain ⟨c₀, hFile', hListed, -⟩ := id hLive
  cases hFile.symm.trans hFile'
  cases hAct.symm.trans hAct'
  exact ⟨hLive, hListed, hInv.listed c hListed⟩

/-- A command that tests whether there is a context, and acts on it. -/
structure Tests (d : Control) (f : Nat) (r : Effect) : Prop where
  refuses : d.files f = none → ∃ rc < 0, r = d.refuse rc
  acts : ∀ c, d.files f = some c → r.2.1 = some c

theorem Tests.safe_iff (hInv : ListInv d.reg) (h : Tests d f r) :
    d.SafeEffect f r ↔ d.Live f ∨ d.files f = none := by
  cases hFile : d.files f with
  | none => exact iff_of_true (refuse_safe (h.refuses hFile)) (.inr rfl)
  | some c =>
    rw [acts_safe_iff hInv hFile (h.acts c hFile)]
    exact ⟨Or.inl, fun hOr => hOr.elim id fun hNone => (nomatch hNone)⟩

theorem doSetIv_tests (desc : IvDesc) : Tests d f (d.doSetIv f (some desc)) where
  refuses hNone := ⟨-EINVAL, by decide, by rw [Control.doSetIv, hNone]⟩
  acts c hFile := by rw [Control.doSetIv, hFile]

theorem doSetActivated_tests (activated : Bool) : Tests d f (d.doSetActivated f activated) where
  refuses hNone := ⟨-EINVAL, by decide, by rw [Control.doSetActivated, hNone]⟩
  acts c hFile := by rw [Control.doSetActivated, hFile]

theorem doDestroy_tests : Tests d f (d.doDestroy f) where
  refuses hNone := ⟨-EINVAL, by decide, by rw [Control.doDestroy, hNone]⟩
  acts c hFile := by rw [Control.doDestroy, hFile]

theorem doSetIv_none : ∃ rc < 0, d.doSetIv f none = d.refuse rc := by
  cases hFile : d.files f with
  | none => exact ⟨-EINVAL, by decide, by rw [Control.doSetIv, hFile]⟩
  | some c => exact ⟨-EFAULT, by decide, by rw [Control.doSetIv, hFile]⟩

theorem doKex_safe_iff (hInv : ListInv d.reg) (tls : Tls1Prf) (env : KernEnv) (inBuf : List UInt8) :
    d.SafeEffect f (d.doKex tls f env inBuf) ↔
      (env.fault .copyDesc = none → inBuf.length ≤ MAX_KEX_MSG_LEN → d.Live f) := by
  unfold Control.doKex
  by_cases hDesc : (env.fault .copyDesc).isSome
  · rw [if_pos hDesc]
    refine iff_of_true (refuse_safe ⟨-EFAULT, by decide, rfl⟩) fun hNone => ?_
    rw [hNone] at hDesc
    cases hDesc
  rw [if_neg hDesc]
  by_cases hLen : MAX_KEX_MSG_LEN < inBuf.length
  · rw [if_pos hLen]
    exact iff_of_true (refuse_safe ⟨-EINVAL, by decide, rfl⟩) fun _ hLe =>
      absurd hLen (Nat.not_lt.mpr hLe)
  rw [if_neg hLen]
  have hReach : (env.fault .copyDesc = none → inBuf.length ≤ MAX_KEX_MSG_LEN → d.Live f) ↔
      d.Live f :=
    ⟨fun h => h (Option.not_isSome_iff_eq_none.mp hDesc) (Nat.not_lt.mp hLen), fun h _ _ => h⟩
  rw [hReach]
  cases hFile : d.files f with
  | some c => exact acts_safe_iff hInv hFile rfl
  | none =>
    have hNot : ¬ d.Live f := fun ⟨c, hSome, _⟩ => nomatch hFile.symm.trans hSome
    refine iff_of_false (fun h => ?_) hNot
    obtain ⟨⟨rc, -, hRet⟩, -⟩ := h.2 hNot
    cases hRet

/-- **One command** is safe exactly if it finds its context. -/
theorem Cmd.safe_iff {cmd : Cmd} (hInv : ListInv d.reg)
    (hFresh : (ControlOp.ioctl f cmd).FreshMemory d) :
    cmd.Safe tls d f ↔ cmd.FindsContext d f := by
  cases cmd with
  | newCtx pid arg env junk => exact newCtx_safe_iff hFresh
  | useCtx arg => exact iff_of_true (useCtx_safe hInv arg) trivial
  | setIv arg =>
    cases arg with
    | none => exact iff_of_true (refuse_safe doSetIv_none) fun h => nomatch h
    | some desc => exact ((doSetIv_tests desc).safe_iff hInv).trans ⟨fun h _ => h, fun h => h rfl⟩
  | activate => exact (doSetActivated_tests true).safe_iff hInv
  | deactivate => exact (doSetActivated_tests false).safe_iff hInv
  | keyExchange env inBuf => exact doKex_safe_iff hInv tls env inBuf
  | destroy => exact doDestroy_tests.safe_iff hInv
  | other => exact iff_of_true (refuse_safe ⟨-EINVAL, by decide, rfl⟩) trivial

end Command

/-! ## The list -/

section List

variable {reg : Registry}

theorem listInv_of_empty (h : reg.ctxList = []) : ListInv reg := by
  refine ⟨fun c hc => ?_, h ▸ List.nodup_nil⟩
  rw [h] at hc
  cases hc

def SameList (reg reg' : Registry) : Prop :=
  reg'.ctxList = reg.ctxList ∧ reg'.allocated = reg.allocated

theorem ListInv.of_sameList {reg' : Registry} (h : ListInv reg) (hSame : SameList reg reg') :
    ListInv reg' := by
  refine ⟨fun c hc => ?_, hSame.1 ▸ h.nodup⟩
  rw [hSame.1] at hc
  rw [hSame.2]
  exact h.listed c hc

theorem sameList_unuseCtx (reg : Registry) (ref : Option Nat) :
    SameList reg (unuseCtx reg ref) := by
  cases ref with
  | none => exact ⟨rfl, rfl⟩
  | some ref =>
    simp only [unuseCtx]
    split <;> exact ⟨rfl, rfl⟩

theorem sameList_useCtx (reg : Registry) (id : UInt32) (ref : Nat) :
    SameList reg (useCtx reg id (some ref)).2 := by
  unfold useCtx
  dsimp only
  split
  · exact ⟨rfl, rfl⟩
  · split <;> exact ⟨rfl, rfl⟩

theorem sameList_deviceCctxIdStore (reg : Registry) (ref : Nat) (id : UInt32) :
    SameList reg (deviceCctxIdStore reg ref id).2 :=
  ⟨(sameList_useCtx ..).1.trans (sameList_unuseCtx ..).1,
    (sameList_useCtx ..).2.trans (sameList_unuseCtx ..).2⟩

theorem ListInv.destroyCtx (h : ListInv reg) (c : Nat) : ListInv (destroyCtx reg c) := by
  refine ⟨fun c' hc' => ?_, ?_⟩
  · rw [ctxList_destroyCtx] at hc'
    obtain ⟨hNe, hIn⟩ := h.nodup.mem_erase_iff.mp hc'
    rw [allocated_destroyCtx, update_of_ne hNe]
    exact h.listed c' hIn
  · rw [ctxList_destroyCtx]
    exact h.nodup.erase c

theorem ListInv.pidDeath (h : ListInv reg) (pid : Nat) (cs : List Nat) :
    let reg' := cs.foldl
      (fun reg c => if (reg.heap c).allocPid = pid then Crypt.destroyCtx reg c else reg) reg
    ListInv reg' ∧ ∀ c ∈ reg.ctxList, (reg.heap c).allocPid ≠ pid → c ∈ reg'.ctxList := by
  induction cs generalizing reg with
  | nil => exact ⟨h, fun c hc _ => hc⟩
  | cons c cs ih =>
    simp only [List.foldl_cons]
    split
    · rename_i hPid
      obtain ⟨hInv, hStay⟩ := ih (h.destroyCtx c)
      refine ⟨hInv, fun c' hc' hOther => ?_⟩
      have hNe : c' ≠ c := fun hEq => hOther (hEq ▸ hPid)
      refine hStay c' ?_ ?_
      · rw [ctxList_destroyCtx]
        exact (List.mem_erase_of_ne hNe).mpr hc'
      · rwa [heap_destroyCtx hNe]
    · exact ih h

theorem ListInv.store (h : ListInv reg) {c : Nat} (hFree : reg.allocated c = false) {reg' : Registry}
    (hList : reg'.ctxList = reg.ctxList ∨ reg'.ctxList = c :: reg.ctxList)
    (hAlloc : reg'.allocated = update reg.allocated c true) : ListInv reg' := by
  have hNotIn : c ∉ reg.ctxList := fun hIn => by
    rw [h.listed c hIn] at hFree
    cases hFree
  have hOld : ∀ c' ∈ reg.ctxList, reg'.allocated c' = true := by
    intro c' hIn
    have hNe : c' ≠ c := fun hEq => hNotIn (hEq ▸ hIn)
    rw [hAlloc, update_of_ne hNe]
    exact h.listed c' hIn
  rcases hList with hList | hList
  · exact ⟨hList ▸ hOld, hList ▸ h.nodup⟩
  · refine ⟨fun c' hc' => ?_, hList ▸ List.nodup_cons.mpr ⟨hNotIn, h.nodup⟩⟩
    rw [hList] at hc'
    rcases List.mem_cons.mp hc' with rfl | hIn
    · rw [hAlloc, update_self]
    · exact hOld c' hIn

end List

section Run

variable {tls : Tls1Prf} {d d' : Control}

variable {op : ControlOp} {c : Nat}

/-- What the commands on the context of a file leave alone. -/
structure OnlyContext (d d' : Control) : Prop where
  sameList : SameList d.reg d'.reg
  files : d'.files = d.files
  births : d'.births = d.births
  fileBirth : d'.fileBirth = d.fileBirth

theorem onlyContext_doSetIv (f : Nat) (arg : Option IvDesc) :
    OnlyContext d (d.doSetIv f arg).2.2 := by
  unfold Control.doSetIv
  split
  · exact ⟨⟨rfl, rfl⟩, rfl, rfl, rfl⟩
  · split <;> exact ⟨⟨rfl, rfl⟩, rfl, rfl, rfl⟩

theorem onlyContext_doSetActivated (f : Nat) (activated : Bool) :
    OnlyContext d (d.doSetActivated f activated).2.2 := by
  unfold Control.doSetActivated
  split <;> exact ⟨⟨rfl, rfl⟩, rfl, rfl, rfl⟩

theorem onlyContext_doKex (f : Nat) (env : KernEnv) (inBuf : List UInt8) :
    OnlyContext d (d.doKex tls f env inBuf).2.2 := by
  unfold Control.doKex
  split
  · exact ⟨⟨rfl, rfl⟩, rfl, rfl, rfl⟩
  split
  · exact ⟨⟨rfl, rfl⟩, rfl, rfl, rfl⟩
  split <;> exact ⟨⟨rfl, rfl⟩, rfl, rfl, rfl⟩

/-- **One step keeps the list**, if a context that is stored has been made. -/
theorem ListInv.step_of_newCtx (h : ListInv d.reg) (hStep : op.Step tls d d')
    (hFinds : ∀ f pid arg env junk, op = .ioctl f (.newCtx pid arg env junk) →
      ∀ desc, arg = some desc → env.kexBuf = none → env.Fails desc) : ListInv d'.reg := by
  obtain ⟨hFresh, rfl⟩ := hStep
  cases op with
  | openFile f => exact h
  | pidDeath pid => exact (h.pidDeath pid _).1
  | deviceCctxIdStore ref id => exact h.of_sameList (sameList_deviceCctxIdStore ..)
  | ioctl f cmd =>
    cases cmd with
    | newCtx pid arg env junk =>
      show ListInv (d.doNewCtx f pid arg env junk).2.2.reg
      rcases doNewCtx_cases (hFinds f pid arg env junk rfl) with ⟨rc, hNew⟩ |
        ⟨c, desc, kexBuf, hCtx, ⟨rc, hNew⟩ | ⟨rc, hNew⟩⟩
      · rw [hNew]
        exact h
      · rw [hNew]
        exact h.store (hFresh c hCtx) (.inl rfl) rfl
      · rw [hNew]
        exact h.store (hFresh c hCtx) (.inr rfl) rfl
    | useCtx arg =>
      refine h.of_sameList ?_
      show SameList d.reg (d.doUseCtx f arg).2.2.reg
      unfold Control.doUseCtx
      split
      · exact ⟨rfl, rfl⟩
      · split <;> exact ⟨rfl, rfl⟩
    | setIv arg => exact h.of_sameList (onlyContext_doSetIv f arg).sameList
    | activate => exact h.of_sameList (onlyContext_doSetActivated f true).sameList
    | deactivate => exact h.of_sameList (onlyContext_doSetActivated f false).sameList
    | keyExchange env inBuf => exact h.of_sameList (onlyContext_doKex f env inBuf).sameList
    | destroy =>
      show ListInv (d.doDestroy f).2.2.reg
      unfold Control.doDestroy
      split
      · exact h
      · exact h.destroyCtx _
    | other => exact h

theorem ListInv.step (h : ListInv d.reg) (hStep : op.Step tls d d')
    (hFinds : op.FindsContext d) : ListInv d'.reg := by
  refine h.step_of_newCtx hStep ?_
  rintro f pid arg env junk rfl
  exact hFinds

theorem ControlOp.safe_iff (h : ListInv d.reg) (hFresh : op.FreshMemory d) :
    op.Safe tls d ↔ op.FindsContext d := by
  cases op with
  | ioctl f cmd => exact Cmd.safe_iff h hFresh
  | openFile f => exact Iff.rfl
  | pidDeath pid => exact Iff.rfl
  | deviceCctxIdStore ref id => exact Iff.rfl

/-- **The control device.** From an empty list, whatever the ioctls, process deaths and uses by
devices, each command acts only as it may, exactly when each finds its context. -/
theorem control_safe_iff {tr : Trace Control ControlOp} (hEmpty : d.reg.ctxList = [])
    (hTr : IsTrace (ControlOp.Step tls) d tr) :
    EachStep (fun d op => op.Safe tls d) d tr ↔ EachStep (fun d op => op.FindsContext d) d tr := by
  refine eachStep_iff_of_inv (fun d op d' (h : ListInv d.reg) hStep hFinds => ?_)
    (fun d op d' h hStep => (ControlOp.safe_iff h hStep.1).mp) (listInv_of_empty hEmpty) hTr
  exact ⟨(ControlOp.safe_iff h hStep.1).mpr hFinds, h.step hStep hFinds⟩

def emptyControl : Control where
  reg := emptyRegistry
  keySize := fun _ => 0
  kexBuf := fun _ => []
  files := fun _ => none
  births := fun _ => 0
  fileBirth := fun _ => 0

def noPrf : Tls1Prf := ⟨fun _ _ _ _ => none, fun h => nomatch h⟩

/-- `NEW_CTX` for AES with a key of 16 bytes, at the address 100. -/
def sampleNew (kexBuf : Option (List UInt8)) : Cmd :=
  .newCtx 7 (some ⟨1, 16, 1⟩) ⟨some 100, none, kexBuf⟩ 55

/-- Through a file whose context was destroyed through another one, a file that was never given
one, and a pointer that was never set. -/
theorem control_acts_on_freed :
    (∃ tr : Trace Control ControlOp, tr.map Prod.fst =
      [.ioctl 1 (sampleNew (some [])), .ioctl 2 (.useCtx (some 1)),
        .ioctl 1 .destroy, .ioctl 2 .activate] ∧
      IsTrace (ControlOp.Step noPrf) emptyControl tr ∧
      ¬ EachStep (fun d op => op.Safe noPrf d) emptyControl tr) ∧
    (emptyControl.privCryptIoctl noPrf 1 (.keyExchange ⟨fun _ => none, 0⟩ [1])).1 = .oops ∧
    (emptyControl.privCryptIoctl noPrf 1 (sampleNew none)).1 = .ret 0 ∧
    (emptyControl.privCryptIoctl noPrf 1 (sampleNew none)).2.1 = some 55 := by
  refine ⟨⟨[(_, _), (_, _), (_, _), (_, _)], rfl, ⟨⟨?_, rfl⟩, ⟨trivial, rfl⟩, ⟨trivial, rfl⟩,
    ⟨trivial, rfl⟩, trivial⟩, ?_⟩, rfl, rfl, rfl⟩
  · exact fun c _ => rfl
  · rintro ⟨-, -, -, hActivate, -⟩
    obtain ⟨-, hListed, -⟩ := hActivate.1 100 rfl
    exact absurd hListed (by decide)

theorem control_safe_sample :
    ∃ tr : Trace Control ControlOp, tr.map Prod.fst =
      [.ioctl 1 (sampleNew (some [])), .ioctl 2 (.useCtx (some 1)),
        .ioctl 2 .activate, .ioctl 1 .destroy, .ioctl 1 .activate] ∧
      EachStep (fun d op => op.Safe noPrf d) emptyControl tr := by
  have hTr : IsTrace (ControlOp.Step noPrf) emptyControl
      [(.ioctl 1 (sampleNew (some [])), _), (.ioctl 2 (.useCtx (some 1)), _),
        (.ioctl 2 .activate, _), (.ioctl 1 .destroy, _), (.ioctl 1 .activate, _)] :=
    ⟨⟨fun _ _ => rfl, rfl⟩, ⟨trivial, rfl⟩, ⟨trivial, rfl⟩, ⟨trivial, rfl⟩, ⟨trivial, rfl⟩, trivial⟩
  refine ⟨_, rfl, (control_safe_iff rfl hTr).mpr ⟨?_, trivial, ?_, ?_, ?_, trivial⟩⟩
  · exact fun desc _ hBuf => nomatch hBuf
  · exact Or.inl ⟨100, rfl, List.mem_singleton.mpr rfl, rfl⟩
  · exact Or.inl ⟨100, rfl, List.mem_singleton.mpr rfl, rfl⟩
  · exact Or.inr rfl

end Run

end Lacuna.Crypt
