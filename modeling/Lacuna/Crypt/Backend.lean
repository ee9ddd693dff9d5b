import Lacuna.Crypt.Control

/-!
# Contexts in user space

`libprivcrypt` (`priv_crypt.c`, `kern_backend.c`) and `priv_easy_create` of
`priv-util.c`. A context in user space has a cipher of its own and a file of
the control device, whose context in the kernel it shares a key with.

What `priv_easy_create` meets is a `CreateEnv`, and `CreateEnv.outcome` says from
this alone how it ends: it works (`Made`), fails without a trace (`Restored`), or

* leaks: the id is negative as an `int`, and the kernel keeps the context on no list;
* is lost: `backend->id` is unsigned and the test for a failed `NEW_CTX` never true;
  without memory for `kex_buf` alone the kernel goes on with a pointer that was never
  set; and without the file `priv_destroy_cctx` looks at a `backend_ctx` never set.
-/

namespace Lacuna.Crypt

open Lacuna.Lib Function Option

structure KernBackend where
  kernFd : Nat
  id : UInt32
  deriving DecidableEq

/-- `struct priv_cctx`, the part that creation and destruction read. -/
structure LibCctx where
  userCtx : Nat
  backendCtx : Option KernBackend
  deriving DecidableEq

structure Userland where
  ctl : Control
  /-- the ciphers in user space that have not been destroyed -/
  userCtxs : List Nat

/-- A key exchange: whether a message is sent, the result, and the key left in the kernel. -/
structure KexRun where
  sends : Bool
  rc : Int
  key : List UInt8

structure CreateEnv where
  /-- `malloc` and `user_ops->init` -/
  userCtx : Option Nat
  /-- the memory from `malloc` is not NULL in `backend_ctx` -/
  junk : Bool
  /-- `malloc` and `open` in `kern_init` -/
  kernFd : Option Nat
  pid : Nat
  /-- what `NEW_CTX` meets in the driver, if the system call gets there -/
  newCtx : Option MakeEnv
  kex : KexRun
  /-- the system call of `SET_IV` gets to the driver -/
  setIv : Bool
  iv : List UInt8

/-! ## The library -/

/-- What the system call returns when the driver returns `rc`. -/
def sysRet (rc : Int) : Int := if -4095 ≤ rc ∧ rc < 0 then -1 else rc

def newCtxDesc (dirIn : Bool) : AlgDesc :=
  ⟨PRIV_CRYPT_ALG_AES_CTR, 16, if dirIn then PRIV_CRYPT_DIR_ENC else PRIV_CRYPT_DIR_DEC⟩

def privCmdNewCtx (env : CreateEnv) (d : Control) (f : Nat) (dirIn : Bool) : Option (Int × Control) :=
  match env.newCtx with
  | none => some (-1, d)
  | some make =>
    let (rc, result, d') := d.makeCryptoCtx (newCtxDesc dirIn) make
    if rc < 0 then some (sysRet rc, d')
    else
      match result with
      -- `cctx` of `do_new_ctx` was never set
      | none => none
      | some c => some (rc, d'.storeCtx f env.pid c)

/-- The id is unsigned, and a failed `NEW_CTX` goes unnoticed. -/
def kernInit (env : CreateEnv) (d : Control) (dirIn : Bool) :
    Option (Option KernBackend × Control) :=
  match env.kernFd with
  | none => some (none, d)
  | some f => do
    let (id, d) ← privCmdNewCtx env (d.clearFile f) f dirIn
    return (some ⟨f, UInt32.ofBitVec (BitVec.ofInt 32 id)⟩, d)

def doKexRun (kex : KexRun) (d : Control) (f : Nat) : Option (Int × Control) :=
  if kex.sends then
    match d.files f with
    | none => none
    | some c => some (kex.rc, d.modifyCtx c fun k => { k with key := kex.key })
  else some (kex.rc, d)

def kernSetIv (env : CreateEnv) (d : Control) (f : Nat) : Int × Control :=
  if env.setIv then
    match d.doSetIv f (some ⟨16, env.iv⟩) with
    | (.ret rc, _, d) => (if rc < 0 then -1 else 0, d)
    | (.oops, _, d) => (-1, d)
  else (-1, d)

def kernDestroy (d : Control) (backend : KernBackend) : Control := (d.doDestroy backend.kernFd).2.2

def keyBackend (env : CreateEnv) (d : Control) (backend : KernBackend) :
    Option (Except Int KernBackend × Control) := do
  let (rc, d) ← doKexRun env.kex d backend.kernFd
  if rc < 0 then return (.error rc, kernDestroy d backend)
  else
    let (rc, d) := kernSetIv env d backend.kernFd
    if rc < 0 then return (.error rc, kernDestroy d backend)
    else return (.ok backend, d)

/-- The flag is set if `backend_ctx` is not NULL after an error. -/
def privNewBackend (env : CreateEnv) (d : Control) (dirIn : Bool) :
    Option (Except Int KernBackend × Bool × Control) := do
  let (backend, d) ← kernInit env d dirIn
  match backend with
  | none => return (.error (-1), env.junk, d)
  | some backend =>
    let (r, d) ← keyBackend env d backend
    return (r, false, d)

def privDestroyCctx (lib : Userland) (cctx : LibCctx) : Userland where
  ctl :=
    match cctx.backendCtx with
    | none => lib.ctl
    | some backend => kernDestroy lib.ctl backend
  userCtxs := lib.userCtxs.erase cctx.userCtx

def privEasyCreate (env : CreateEnv) (lib : Userland) (dirIn : Bool) :
    Option (Except Int LibCctx × Userland) :=
  match env.userCtx with
  | none => some (.error (-1), lib)
  | some u => do
    let lib := { lib with userCtxs := u :: lib.userCtxs }
    let (r, junk, d) ← privNewBackend env lib.ctl dirIn
    let lib := { lib with ctl := d }
    match r with
    | .ok backend => return (.ok ⟨u, some backend⟩, lib)
    | .error rc =>
      -- `backend_ctx` was never set
      if junk then none
      else return (.error rc, privDestroyCctx lib ⟨u, none⟩)

/-- `reaches` if the system call gets to the driver. -/
def privActivate (reaches : Bool) (d : Control) (f : Nat) : Int × Control :=
  if reaches then
    match d.doSetActivated f true with
    | (.ret rc, _, d) => (if rc < 0 then -1 else 0, d)
    | (.oops, _, d) => (-1, d)
  else (-1, d)

/-! ## How it ends -/

inductive Creation where
  | works
  | fails
  | leaks
  | lost
  deriving DecidableEq

namespace CreateEnv

/-- The address at which the kernel makes a context. -/
def ctx (env : CreateEnv) : Option Nat := do
  let make ← env.newCtx
  let c ← make.ctx
  if make.setup = none ∧ make.kexBuf.isSome then some c else none

def wild (env : CreateEnv) : Bool :=
  match env.newCtx with
  | none => false
  | some make => make.ctx.isSome && make.setup.isNone && make.kexBuf.isNone

/-- How `priv_easy_create` ends when the last id given was `lastId`. -/
def outcome (env : CreateEnv) (lastId : UInt32) : Creation :=
  if env.userCtx = none then .fails
  else if env.kernFd = none then if env.junk then .lost else .fails
  else if env.wild then .lost
  else if env.ctx.isSome ∧ 0 ≤ (lastId + 1).toBitVec.toInt then
    if env.kex.rc < 0 ∨ env.setIv = false then .fails else .works
  else if env.kex.sends then .lost
  else if env.ctx.isSome then .leaks
  else .fails

end CreateEnv

/-- No context is left in `d'` that `d` does not have. -/
structure Restored (d d' : Control) : Prop where
  ctxList : d'.reg.ctxList = d.reg.ctxList
  allocated : ∀ c, d'.reg.allocated c = true → d.reg.allocated c = true ∧ d'.births c = d.births c

/-- Besides what `d` has there is the context `c`, and the file names it. -/
structure Holds (d d' : Control) (f c : Nat) : Prop where
  ctxList : d'.reg.ctxList = c :: d.reg.ctxList
  allocated : ∀ x, d'.reg.allocated x = true →
    x = c ∨ d.reg.allocated x = true ∧ d'.births x = d.births x
  file : d'.files f = some c

structure Made (d d' : Control) (f c : Nat) : Prop extends Holds d d' f c where
  id : (d'.reg.heap c).id = d.reg.lastId + 1
  free : (d'.reg.heap c).userLock = false
  lastId : d'.reg.lastId = d.reg.lastId + 1
  heap : ∀ x, x ≠ c → d'.reg.heap x = d.reg.heap x
  births : ∀ x, x ≠ c → d'.births x = d.births x

def OtherFiles (f : Nat) (d d' : Control) : Prop := ∀ g, g ≠ f → d'.files g = d.files g

/-! ## Undoing -/

section Undo

variable {d d₁ d₂ : Control} {f c : Nat}

theorem Restored.refl (d : Control) : Restored d d := ⟨rfl, fun _ h => ⟨h, rfl⟩⟩

theorem Holds.of_onlyContext (h : Holds d d₁ f c) (hOnly : OnlyContext d₁ d₂) : Holds d d₂ f c where
  ctxList := hOnly.sameList.1.trans h.ctxList
  allocated x hx := by
    rw [hOnly.sameList.2] at hx
    rw [hOnly.births]
    exact h.allocated x hx
  file := (congrFun hOnly.files f).trans h.file

theorem Holds.of_restored (h : Holds d d₁ f c) (hRest : Restored d₁ d₂)
    (hFile : d₂.files f = d₁.files f) : Holds d d₂ f c where
  ctxList := hRest.ctxList.trans h.ctxList
  allocated x hx := by
    obtain ⟨hx₁, hBirths⟩ := hRest.allocated x hx
    rw [hBirths]
    exact h.allocated x hx₁
  file := hFile.trans h.file

theorem doDestroy_of_file (hFile : d.files f = some c) :
    (d.doDestroy f).2.2 = { d with reg := destroyCtx d.reg c }.clearFile f := by
  simp only [Control.doDestroy, hFile]

theorem Holds.destroy (h : Holds d d₁ f c) : Restored d (d₁.doDestroy f).2.2 := by
  rw [doDestroy_of_file h.file]
  refine ⟨?_, fun x hx => ?_⟩
  · show (destroyCtx d₁.reg c).ctxList = _
    rw [ctxList_destroyCtx, h.ctxList, List.erase_cons_head]
  · change (destroyCtx d₁.reg c).allocated x = true at hx
    rw [allocated_destroyCtx] at hx
    by_cases hc : x = c
    · rw [hc, update_self] at hx
      cases hx
    · rw [update_of_ne hc] at hx
      exact (h.allocated x hx).resolve_left hc

theorem otherFiles_doDestroy (d : Control) (f : Nat) : OtherFiles f d (d.doDestroy f).2.2 := by
  intro g hg
  unfold Control.doDestroy
  split
  · rfl
  · exact update_of_ne hg _ _

theorem OtherFiles.trans (h : OtherFiles f d d₁) (h' : OtherFiles f d₁ d₂) : OtherFiles f d d₂ :=
  fun g hg => (h' g hg).trans (h g hg)

end Undo

/-! ## One creation -/

section Create

variable {env : CreateEnv} {d : Control} {f c : Nat} {dirIn : Bool}

theorem privCmdNewCtx_cases (env : CreateEnv) (d : Control) (f : Nat) (dirIn : Bool) :
    (env.wild = true ∧ privCmdNewCtx env d f dirIn = none) ∨
    (env.wild = false ∧ env.ctx = none ∧ ∃ rc, privCmdNewCtx env d f dirIn = some (rc, d)) ∨
    (env.wild = false ∧ ∃ c kexBuf, env.ctx = some c ∧ privCmdNewCtx env d f dirIn =
      let id := (d.reg.lastId + 1).toBitVec.toInt
      let d' := d.addCtx c (newCtxDesc dirIn) kexBuf
      if id < 0 then some (sysRet id, d') else some (id, d'.storeCtx f env.pid c)) := by
  cases hNew : env.newCtx with
  | none =>
    refine .inr (.inl ⟨?_, ?_, -1, ?_⟩)
    · simp only [CreateEnv.wild, hNew]
    · simp only [CreateEnv.ctx, hNew]
      rfl
    · simp only [privCmdNewCtx, hNew]
  | some make =>
    obtain ⟨ctx, setup, kexBuf⟩ := make
    cases ctx with
    | none =>
      refine .inr (.inl ⟨?_, ?_, -1, ?_⟩)
      · simp only [CreateEnv.wild, hNew]
        rfl
      · simp only [CreateEnv.ctx, hNew]
        rfl
      · cases dirIn <;> simp only [privCmdNewCtx, hNew] <;> rfl
    | some c =>
      cases setup with
      | some n =>
        refine .inr (.inl ⟨?_, ?_, sysRet (Kex.Fault.rc n), ?_⟩)
        · simp only [CreateEnv.wild, hNew]
          rfl
        · simp only [CreateEnv.ctx, hNew]
          rfl
        · have hMake : d.makeCryptoCtx (newCtxDesc dirIn) ⟨some c, some n, kexBuf⟩ =
              (Kex.Fault.rc n, none, d) := by
            cases dirIn <;> rfl
          have hNeg : Kex.Fault.rc n < 0 := by
            unfold Kex.Fault.rc
            omega
          simp only [privCmdNewCtx, hNew, hMake, if_pos hNeg]
      | none =>
        cases kexBuf with
        | none =>
          refine .inl ⟨?_, ?_⟩
          · simp only [CreateEnv.wild, hNew]
            rfl
          · cases dirIn <;> simp only [privCmdNewCtx, hNew] <;> rfl
        | some kexBuf =>
          refine .inr (.inr ⟨?_, c, kexBuf, ?_, ?_⟩)
          · simp only [CreateEnv.wild, hNew]
            rfl
          · simp only [CreateEnv.ctx, hNew]
            rfl
          · have hMake : d.makeCryptoCtx (newCtxDesc dirIn) ⟨some c, none, some kexBuf⟩ =
                ((d.reg.lastId + 1).toBitVec.toInt, some c,
                  d.addCtx c (newCtxDesc dirIn) kexBuf) := by
              cases dirIn <;> rfl
            simp only [privCmdNewCtx, hNew, hMake]

structure Keyed (d d' : Control) (c : Nat) : Prop extends OnlyContext d d' where
  id : (d'.reg.heap c).id = (d.reg.heap c).id
  userLock : (d'.reg.heap c).userLock = (d.reg.heap c).userLock
  heap : ∀ x, x ≠ c → d'.reg.heap x = d.reg.heap x
  lastId : d'.reg.lastId = d.reg.lastId

theorem Keyed.refl (d : Control) (c : Nat) : Keyed d d c :=
  ⟨⟨⟨rfl, rfl⟩, rfl, rfl, rfl⟩, rfl, rfl, fun _ _ => rfl, rfl⟩

theorem Keyed.trans {d₁ d₂ : Control} (h : Keyed d d₁ c) (h' : Keyed d₁ d₂ c) : Keyed d d₂ c where
  sameList := ⟨h'.sameList.1.trans h.sameList.1, h'.sameList.2.trans h.sameList.2⟩
  files := h'.files.trans h.files
  births := h'.births.trans h.births
  fileBirth := h'.fileBirth.trans h.fileBirth
  id := h'.id.trans h.id
  userLock := h'.userLock.trans h.userLock
  heap x hx := (h'.heap x hx).trans (h.heap x hx)
  lastId := h'.lastId.trans h.lastId

theorem keyed_modifyCtx {g : PrivCryptCtx → PrivCryptCtx} (hId : (g (d.reg.heap c)).id = (d.reg.heap c).id)
    (hLock : (g (d.reg.heap c)).userLock = (d.reg.heap c).userLock) :
    Keyed d (d.modifyCtx c g) c where
  sameList := ⟨rfl, rfl⟩
  files := rfl
  births := rfl
  fileBirth := rfl
  id := (congrArg PrivCryptCtx.id (update_self ..)).trans hId
  userLock := (congrArg PrivCryptCtx.userLock (update_self ..)).trans hLock
  heap _ hx := update_of_ne hx _ _
  lastId := rfl

theorem doKexRun_of_file (hFile : d.files f = some c) (kex : KexRun) :
    ∃ d', doKexRun kex d f = some (kex.rc, d') ∧ Keyed d d' c := by
  unfold doKexRun
  cases kex.sends with
  | false => exact ⟨d, rfl, .refl d c⟩
  | true =>
    rw [if_pos rfl, hFile]
    exact ⟨_, rfl, keyed_modifyCtx rfl rfl⟩

theorem kernSetIv_of_file (env : CreateEnv) (hFile : d.files f = some c) :
    ∃ d', kernSetIv env d f = (if env.setIv then 0 else -1, d') ∧ Keyed d d' c := by
  unfold kernSetIv
  cases env.setIv with
  | false => exact ⟨d, rfl, .refl d c⟩
  | true =>
    simp only [if_true, Control.doSetIv, hFile]
    exact ⟨_, rfl, keyed_modifyCtx rfl rfl⟩

theorem keyBackend_of_file (env : CreateEnv) (backend : KernBackend)
    (hFile : d.files backend.kernFd = some c) :
    ∃ d', Keyed d d' c ∧ ((env.kex.rc < 0 ∨ env.setIv = false) ∧
          (∃ rc < 0, keyBackend env d backend = some (.error rc, kernDestroy d' backend)) ∨
        ¬ (env.kex.rc < 0 ∨ env.setIv = false) ∧
          keyBackend env d backend = some (.ok backend, d')) := by
  obtain ⟨d₁, hKex, hKeyed⟩ := doKexRun_of_file hFile env.kex
  by_cases hRc : env.kex.rc < 0
  · refine ⟨d₁, hKeyed, .inl ⟨.inl hRc, env.kex.rc, hRc, ?_⟩⟩
    simp only [keyBackend, hKex, bind_eq_bind, bind_some, if_pos hRc]
    rfl
  · obtain ⟨d₂, hIv, hKeyed'⟩ :=
      kernSetIv_of_file env ((congrFun hKeyed.files backend.kernFd).trans hFile)
    refine ⟨d₂, hKeyed.trans hKeyed', ?_⟩
    simp only [keyBackend, hKex, bind_eq_bind, bind_some, if_neg hRc, hIv]
    cases env.setIv with
    | false => exact .inl ⟨.inr rfl, -1, by decide, rfl⟩
    | true => exact .inr ⟨fun h => h.elim hRc (fun h => Bool.noConfusion h), rfl⟩

theorem kernDestroy_of_no_file {backend : KernBackend} (hFile : d.files backend.kernFd = none) :
    kernDestroy d backend = d := by
  simp only [kernDestroy, Control.doDestroy, hFile, Control.refuse]

theorem keyBackend_of_no_file (env : CreateEnv) (backend : KernBackend)
    (hFile : d.files backend.kernFd = none) :
    (env.kex.sends = true → keyBackend env d backend = none) ∧
      (env.kex.sends = false → ∃ rc < 0, keyBackend env d backend = some (.error rc, d)) := by
  refine ⟨fun hSends => ?_, fun hSends => ?_⟩
  · simp only [keyBackend, doKexRun, hSends, if_true, hFile]
    rfl
  · have hKex : doKexRun env.kex d backend.kernFd = some (env.kex.rc, d) := by
      simp only [doKexRun, hSends, Bool.false_eq_true, if_false]
    have hIv : kernSetIv env d backend.kernFd = (-1, d) := by
      simp only [kernSetIv, Control.doSetIv, hFile, Control.refuse]
      split <;> rfl
    simp only [keyBackend, hKex, bind_eq_bind, bind_some, hIv, kernDestroy_of_no_file hFile]
    by_cases hRc : env.kex.rc < 0
    · rw [if_pos hRc]
      exact ⟨_, hRc, rfl⟩
    · rw [if_neg hRc]
      exact ⟨-1, by decide, rfl⟩

theorem files_clearFile (d : Control) (f : Nat) : (d.clearFile f).files f = none :=
  update_self ..

theorem otherFiles_clearFile (d : Control) (f : Nat) : OtherFiles f d (d.clearFile f) :=
  fun _ hg => update_of_ne hg _ _

theorem made_storeCtx (d : Control) (f pid c : Nat) (desc : AlgDesc) (kexBuf : List UInt8) :
    Made d ((d.addCtx c desc kexBuf).storeCtx f pid c) f c where
  ctxList := rfl
  allocated x hx := by
    by_cases hc : x = c
    · exact .inl hc
    · refine .inr ⟨?_, update_of_ne hc _ _⟩
      change update d.reg.allocated c true x = true at hx
      rwa [update_of_ne hc] at hx
  file := update_self ..
  id := by
    simp [Control.storeCtx, Control.setFile, Control.modifyCtx, Registry.modifyCtx, Control.addCtx,
      makeCryptoCtx]
  free := by
    simp [Control.storeCtx, Control.setFile, Control.modifyCtx, Registry.modifyCtx, Control.addCtx,
      makeCryptoCtx]
  lastId := rfl
  heap x hx := by
    simp [Control.storeCtx, Control.setFile, Control.modifyCtx, Registry.modifyCtx, Control.addCtx,
      makeCryptoCtx, update_of_ne hx]
  births x hx := update_of_ne hx _ _

theorem otherFiles_storeCtx (d : Control) (f pid c : Nat) (desc : AlgDesc) (kexBuf : List UInt8) :
    OtherFiles f d ((d.addCtx c desc kexBuf).storeCtx f pid c) :=
  fun _ hg => update_of_ne hg _ _

def CreatesAs (env : CreateEnv) (lib : Userland) (dirIn : Bool) : Creation → Prop
  | .works => ∃ u f c lib', env.kernFd = some f ∧ env.ctx = some c ∧
      privEasyCreate env lib dirIn = some (.ok ⟨u, some ⟨f, lib.ctl.reg.lastId + 1⟩⟩, lib') ∧
      lib'.userCtxs = u :: lib.userCtxs ∧ Made lib.ctl lib'.ctl f c ∧
      OtherFiles f lib.ctl lib'.ctl
  | .fails => ∃ rc lib', rc < 0 ∧ privEasyCreate env lib dirIn = some (.error rc, lib') ∧
      lib'.userCtxs = lib.userCtxs ∧ Restored lib.ctl lib'.ctl ∧
      ∀ g, env.kernFd ≠ some g → lib'.ctl.files g = lib.ctl.files g
  | .leaks => ∃ rc lib' c, rc < 0 ∧ privEasyCreate env lib dirIn = some (.error rc, lib') ∧
      env.ctx = some c ∧ lib'.ctl.reg.allocated c = true ∧
      lib'.ctl.births c = lib.ctl.births c + 1 ∧
      ∀ g, env.kernFd ≠ some g → lib'.ctl.files g = lib.ctl.files g
  | .lost => privEasyCreate env lib dirIn = none

section Ends

variable {lib : Userland} {u : Nat} {d' d₁ : Control} {id : Int} (hUser : env.userCtx = some u)
  (hFd : env.kernFd = some f)

section NewCtx

variable (hNew : privCmdNewCtx env (lib.ctl.clearFile f) f dirIn = some (id, d₁))
include hUser hFd hNew

theorem privEasyCreate_ok {backend : KernBackend}
    (hKey : keyBackend env d₁ ⟨f, UInt32.ofBitVec (BitVec.ofInt 32 id)⟩ = some (.ok backend, d')) :
    privEasyCreate env lib dirIn = some (.ok ⟨u, some backend⟩, ⟨d', u :: lib.userCtxs⟩) := by
  simp only [privEasyCreate, hUser, privNewBackend, kernInit, hFd, hNew, bind_eq_bind,
    bind_some, pure_def, hKey]

theorem privEasyCreate_error {rc : Int}
    (hKey : keyBackend env d₁ ⟨f, UInt32.ofBitVec (BitVec.ofInt 32 id)⟩ = some (.error rc, d')) :
    privEasyCreate env lib dirIn = some (.error rc, ⟨d', lib.userCtxs⟩) := by
  simp only [privEasyCreate, hUser, privNewBackend, kernInit, hFd, hNew, bind_eq_bind,
    bind_some, pure_def, hKey, Bool.false_eq_true, if_false, privDestroyCctx,
    List.erase_cons_head]

theorem privEasyCreate_lost
    (hKey : keyBackend env d₁ ⟨f, UInt32.ofBitVec (BitVec.ofInt 32 id)⟩ = none) :
    privEasyCreate env lib dirIn = none := by
  simp only [privEasyCreate, hUser, privNewBackend, kernInit, hFd, hNew, bind_eq_bind,
    bind_some, bind_none, pure_def, hKey]

end NewCtx

theorem Made.of_clearFile {g : Nat} (h : Made (d.clearFile g) d' f c) : Made d d' f c :=
  ⟨⟨h.ctxList, h.allocated, h.file⟩, h.id, h.free, h.lastId, h.heap, h.births⟩

theorem Made.keyed (h : Made d d₁ f c) (hKeyed : Keyed d₁ d' c) : Made d d' f c where
  toHolds := h.toHolds.of_onlyContext hKeyed.toOnlyContext
  id := hKeyed.id.trans h.id
  free := hKeyed.userLock.trans h.free
  lastId := hKeyed.lastId.trans h.lastId
  heap x hx := (hKeyed.heap x hx).trans (h.heap x hx)
  births x hx := (congrFun hKeyed.births x).trans (h.births x hx)

theorem OtherFiles.of_ne (h : OtherFiles f d d') (hFd : env.kernFd = some f) (g : Nat)
    (hg : env.kernFd ≠ some g) : d'.files g = d.files g :=
  h g fun hEq => hg (hEq ▸ hFd)

include hUser hFd

theorem createsAs_of_no_ctx
    (hNew : privCmdNewCtx env (lib.ctl.clearFile f) f dirIn = some (id, lib.ctl.clearFile f)) :
    CreatesAs env lib dirIn (if env.kex.sends then .lost else .fails) := by
  obtain ⟨hLost, hError⟩ := keyBackend_of_no_file env
    ⟨f, UInt32.ofBitVec (BitVec.ofInt 32 id)⟩ (files_clearFile lib.ctl f)
  cases hSends : env.kex.sends with
  | true => exact privEasyCreate_lost hUser hFd hNew (hLost hSends)
  | false =>
    obtain ⟨rc, hNeg, hKey⟩ := hError hSends
    exact ⟨rc, _, hNeg, privEasyCreate_error hUser hFd hNew hKey, rfl, ⟨rfl, fun _ h => ⟨h, rfl⟩⟩,
      (otherFiles_clearFile lib.ctl f).of_ne hFd⟩

theorem createsAs_of_leak (hCtx : env.ctx = some c) {desc : AlgDesc} {kexBuf : List UInt8}
    (hNew : privCmdNewCtx env (lib.ctl.clearFile f) f dirIn =
      some (id, (lib.ctl.clearFile f).addCtx c desc kexBuf)) :
    CreatesAs env lib dirIn (if env.kex.sends then .lost else .leaks) := by
  obtain ⟨hLost, hError⟩ := keyBackend_of_no_file
    (d := (lib.ctl.clearFile f).addCtx c desc kexBuf) env
    ⟨f, UInt32.ofBitVec (BitVec.ofInt 32 id)⟩ (files_clearFile lib.ctl f)
  cases hSends : env.kex.sends with
  | true => exact privEasyCreate_lost hUser hFd hNew (hLost hSends)
  | false =>
    obtain ⟨rc, hNeg, hKey⟩ := hError hSends
    exact ⟨rc, _, c, hNeg, privEasyCreate_error hUser hFd hNew hKey, hCtx,
      update_self .., update_self .., (otherFiles_clearFile lib.ctl f).of_ne hFd⟩

theorem createsAs_of_made (hCtx : env.ctx = some c) {desc : AlgDesc} {kexBuf : List UInt8}
    (hNew : privCmdNewCtx env (lib.ctl.clearFile f) f dirIn =
      some ((lib.ctl.reg.lastId + 1).toBitVec.toInt,
        ((lib.ctl.clearFile f).addCtx c desc kexBuf).storeCtx f env.pid c)) :
    CreatesAs env lib dirIn (if env.kex.rc < 0 ∨ env.setIv = false then .fails else .works) := by
  have hMade := made_storeCtx (lib.ctl.clearFile f) f env.pid c desc kexBuf
  have hFiles := (otherFiles_clearFile lib.ctl f).trans
    (otherFiles_storeCtx (lib.ctl.clearFile f) f env.pid c desc kexBuf)
  have hId : UInt32.ofBitVec (BitVec.ofInt 32 (lib.ctl.reg.lastId + 1).toBitVec.toInt) =
      lib.ctl.reg.lastId + 1 := by
    rw [BitVec.ofInt_toInt, UInt32.ofBitVec_toBitVec]
  obtain ⟨d', hKeyed, ⟨hBad, rc, hNeg, hKey⟩ | ⟨hGood, hKey⟩⟩ := keyBackend_of_file env
    ⟨f, lib.ctl.reg.lastId + 1⟩ hMade.file
  · rw [if_pos hBad]
    rw [← hId] at hKey
    refine ⟨rc, _, hNeg, privEasyCreate_error hUser hFd hNew hKey, rfl,
      (hMade.of_clearFile.keyed hKeyed).destroy,
      (hFiles.trans (OtherFiles.trans ?_ (otherFiles_doDestroy d' f))).of_ne hFd⟩
    exact fun x _ => congrFun hKeyed.files x
  · rw [if_neg hGood]
    rw [← hId] at hKey
    refine ⟨u, f, c, ⟨d', u :: lib.userCtxs⟩, hFd, hCtx, ?_, rfl, hMade.of_clearFile.keyed hKeyed,
      hFiles.trans fun x _ => congrFun hKeyed.files x⟩
    rw [privEasyCreate_ok hUser hFd hNew hKey, hId]

end Ends

/-- **One creation** ends as its outcome says. -/
theorem privEasyCreate_spec (env : CreateEnv) (lib : Userland) (dirIn : Bool) :
    CreatesAs env lib dirIn (env.outcome lib.ctl.reg.lastId) := by
  unfold CreateEnv.outcome
  cases hUser : env.userCtx with
  | none =>
    rw [if_pos rfl]
    refine ⟨-1, lib, by decide, ?_, rfl, .refl lib.ctl, fun _ _ => rfl⟩
    simp only [privEasyCreate, hUser]
  | some u =>
    rw [if_neg (some_ne_none u)]
    cases hFd : env.kernFd with
    | none =>
      rw [if_pos rfl]
      cases hJunk : env.junk with
      | true =>
        show privEasyCreate env lib dirIn = none
        simp only [privEasyCreate, hUser, privNewBackend, kernInit, hFd, hJunk]
        rfl
      | false =>
        refine ⟨-1, lib, by decide, ?_, rfl, .refl lib.ctl, fun _ _ => rfl⟩
        simp only [privEasyCreate, hUser, privNewBackend, kernInit, hFd, hJunk, privDestroyCctx,
          bind_eq_bind, bind_some, pure_def, Bool.false_eq_true, if_false,
          List.erase_cons_head]
    | some f =>
      rw [if_neg (some_ne_none f)]
      rcases privCmdNewCtx_cases env (lib.ctl.clearFile f) f dirIn with
        ⟨hWild, hNew⟩ | ⟨hWild, hCtx, rc, hNew⟩ | ⟨hWild, c, kexBuf, hCtx, hNew⟩
      · rw [if_pos hWild]
        show privEasyCreate env lib dirIn = none
        simp only [privEasyCreate, hUser, privNewBackend, kernInit, hFd, hNew]
        rfl
      · have hNot : ¬ (env.ctx.isSome = true ∧ 0 ≤ (lib.ctl.reg.lastId + 1).toBitVec.toInt) := by
          rw [hCtx]
          exact fun h => Bool.noConfusion h.1
        rw [hWild, if_neg Bool.false_ne_true, if_neg hNot]
        have hEnd := createsAs_of_no_ctx hUser hFd hNew
        rw [hCtx]
        exact hEnd
      · rw [hWild, if_neg Bool.false_ne_true, hCtx]
        dsimp only [isSome_some] at hNew ⊢
        by_cases hNeg : (lib.ctl.reg.lastId + 1).toBitVec.toInt < 0
        · rw [if_neg fun h => absurd hNeg (Int.not_lt.mpr h.2), if_pos rfl]
          exact createsAs_of_leak hUser hFd hCtx (hNew.trans (if_pos hNeg))
        · rw [if_pos ⟨rfl, Int.not_lt.mp hNeg⟩]
          exact createsAs_of_made hUser hFd hCtx (hNew.trans (if_neg hNeg))

end Create

end Lacuna.Crypt
