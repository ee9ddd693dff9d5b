import Mathlib.Data.List.Basic
import Mathlib.Logic.Function.Basic

/-!
# Unwinding after errors

`priv_easy_create`, `usb_crypt_setup` and `priv_sound_init` make contexts of `libprivcrypt`
with a backend each, in steps that may fail, and unwind through `priv_destroy_cctx`. The
memory that `malloc` returns has any content: `backend_ctx` is not set before
`kern_init` has succeeded.

What the steps meet is given by the environments; a `LibMem` keeps account of what the call
has made and not yet destroyed, and of whether it has destroyed anything else.
-/

namespace Lacuna.Crypt.Teardown

open Function List

/-! ## What the steps meet -/

structure CctxEnv where
  /-- `malloc` -/
  cctx : Option Nat
  /-- `backend_ctx` in this memory -/
  junk : Option Nat
  userInit : Bool
  setIv : Bool
  deriving DecidableEq

inductive KexEnd where
  | ok
  | err
  /-- the kernel kills the process -/
  | oops
  deriving DecidableEq

/-- What `priv_new_backend` meets. There is no key exchange without a context in the kernel. -/
structure BackendEnv where
  /-- `malloc` in `kern_init` -/
  backend : Option Nat
  opens : Bool
  newCtx : Bool
  kex : KexEnd
  setIv : Bool
  newCtx_of_kex : kex = .ok → newCtx = true

structure EndpointEnv where
  /-- `get_dev_name` -/
  devName : Bool
  opens : Bool
  /-- `write` takes the whole id -/
  written : Bool
  deriving DecidableEq

/-- What `priv_sound_init` meets. Memory that is in use is not given out. -/
structure SoundEnv where
  cctxIn : CctxEnv
  backendIn : BackendEnv
  cctxOut : CctxEnv
  backendOut : BackendEnv
  activateIn : Bool
  activateOut : Bool
  cctx_ne : ∀ c, cctxIn.cctx = some c → cctxOut.cctx ≠ some c
  backend_ne : ∀ b, backendIn.backend = some b → backendOut.backend ≠ some b

structure CctxEnv.Ok (env : CctxEnv) : Prop where
  cctx : env.cctx ≠ none
  userInit : env.userInit = true
  setIv : env.setIv = true

structure BackendEnv.Ok (env : BackendEnv) : Prop where
  backend : env.backend ≠ none
  opens : env.opens = true
  newCtx : env.newCtx = true
  kex : env.kex = .ok
  setIv : env.setIv = true

/-! ## The library -/

structure LibMem where
  /-- `backend_ctx` of the contexts -/
  backendCtx : Nat → Option Nat
  /-- the contexts made by the call and not destroyed -/
  cctxs : List Nat
  /-- the backends made by the call and not destroyed -/
  backends : List Nat
  /-- something else has been destroyed -/
  misused : Bool

structure LibMem.Fresh (m : LibMem) : Prop where
  cctxs : m.cctxs = []
  backends : m.backends = []
  misused : m.misused = false

namespace LibMem

def setBackendCtx (m : LibMem) (c : Nat) (b : Option Nat) : LibMem :=
  { m with backendCtx := Function.update m.backendCtx c b }

def destroyBackend (m : LibMem) (b : Nat) : LibMem :=
  if b ∈ m.backends then { m with backends := m.backends.erase b } else { m with misused := true }

/-- `user_ops->destroy`, which ends the life of the context. -/
def destroyUser (m : LibMem) (c : Nat) : LibMem :=
  if c ∈ m.cctxs then { m with cctxs := m.cctxs.erase c } else { m with misused := true }

end LibMem

def privDestroyCctx (m : LibMem) : Option Nat → LibMem
  | none => { m with misused := true }
  | some c =>
    match m.backendCtx c with
    | none => m.destroyUser c
    | some b => (m.destroyBackend b).destroyUser c

def privCreateCctx (env : CctxEnv) (m : LibMem) : Option Nat × LibMem :=
  match env.cctx with
  | none => (none, m)
  | some c =>
    if env.userInit = false then (none, m)
    else if env.setIv = false then (none, m)
    else (some c, { m.setBackendCtx c env.junk with cctxs := c :: m.cctxs })

def privNewBackend (env : BackendEnv) (c : Nat) (m : LibMem) : Option (Int × LibMem) :=
  match env.backend with
  | none => some (-1, m)
  | some b =>
    if env.opens = false then some (-1, m)
    else
      let m := { m.setBackendCtx c (some b) with backends := b :: m.backends }
      match env.kex with
      | .oops => none
      | .err => some (-1, (m.destroyBackend b).setBackendCtx c none)
      | .ok =>
        if env.setIv then some (0, m) else some (-1, (m.destroyBackend b).setBackendCtx c none)

/-- The return value and what is stored. `priv_set_option` does not fail. -/
def privEasyCreate (env : CctxEnv) (benv : BackendEnv) (m : LibMem) :
    Option (Int × Option Nat × LibMem) :=
  match privCreateCctx env m with
  | (none, m) => some (-1, none, m)
  | (some c, m) =>
    match privNewBackend benv c m with
    | none => none
    | some (rc, m) =>
      if rc < 0 then some (rc, none, privDestroyCctx m (some c)) else some (0, some c, m)

/-- The return value, `pud->cctx`, and whether the endpoint is bound. `priv_get_id` does not fail.
-/
def usbCryptSetup (env : CctxEnv) (benv : BackendEnv) (uenv : EndpointEnv) (m : LibMem) :
    Option (Int × Option Nat × Bool × LibMem) :=
  match privCreateCctx env m with
  | (none, m) => some (-1, none, false, m)
  | (some c, m) =>
    match privNewBackend benv c m with
    | none => none
    | some (rc, m) =>
      if rc < 0 then some (rc, some c, false, privDestroyCctx m (some c))
      else if uenv.devName = false then some (-1, some c, false, privDestroyCctx m (some c))
      else if uenv.opens = false then some (-1, some c, false, privDestroyCctx m (some c))
      -- `rc` is still that of `get_dev_name`
      else if uenv.written = false then some (0, some c, false, privDestroyCctx m (some c))
      else some (0, some c, true, m)

def unwindSound (m : LibMem) (cctxIn cctxOut : Option Nat) : LibMem :=
  privDestroyCctx (privDestroyCctx m cctxIn) cctxOut

/-- The return value and the variables `cctx_in` and `cctx_out`. -/
def privSoundInit (env : SoundEnv) (cctxIn cctxOut : Option Nat) (m : LibMem) :
    Option (Int × (Option Nat × Option Nat) × LibMem) :=
  match privEasyCreate env.cctxIn env.backendIn m with
  | none => none
  | some (rc, stored, m) =>
    if rc < 0 then some (rc, (cctxIn, cctxOut), m)
    else
      let cctxIn := stored
      match privEasyCreate env.cctxOut env.backendOut m with
      | none => none
      | some (rc, stored, m) =>
        if rc < 0 then some (rc, (none, none), unwindSound m cctxIn cctxOut)
        else
          let cctxOut := stored
          if env.activateIn = false then some (-1, (none, none), unwindSound m cctxIn cctxOut)
          else if env.activateOut = false then
            some (-1, (none, none), unwindSound m cctxIn cctxOut)
          else some (0, (cctxIn, cctxOut), m)

def LibMem.Live (m : LibMem) (p : Option Nat) : Prop :=
  ∃ c b, p = some c ∧ c ∈ m.cctxs ∧ m.backendCtx c = some b ∧ b ∈ m.backends

structure Unwinds (rc : Int) (m : LibMem) (succeeded : Prop) : Prop where
  misused : m.misused = false
  negative : rc < 0 → m.backends = []
  success : 0 ≤ rc → succeeded

def NullOnFailure (env : CctxEnv) (benv : BackendEnv) : Prop :=
  env.Ok → benv.backend = none ∨ benv.opens = false → env.junk = none

/-! ## The library -/

section Library

variable {env : CctxEnv} {benv : BackendEnv} {m m' : LibMem} {c b : Nat} {rc : Int}

theorem destroyBackend_new (m : LibMem) (c b : Nat) :
    { m.setBackendCtx c (some b) with backends := b :: m.backends }.destroyBackend b =
      m.setBackendCtx c (some b) := by
  unfold LibMem.destroyBackend
  rw [if_pos mem_cons_self, erase_cons_head]
  rfl

theorem privDestroyCctx_live (hCtx : m.backendCtx c = some b) (hBackend : b ∈ m.backends)
    (hCctx : c ∈ m.cctxs) : privDestroyCctx m (some c) =
      { m with backends := m.backends.erase b, cctxs := m.cctxs.erase c } := by
  simp only [privDestroyCctx, hCtx, LibMem.destroyBackend, if_pos hBackend, LibMem.destroyUser,
    if_pos hCctx]

theorem privDestroyCctx_null (hCtx : m.backendCtx c = none) (hCctx : c ∈ m.cctxs) :
    privDestroyCctx m (some c) = { m with cctxs := m.cctxs.erase c } := by
  simp only [privDestroyCctx, hCtx, LibMem.destroyUser, if_pos hCctx]

theorem cctxs_destroyBackend (m : LibMem) (b : Nat) : (m.destroyBackend b).cctxs = m.cctxs := by
  unfold LibMem.destroyBackend
  split <;> rfl

theorem misused_destroyUser (h : m.misused = true) (c : Nat) : (m.destroyUser c).misused = true := by
  unfold LibMem.destroyUser
  split
  · exact h
  · rfl

theorem misused_privDestroyCctx (hNone : m.cctxs = []) (p : Option Nat) :
    (privDestroyCctx m p).misused = true := by
  have hUser : ∀ m' : LibMem, m'.cctxs = [] → ∀ c, (m'.destroyUser c).misused = true := by
    intro m' hNil c
    unfold LibMem.destroyUser
    rw [hNil, if_neg not_mem_nil]
  cases p with
  | none => rfl
  | some c =>
    rw [privDestroyCctx]
    cases m.backendCtx c with
    | none => exact hUser m hNone c
    | some b => exact hUser _ ((cctxs_destroyBackend m b).trans hNone) c

theorem privCreateCctx_cases (env : CctxEnv) (m : LibMem) :
    (¬ env.Ok ∧ privCreateCctx env m = (none, m)) ∨
    env.Ok ∧ ∃ c, env.cctx = some c ∧ privCreateCctx env m =
        (some c, { m.setBackendCtx c env.junk with cctxs := c :: m.cctxs }) := by
  unfold privCreateCctx
  cases hCctx : env.cctx with
  | none => exact .inl ⟨fun h => h.cctx hCctx, rfl⟩
  | some c =>
    dsimp only
    by_cases hUser : env.userInit = false
    · rw [if_pos hUser]
      exact .inl ⟨fun h => Bool.noConfusion (hUser.symm.trans h.userInit), rfl⟩
    by_cases hIv : env.setIv = false
    · rw [if_neg hUser, if_pos hIv]
      exact .inl ⟨fun h => Bool.noConfusion (hIv.symm.trans h.setIv), rfl⟩
    · rw [if_neg hUser, if_neg hIv]
      refine .inr ⟨⟨?_, eq_true_of_ne_false hUser, eq_true_of_ne_false hIv⟩, c, rfl, rfl⟩
      rw [hCctx]
      exact Option.some_ne_none c

/-- **The ends of `priv_new_backend`**: `kern_init` fails, a later step does, or none. -/
theorem privNewBackend_cases (h : privNewBackend benv c m = some (rc, m')) :
    ((benv.backend = none ∨ benv.opens = false) ∧ rc = -1 ∧ m' = m) ∨
    (¬ (benv.backend = none ∨ benv.opens = false) ∧ ¬ benv.Ok ∧ rc = -1 ∧
      ∃ b, m' = (m.setBackendCtx c (some b)).setBackendCtx c none) ∨
    benv.Ok ∧ rc = 0 ∧ ∃ b, benv.backend = some b ∧
      m' = { m.setBackendCtx c (some b) with backends := b :: m.backends } := by
  unfold privNewBackend at h
  cases hBackend : benv.backend with
  | none =>
    rw [hBackend] at h
    cases h
    exact .inl ⟨.inl rfl, rfl, rfl⟩
  | some b =>
    rw [hBackend] at h
    dsimp only at h
    by_cases hOpens : benv.opens = false
    · rw [if_pos hOpens] at h
      cases h
      exact .inl ⟨.inr hOpens, rfl, rfl⟩
    rw [if_neg hOpens] at h
    have hInit : ¬ (some b = none ∨ benv.opens = false) :=
      fun hFails => hFails.elim (fun hNone => nomatch hNone) hOpens
    refine .inr ?_
    cases hKex : benv.kex with
    | oops =>
      rw [hKex] at h
      cases h
    | err =>
      rw [hKex] at h
      dsimp only at h
      rw [destroyBackend_new m c b] at h
      cases h
      exact .inl ⟨hInit, fun hOk => KexEnd.noConfusion (hKex.symm.trans hOk.kex), rfl, b, rfl⟩
    | ok =>
      rw [hKex] at h
      dsimp only at h
      by_cases hIv : benv.setIv = true
      · rw [if_pos hIv] at h
        cases h
        refine .inr ⟨⟨?_, eq_true_of_ne_false hOpens, benv.newCtx_of_kex hKex, hKex,
          hIv⟩, rfl, b, rfl, rfl⟩
        rw [hBackend]
        exact Option.some_ne_none b
      · rw [if_neg hIv, destroyBackend_new m c b] at h
        cases h
        exact .inl ⟨hInit, fun hOk => hIv hOk.setIv, rfl, b, rfl⟩

/-- From `m` to `m'` the context `c` was made, with the backend `b`. -/
structure Made (m m' : LibMem) (c b : Nat) : Prop where
  cctxs : m'.cctxs = c :: m.cctxs
  backends : m'.backends = b :: m.backends
  misused : m'.misused = m.misused
  own : m'.backendCtx c = some b
  other : ∀ x, x ≠ c → m'.backendCtx x = m.backendCtx x

structure Failed (m m' : LibMem) (env : CctxEnv) (benv : BackendEnv) : Prop where
  cctxs : m'.cctxs = m.cctxs
  clean : NullOnFailure env benv → m'.backends = m.backends ∧ m'.misused = m.misused
  junk : ¬ NullOnFailure env benv → m.backends = [] → m'.misused = true

theorem Made.live (h : Made m m' c b) : m'.Live (some c) := by
  refine ⟨c, b, rfl, ?_, h.own, ?_⟩
  · rw [h.cctxs]
    exact mem_cons_self
  · rw [h.backends]
    exact mem_cons_self

theorem LibMem.Live.mono {x : Nat} (h : m.Live (some x)) (hMade : Made m m' c b) (hNe : x ≠ c) :
    m'.Live (some x) := by
  obtain ⟨_, y, hEq, hCctx, hOwn, hBackend⟩ := h
  cases hEq
  refine ⟨x, y, rfl, ?_, (hMade.other x hNe).trans hOwn, ?_⟩
  · rw [hMade.cctxs]
    exact mem_cons_of_mem c hCctx
  · rw [hMade.backends]
    exact mem_cons_of_mem b hBackend

theorem Made.destroy (h : Made m m' c b) : (privDestroyCctx m' (some c)).backends = m.backends ∧
    (privDestroyCctx m' (some c)).misused = m.misused := by
  rw [privDestroyCctx_live h.own (h.backends ▸ mem_cons_self) (h.cctxs ▸ mem_cons_self)]
  refine ⟨?_, h.misused⟩
  dsimp only
  rw [h.backends, erase_cons_head]

theorem destroy_null (m : LibMem) {m₁ : LibMem} (hCctxs : m₁.cctxs = c :: m.cctxs)
    (hNull : m₁.backendCtx c = none) :
    privDestroyCctx m₁ (some c) = { m₁ with cctxs := m.cctxs } := by
  rw [privDestroyCctx_null hNull (hCctxs ▸ mem_cons_self), hCctxs, erase_cons_head]

theorem destroy_junk (m : LibMem) {m₁ : LibMem} {x : Nat} (hCctxs : m₁.cctxs = c :: m.cctxs)
    (hJunk : m₁.backendCtx c = some x) :
    (privDestroyCctx m₁ (some c)).cctxs = m.cctxs ∧
      (m₁.backends = [] → (privDestroyCctx m₁ (some c)).misused = true) := by
  have hEq : privDestroyCctx m₁ (some c) = (m₁.destroyBackend x).destroyUser c := by
    rw [privDestroyCctx, hJunk]
  have hIn : c ∈ (m₁.destroyBackend x).cctxs := by
    rw [cctxs_destroyBackend, hCctxs]
    exact mem_cons_self
  rw [hEq]
  refine ⟨?_, fun hNil => ?_⟩
  · rw [LibMem.destroyUser, if_pos hIn]
    dsimp only
    rw [cctxs_destroyBackend, hCctxs, erase_cons_head]
  · refine misused_destroyUser ?_ c
    rw [LibMem.destroyBackend, hNil, if_neg not_mem_nil]

/-- **The ends of `priv_easy_create`**. -/
theorem privEasyCreate_cases {stored : Option Nat}
    (h : privEasyCreate env benv m = some (rc, stored, m')) :
    (env.Ok ∧ benv.Ok ∧ rc = 0 ∧ ∃ c b, env.cctx = some c ∧ benv.backend = some b ∧
      stored = some c ∧ Made m m' c b) ∨
    ¬ (env.Ok ∧ benv.Ok) ∧ rc = -1 ∧ Failed m m' env benv := by
  unfold privEasyCreate at h
  rcases privCreateCctx_cases env m with ⟨hNot, hCreate⟩ | ⟨hOk, c, hCctx, hCreate⟩
  · rw [hCreate] at h
    cases h
    exact .inr ⟨fun hBoth => hNot hBoth.1, rfl, rfl, fun _ => ⟨rfl, rfl⟩,
      fun hNull => absurd (fun hEnv => absurd hEnv hNot) hNull⟩
  rw [hCreate] at h
  dsimp only at h
  cases hNew : privNewBackend benv c { m.setBackendCtx c env.junk with cctxs := c :: m.cctxs } with
  | none =>
    rw [hNew] at h
    cases h
  | some r =>
    obtain ⟨rc₁, m₁⟩ := r
    rw [hNew] at h
    dsimp only at h
    rcases privNewBackend_cases hNew with ⟨hInit, rfl, rfl⟩ | ⟨hInit, hBad, rfl, b, rfl⟩ |
      ⟨hGood, rfl, b, hBackend, rfl⟩
    · -- `kern_init` fails, and `backend_ctx` is what `malloc` has left there
      rw [if_pos (by decide)] at h
      cases h
      have hBad : ¬ benv.Ok := fun hGood => hInit.elim hGood.backend fun hOpens =>
        Bool.noConfusion (hOpens.symm.trans hGood.opens)
      refine .inr ⟨fun hBoth => hBad hBoth.2, rfl, ?_⟩
      cases hJunk : env.junk with
      | none =>
        rw [destroy_null m rfl (update_self ..)]
        exact ⟨rfl, fun _ => ⟨rfl, rfl⟩, fun hNot => absurd (fun _ _ => hJunk) hNot⟩
      | some x =>
        obtain ⟨hCctxs, hMisused⟩ := @destroy_junk c m
          { m.setBackendCtx c (some x) with cctxs := c :: m.cctxs } x rfl (update_self ..)
        refine ⟨hCctxs, fun hNull => ?_, fun _ hNil => hMisused hNil⟩
        cases hJunk.symm.trans (hNull hOk hInit)
    · -- the backend is destroyed and `backend_ctx` set to NULL
      rw [if_pos (by decide)] at h
      cases h
      refine .inr ⟨fun hBoth => hBad hBoth.2, rfl, ?_⟩
      rw [destroy_null m rfl (update_self ..)]
      exact ⟨rfl, fun _ => ⟨rfl, rfl⟩, fun hNot => absurd (fun _ hFails => absurd hFails hInit) hNot⟩
    · rw [if_neg (by decide)] at h
      cases h
      refine .inl ⟨hOk, hGood, rfl, c, b, hCctx, hBackend, rfl, rfl, rfl, rfl,
        update_self .., fun x hx => ?_⟩
      show update (update m.backendCtx c env.junk) c (some b) x = m.backendCtx x
      rw [update_of_ne hx, update_of_ne hx]

end Library

/-! ## The three functions -/

section Functions

variable {env : CctxEnv} {benv : BackendEnv} {uenv : EndpointEnv} {m m' : LibMem} {rc : Int}

variable {stored : Option Nat}

theorem nullOnFailure_of_ok (h : benv.Ok) (env : CctxEnv) : NullOnFailure env benv := by
  rintro - (hNone | hOpens)
  · exact absurd hNone h.backend
  · exact Bool.noConfusion (hOpens.symm.trans h.opens)

theorem Failed.unwinds_iff (h : Failed m m' env benv) (hFresh : m.Fresh) (succeeded : Prop) :
    Unwinds (-1) m' succeeded ↔ NullOnFailure env benv := by
  refine ⟨fun hUnwinds => by_contra fun hNot => ?_, fun hNull => ?_⟩
  · exact Bool.noConfusion ((h.junk hNot hFresh.backends).symm.trans hUnwinds.misused)
  · obtain ⟨hBackends, hMisused⟩ := h.clean hNull
    exact ⟨hMisused.trans hFresh.misused, fun _ => hBackends.trans hFresh.backends,
      fun hNonneg => absurd hNonneg (by decide)⟩

theorem privEasyCreate_unwinds (hFresh : m.Fresh)
    (h : privEasyCreate env benv m = some (rc, stored, m')) :
    Unwinds rc m' (env.Ok ∧ benv.Ok ∧ m'.Live stored) ↔ NullOnFailure env benv := by
  rcases privEasyCreate_cases h with ⟨hOk, hGood, rfl, c, b, -, -, rfl, hMade⟩ | ⟨-, rfl, hFailed⟩
  · refine ⟨fun _ => nullOnFailure_of_ok hGood env, fun _ => ?_⟩
    exact ⟨hMade.misused.trans hFresh.misused, fun hNeg => absurd hNeg (by decide),
      fun _ => ⟨hOk, hGood, hMade.live⟩⟩
  · exact hFailed.unwinds_iff hFresh _

theorem made_of_nonneg (h : privEasyCreate env benv m = some (rc, stored, m')) (hNonneg : 0 ≤ rc) :
    env.Ok ∧ benv.Ok ∧ ∃ c b, env.cctx = some c ∧ benv.backend = some b ∧ stored = some c ∧
      Made m m' c b := by
  rcases privEasyCreate_cases h with ⟨hOk, hGood, -, hMade⟩ | ⟨-, rfl, -⟩
  · exact ⟨hOk, hGood, hMade⟩
  · exact absurd hNonneg (by decide)

theorem failed_of_neg (h : privEasyCreate env benv m = some (rc, stored, m')) (hNeg : rc < 0) :
    ¬ (env.Ok ∧ benv.Ok) ∧ rc = -1 ∧ Failed m m' env benv := by
  rcases privEasyCreate_cases h with ⟨-, -, rfl, -⟩ | hFailed
  · exact absurd hNeg (by decide)
  · exact hFailed

theorem usbCryptSetup_cases {cctx : Option Nat} {bound : Bool}
    (h : usbCryptSetup env benv uenv m = some (rc, cctx, bound, m')) :
    (∃ stored, privEasyCreate env benv m = some (rc, stored, m') ∧ rc < 0) ∨
    ∃ c m₁, privEasyCreate env benv m = some (0, some c, m₁) ∧ cctx = some c ∧
      ((uenv.devName = true ∧ uenv.opens = true ∧ uenv.written = true ∧ rc = 0 ∧ bound = true ∧
          m' = m₁) ∨
        (uenv.devName = true ∧ uenv.opens = true ∧ uenv.written = false ∧ rc = 0 ∧ bound = false) ∨
        (¬ (uenv.devName = true ∧ uenv.opens = true) ∧ rc = -1 ∧
          m' = privDestroyCctx m₁ (some c))) := by
  unfold usbCryptSetup at h
  unfold privEasyCreate
  generalize privCreateCctx env m = created at h ⊢
  obtain ⟨_ | c, m₁⟩ := created
  · cases h
    exact .inl ⟨none, rfl, by decide⟩
  dsimp only at h ⊢
  cases hNew : privNewBackend benv c m₁ with
  | none =>
    rw [hNew] at h
    cases h
  | some r =>
    obtain ⟨rc₁, m₂⟩ := r
    rw [hNew] at h
    dsimp only at h ⊢
    by_cases hNeg : rc₁ < 0
    · rw [if_pos hNeg] at h ⊢
      cases h
      exact .inl ⟨none, rfl, hNeg⟩
    rw [if_neg hNeg] at h ⊢
    refine .inr ⟨c, m₂, rfl, ?_⟩
    by_cases hName : uenv.devName = false
    · rw [if_pos hName] at h
      cases h
      exact ⟨rfl, .inr (.inr ⟨fun hBoth => Bool.noConfusion (hName.symm.trans hBoth.1), rfl, rfl⟩)⟩
    rw [if_neg hName] at h
    by_cases hOpens : uenv.opens = false
    · rw [if_pos hOpens] at h
      cases h
      exact ⟨rfl, .inr (.inr ⟨fun hBoth => Bool.noConfusion (hOpens.symm.trans hBoth.2), rfl, rfl⟩)⟩
    rw [if_neg hOpens] at h
    replace hName := eq_true_of_ne_false hName
    replace hOpens := eq_true_of_ne_false hOpens
    by_cases hWritten : uenv.written = false
    · rw [if_pos hWritten] at h
      cases h
      exact ⟨rfl, .inr (.inl ⟨hName, hOpens, hWritten, rfl, rfl⟩)⟩
    · rw [if_neg hWritten] at h
      cases h
      exact ⟨rfl, .inl ⟨hName, hOpens, eq_true_of_ne_false hWritten, rfl, rfl, rfl⟩⟩

structure EndpointEnv.Ok (uenv : EndpointEnv) : Prop where
  devName : uenv.devName = true
  opens : uenv.opens = true
  written : uenv.written = true

theorem usbCryptSetup_unwinds (hFresh : m.Fresh) {cctx : Option Nat} {bound : Bool}
    (h : usbCryptSetup env benv uenv m = some (rc, cctx, bound, m')) :
    Unwinds rc m' (env.Ok ∧ benv.Ok ∧ uenv.Ok ∧ m'.Live cctx ∧ bound = true) ↔
      NullOnFailure env benv ∧ (env.Ok → benv.Ok → uenv.devName = true → uenv.opens = true →
        uenv.written = true) := by
  rcases usbCryptSetup_cases h with ⟨stored, hEasy, hNeg⟩ | ⟨c, m₁, hEasy, rfl, hEnd⟩
  · obtain ⟨hNot, rfl, hFailed⟩ := failed_of_neg hEasy hNeg
    rw [hFailed.unwinds_iff hFresh]
    exact (and_iff_left fun hOk hGood => absurd ⟨hOk, hGood⟩ hNot).symm
  obtain ⟨hOk, hGood, c, b, -, -, hStored, hMade⟩ := made_of_nonneg hEasy (Int.le_refl 0)
  cases hStored
  have hNull := nullOnFailure_of_ok hGood env
  rcases hEnd with ⟨hName, hOpens, hWritten, rfl, rfl, rfl⟩ |
    ⟨hName, hOpens, hShort, rfl, rfl⟩ | ⟨hNot, rfl, rfl⟩
  · refine ⟨fun _ => ⟨hNull, fun _ _ _ _ => hWritten⟩, fun _ => ?_⟩
    exact ⟨hMade.misused.trans hFresh.misused, fun hNeg => absurd hNeg (by decide),
      fun _ => ⟨hOk, hGood, ⟨hName, hOpens, hWritten⟩, hMade.live, rfl⟩⟩
  · refine ⟨fun hUnwinds => ?_, fun hCond => ?_⟩
    · obtain ⟨-, -, -, -, hBound⟩ := hUnwinds.success (Int.le_refl 0)
      cases hBound
    · exact Bool.noConfusion (hShort.symm.trans (hCond.2 hOk hGood hName hOpens))
  · obtain ⟨hBackends, hMisused⟩ := hMade.destroy
    refine ⟨fun _ => ⟨hNull, fun _ _ hName hOpens => absurd ⟨hName, hOpens⟩ hNot⟩, fun _ => ?_⟩
    exact ⟨hMisused.trans hFresh.misused, fun _ => hBackends.trans hFresh.backends,
      fun hNonneg => absurd hNonneg (by decide)⟩

theorem unwindSound_made {m₁ m₂ : LibMem} {c₁ b₁ c₂ b₂ : Nat} (hFresh : m.Fresh)
    (h₁ : Made m m₁ c₁ b₁) (h₂ : Made m₁ m₂ c₂ b₂) (hCctx : c₁ ≠ c₂) (hBackend : b₁ ≠ b₂) :
    (unwindSound m₂ (some c₁) (some c₂)).misused = false ∧
      (unwindSound m₂ (some c₁) (some c₂)).backends = [] := by
  have hCctxs : m₂.cctxs = [c₂, c₁] := by rw [h₂.cctxs, h₁.cctxs, hFresh.cctxs]
  have hBackends : m₂.backends = [b₂, b₁] := by rw [h₂.backends, h₁.backends, hFresh.backends]
  have hMisused : m₂.misused = false := by rw [h₂.misused, h₁.misused, hFresh.misused]
  have hFirst : privDestroyCctx m₂ (some c₁) = { m₂ with backends := [b₂], cctxs := [c₂] } := by
    rw [privDestroyCctx_live ((h₂.other c₁ hCctx).trans h₁.own) (by simp [hBackends])
      (by simp [hCctxs]), hBackends, hCctxs]
    simp [Ne.symm hCctx, Ne.symm hBackend]
  have hSecond := privDestroyCctx_live (m := { m₂ with backends := [b₂], cctxs := [c₂] }) h₂.own
    mem_cons_self mem_cons_self
  unfold unwindSound
  rw [hFirst, hSecond]
  exact ⟨hMisused, erase_cons_head ..⟩

theorem unwindSound_failed {m₁ m₂ : LibMem} {c₁ b₁ : Nat} (hFresh : m.Fresh)
    (h₁ : Made m m₁ c₁ b₁) (hFailed : Failed m₁ m₂ env benv) (cctxOut : Option Nat) :
    (unwindSound m₂ (some c₁) cctxOut).misused = true := by
  have hCctxs : m₂.cctxs = [c₁] := by rw [hFailed.cctxs, h₁.cctxs, hFresh.cctxs]
  have hNone : (privDestroyCctx m₂ (some c₁)).cctxs = [] := by
    have hUser : ∀ m' : LibMem, m'.cctxs = [c₁] → (m'.destroyUser c₁).cctxs = [] := by
      intro m' hOne
      unfold LibMem.destroyUser
      rw [hOne, if_pos mem_cons_self]
      exact erase_cons_head ..
    rw [privDestroyCctx]
    cases m₂.backendCtx c₁ with
    | none => exact hUser m₂ hCctxs
    | some b => exact hUser _ ((cctxs_destroyBackend m₂ b).trans hCctxs)
  exact misused_privDestroyCctx hNone cctxOut

structure SoundEnv.Ok (senv : SoundEnv) : Prop where
  cctxIn : senv.cctxIn.Ok
  backendIn : senv.backendIn.Ok
  cctxOut : senv.cctxOut.Ok
  backendOut : senv.backendOut.Ok
  activateIn : senv.activateIn = true
  activateOut : senv.activateOut = true

/-- **The ends of `priv_sound_init`**: the first context is not made, the second is not, or an
activation decides. -/
theorem privSoundInit_cases {senv : SoundEnv} {cctxIn cctxOut cctxIn' cctxOut' : Option Nat}
    (h : privSoundInit senv cctxIn cctxOut m = some (rc, (cctxIn', cctxOut'), m')) :
    (∃ stored, privEasyCreate senv.cctxIn senv.backendIn m = some (rc, stored, m') ∧ rc < 0) ∨
    ∃ rc₁ stored m₁, privEasyCreate senv.cctxIn senv.backendIn m = some (rc₁, stored, m₁) ∧
      0 ≤ rc₁ ∧
      ((∃ stored' m₂, privEasyCreate senv.cctxOut senv.backendOut m₁ = some (rc, stored', m₂) ∧
          rc < 0 ∧ m' = unwindSound m₂ stored cctxOut) ∨
        ∃ rc₂ stored' m₂, privEasyCreate senv.cctxOut senv.backendOut m₁ =
            some (rc₂, stored', m₂) ∧ 0 ≤ rc₂ ∧
          ((rc = -1 ∧ m' = unwindSound m₂ stored stored') ∨
            senv.activateIn = true ∧ senv.activateOut = true ∧ rc = 0 ∧ cctxIn' = stored ∧
              cctxOut' = stored' ∧ m' = m₂)) := by
  unfold privSoundInit at h
  cases hIn : privEasyCreate senv.cctxIn senv.backendIn m with
  | none =>
    rw [hIn] at h
    cases h
  | some r =>
  obtain ⟨rc₁, stored, m₁⟩ := r
  rw [hIn] at h
  dsimp only at h
  by_cases hNeg₁ : rc₁ < 0
  · rw [if_pos hNeg₁] at h
    cases h
    exact .inl ⟨stored, rfl, hNeg₁⟩
  rw [if_neg hNeg₁] at h
  refine .inr ⟨rc₁, stored, m₁, rfl, Int.not_lt.mp hNeg₁, ?_⟩
  cases hOut : privEasyCreate senv.cctxOut senv.backendOut m₁ with
  | none =>
    rw [hOut] at h
    cases h
  | some r =>
  obtain ⟨rc₂, stored', m₂⟩ := r
  rw [hOut] at h
  dsimp only at h
  by_cases hNeg₂ : rc₂ < 0
  · rw [if_pos hNeg₂] at h
    cases h
    exact .inl ⟨stored', m₂, rfl, hNeg₂, rfl⟩
  rw [if_neg hNeg₂] at h
  refine .inr ⟨rc₂, stored', m₂, rfl, Int.not_lt.mp hNeg₂, ?_⟩
  by_cases hActIn : senv.activateIn = false
  · rw [if_pos hActIn] at h
    cases h
    exact .inl ⟨rfl, rfl⟩
  rw [if_neg hActIn] at h
  by_cases hActOut : senv.activateOut = false
  · rw [if_pos hActOut] at h
    cases h
    exact .inl ⟨rfl, rfl⟩
  · rw [if_neg hActOut] at h
    cases h
    exact .inr ⟨eq_true_of_ne_false hActIn, eq_true_of_ne_false hActOut, rfl, rfl, rfl, rfl⟩

theorem privSoundInit_unwinds (hFresh : m.Fresh) {senv : SoundEnv}
    {cctxIn cctxOut cctxIn' cctxOut' : Option Nat}
    (h : privSoundInit senv cctxIn cctxOut m = some (rc, (cctxIn', cctxOut'), m')) :
    Unwinds rc m' (senv.Ok ∧ m'.Live cctxIn' ∧ m'.Live cctxOut') ↔
      NullOnFailure senv.cctxIn senv.backendIn ∧
        (senv.cctxIn.Ok → senv.backendIn.Ok → senv.cctxOut.Ok ∧ senv.backendOut.Ok) := by
  rcases privSoundInit_cases h with ⟨stored, hIn, hNeg⟩ | ⟨rc₁, stored, m₁, hIn, hNonneg₁, hRest⟩
  · obtain ⟨hNot, rfl, hFailed⟩ := failed_of_neg hIn hNeg
    rw [hFailed.unwinds_iff hFresh]
    exact (and_iff_left fun hOk hGood => absurd ⟨hOk, hGood⟩ hNot).symm
  obtain ⟨hOk₁, hGood₁, c₁, b₁, hC₁, hB₁, rfl, hMade₁⟩ := made_of_nonneg hIn hNonneg₁
  rcases hRest with ⟨stored', m₂, hOut, hNeg, rfl⟩ | ⟨rc₂, stored', m₂, hOut, hNonneg₂, hEnd⟩
  · -- `cctx_out` is destroyed as well
    obtain ⟨hNot, rfl, hFailed⟩ := failed_of_neg hOut hNeg
    have hMisused := unwindSound_failed hFresh hMade₁ hFailed cctxOut
    refine ⟨fun hUnwinds => ?_, fun hCond => absurd (hCond.2 hOk₁ hGood₁) hNot⟩
    exact Bool.noConfusion (hMisused.symm.trans hUnwinds.misused)
  obtain ⟨hOk₂, hGood₂, c₂, b₂, hC₂, hB₂, rfl, hMade₂⟩ := made_of_nonneg hOut hNonneg₂
  have hCctx : c₁ ≠ c₂ := fun hEq => senv.cctx_ne c₁ hC₁ (hEq ▸ hC₂)
  have hBackend : b₁ ≠ b₂ := fun hEq => senv.backend_ne b₁ hB₁ (hEq ▸ hB₂)
  refine (iff_true_right ⟨nullOnFailure_of_ok hGood₁ senv.cctxIn, fun _ _ => ⟨hOk₂, hGood₂⟩⟩).mpr ?_
  rcases hEnd with ⟨rfl, rfl⟩ | ⟨hActIn, hActOut, rfl, rfl, rfl, rfl⟩
  · obtain ⟨hMisused, hBackends⟩ := unwindSound_made hFresh hMade₁ hMade₂ hCctx hBackend
    exact ⟨hMisused, fun _ => hBackends, fun hNonneg => absurd hNonneg (by decide)⟩
  · refine ⟨hMade₂.misused.trans (hMade₁.misused.trans hFresh.misused),
      fun hNeg => absurd hNeg (by decide),
      fun _ => ⟨⟨hOk₁, hGood₁, hOk₂, hGood₂, hActIn, hActOut⟩, ?_, hMade₂.live⟩⟩
    exact hMade₁.live.mono hMade₂ hCctx

end Functions

/-- **Unwinding after errors**, for each of the functions and whatever its steps meet. -/
theorem teardown_iff {m : LibMem} (hFresh : m.Fresh) :
    (∀ env benv rc stored m', privEasyCreate env benv m = some (rc, stored, m') →
      (Unwinds rc m' (env.Ok ∧ benv.Ok ∧ m'.Live stored) ↔ NullOnFailure env benv)) ∧
    (∀ env benv uenv rc cctx bound m',
      usbCryptSetup env benv uenv m = some (rc, cctx, bound, m') →
      (Unwinds rc m' (env.Ok ∧ benv.Ok ∧ uenv.Ok ∧ m'.Live cctx ∧ bound = true) ↔
        NullOnFailure env benv ∧ (env.Ok → benv.Ok → uenv.devName = true → uenv.opens = true →
          uenv.written = true))) ∧
    (∀ senv cctxIn cctxOut rc cctxIn' cctxOut' m',
      privSoundInit senv cctxIn cctxOut m = some (rc, (cctxIn', cctxOut'), m') →
      (Unwinds rc m' (senv.Ok ∧ m'.Live cctxIn' ∧ m'.Live cctxOut') ↔
        NullOnFailure senv.cctxIn senv.backendIn ∧ (senv.cctxIn.Ok → senv.backendIn.Ok →
          senv.cctxOut.Ok ∧ senv.backendOut.Ok))) :=
  ⟨fun _ _ _ _ _ h => privEasyCreate_unwinds hFresh h,
    fun _ _ _ _ _ _ _ h => usbCryptSetup_unwinds hFresh h,
    fun _ _ _ _ _ _ _ h => privSoundInit_unwinds hFresh h⟩

def freshMem : LibMem := ⟨fun _ => none, [], [], false⟩

def sampleCctx (c : Nat) (junk : Option Nat) : CctxEnv := ⟨some c, junk, true, true⟩

def sampleBackend (b : Nat) (opens : Bool) : BackendEnv :=
  ⟨some b, opens, true, .ok, true, fun _ => rfl⟩

def sampleSound (opens : Bool) : SoundEnv :=
  ⟨sampleCctx 1 (some 9), sampleBackend 2 true, sampleCctx 3 none, sampleBackend 4 opens, true, false,
    fun _ h => by cases h; exact (by decide : some 3 ≠ some 1),
    fun _ h => by cases h; exact (by decide : some 4 ≠ some 2)⟩

theorem teardown_sample :
    (∃ rc m', privSoundInit (sampleSound true) none none freshMem = some (rc, (none, none), m') ∧
      rc = -1 ∧ m'.backends = [] ∧ m'.misused = false) ∧
    ∃ rc m', privEasyCreate (sampleCctx 1 (some 9)) (sampleBackend 2 true) freshMem =
      some (rc, some 1, m') ∧ m'.Live (some 1) := by
  have hAll := teardown_iff (m := freshMem) ⟨rfl, rfl, rfl⟩
  refine ⟨⟨-1, _, rfl, rfl, ?_, ?_⟩, 0, _, rfl, ?_⟩
  · refine ((hAll.2.2 (sampleSound true) none none (-1) none none _ rfl).mpr ⟨?_, ?_⟩).negative
      (by decide)
    · exact fun _ hFails => hFails.elim (fun hNone => nomatch hNone) fun hOpens => nomatch hOpens
    · exact fun _ _ => ⟨⟨by decide, rfl, rfl⟩, by decide, rfl, rfl, rfl, rfl⟩
  · refine ((hAll.2.2 (sampleSound true) none none (-1) none none _ rfl).mpr ⟨?_, ?_⟩).misused
    · exact fun _ hFails => hFails.elim (fun hNone => nomatch hNone) fun hOpens => nomatch hOpens
    · exact fun _ _ => ⟨⟨by decide, rfl, rfl⟩, by decide, rfl, rfl, rfl, rfl⟩
  · refine (((hAll.1 (sampleCctx 1 (some 9)) (sampleBackend 2 true) 0 (some 1) _ rfl).mpr
      ?_).success (by decide)).2.2
    exact fun _ hFails => hFails.elim (fun hNone => nomatch hNone) fun hOpens => nomatch hOpens

/-- `backend_ctx` is destroyed although it was never set; a failed `write` leaves 0 as the
return value; `cctx_out` is destroyed although it was not made. -/
theorem teardown_misuse :
    (∃ rc m', privEasyCreate (sampleCctx 1 (some 9)) (sampleBackend 2 false) freshMem =
      some (rc, none, m') ∧ rc = -1 ∧ m'.misused = true) ∧
    (∃ rc m', usbCryptSetup (sampleCctx 1 none) (sampleBackend 2 true) ⟨true, true, false⟩ freshMem =
      some (rc, some 1, false, m') ∧ rc = 0 ∧ m'.cctxs = [] ∧ m'.backends = []) ∧
    ∃ rc m', privSoundInit (sampleSound false) none none freshMem = some (rc, (none, none), m') ∧
      rc = -1 ∧ m'.misused = true :=
  ⟨⟨-1, _, rfl, rfl, rfl⟩, ⟨0, _, rfl, rfl, rfl, rfl⟩, -1, _, rfl, rfl, rfl⟩

end Lacuna.Crypt.Teardown
