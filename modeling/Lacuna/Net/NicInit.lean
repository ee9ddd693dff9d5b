import Lacuna.Crypt.Backend
import Lacuna.Net.MacTable
import Lacuna.Net.MacText

/-!
# Setting up a private network card

`priv_nic_init` and `priv_nic_register` of QEMU's `net.c`: two contexts are made,
the address of the card is registered with their ids through `sysfs`, and the
contexts are activated. Each of the five steps can fail. The undo path destroys the
contexts, but there is no step back from the registration.
-/

namespace Lacuna.Net

open Lacuna.Lib Lacuna.Crypt Option

structure NicContexts where
  macaddr : MacAddr
  cctxIn : Option LibCctx
  cctxOut : Option LibCctx

/-- The library with the kernel below, and the trie. -/
structure NicHost where
  lib : Userland
  macTreeRoot : MacTree

structure NicEnv where
  createIn : CreateEnv
  createOut : CreateEnv
  /-- `add_mac` can be opened -/
  openSysfs : Bool
  /-- the system call of `write` gets to `privnet_store` -/
  write : Bool
  /-- memory for the record in the trie -/
  mem : Option (Nat × Nat)
  /-- the system calls of `ACTIVATE` get to the driver -/
  activateIn : Bool
  activateOut : Bool
  /-- files and contexts that are in use are not given out again -/
  file_apart : ∀ f, createIn.kernFd = some f → createOut.kernFd ≠ some f
  ctx_apart : ∀ c, createIn.ctx = some c → createOut.ctx ≠ some c

def NicHost.findMac (host : NicHost) (mac : MacAddr) : Option MacCryptRefs :=
  privnetFindMac ⟨host.lib.ctl.reg, host.macTreeRoot⟩ mac.val

/-! ## The call -/

/-- `write` to `add_mac`: whether it returns the size, and the host afterwards. -/
def writeAddMac (env : NicEnv) (host : NicHost) (text : List UInt8) : Option (Bool × NicHost) :=
  if env.write then do
    match ← privnetStore .addMac text with
    | .privnetAddMac mac idIn idOut =>
      let r := privnetAddMac ⟨host.lib.ctl.reg, host.macTreeRoot⟩ mac idIn idOut env.mem
      return (decide (0 ≤ r.1),
        { lib := { host.lib with ctl := { host.lib.ctl with reg := r.2.reg } }
          macTreeRoot := r.2.macTreeRoot })
    | _ => return (true, host)
  else some (false, host)

def privNicRegister (env : NicEnv) (host : NicHost) (mac : MacAddr) (cctxIn cctxOut : LibCctx) :
    Option (Int × NicHost) :=
  if env.openSysfs then do
    let idIn ← cctxIn.backendCtx.map KernBackend.id
    let idOut ← cctxOut.backendCtx.map KernBackend.id
    let (done, host) ← writeAddMac env host (registerText mac idIn idOut)
    return (if done then 0 else -1, host)
  else some (-1, host)

def activateCctx (reaches : Bool) (host : NicHost) (cctx : LibCctx) : Option (Int × NicHost) := do
  let backend ← cctx.backendCtx
  let (rc, d) := privActivate reaches host.lib.ctl backend.kernFd
  return (rc, { host with lib := { host.lib with ctl := d } })

def NicHost.destroy (host : NicHost) (cctx : LibCctx) : NicHost :=
  { host with lib := privDestroyCctx host.lib cctx }

/-- `priv_nic_init` once both contexts are there, up to the undo path. -/
def registerAndActivate (env : NicEnv) (host : NicHost) (mac : MacAddr) (cctxIn cctxOut : LibCctx) :
    Option (Int × NicHost) := do
  let (rc, host) ← privNicRegister env host mac cctxIn cctxOut
  if rc < 0 then return (rc, host)
  else
    let (rc, host) ← activateCctx env.activateIn host cctxIn
    if rc < 0 then return (rc, host)
    else activateCctx env.activateOut host cctxOut

def privNicInit (env : NicEnv) (host : NicHost) (ni : NicContexts) :
    Option (Int × NicHost × NicContexts) := do
  let (r, lib) ← privEasyCreate env.createIn host.lib true
  let host := { host with lib := lib }
  match r with
  | .error rc => return (rc, host, ni)
  | .ok cctxIn =>
    let ni := { ni with cctxIn := some cctxIn }
    let (r, lib) ← privEasyCreate env.createOut host.lib false
    let host := { host with lib := lib }
    match r with
    -- `out_destroy1`
    | .error rc => return (rc, host.destroy cctxIn, { ni with cctxIn := none })
    | .ok cctxOut =>
      let ni := { ni with cctxOut := some cctxOut }
      let (rc, host) ← registerAndActivate env host ni.macaddr cctxIn cctxOut
      if rc < 0 then
        -- `out_destroy2`
        return (rc, (host.destroy cctxOut).destroy cctxIn,
          { ni with cctxOut := none, cctxIn := none })
      else return (0, host, ni)

/-! ## All or nothing -/

structure Nothing (host host' : NicHost) (ni' : NicContexts) : Prop where
  mac : host'.findMac ni'.macaddr = host.findMac ni'.macaddr
  userCtxs : host'.lib.userCtxs = host.lib.userCtxs
  contexts : Restored host.lib.ctl host'.lib.ctl
  cctxIn : ni'.cctxIn = none
  cctxOut : ni'.cctxOut = none

def AllOrNothing (env : NicEnv) (host : NicHost) (ni : NicContexts) : Prop :=
  ∀ rc host' ni', privNicInit env host ni = some (rc, host', ni') → rc < 0 → Nothing host host' ni'

/-- The address will be registered once there are contexts. -/
def NicEnv.Registers (env : NicEnv) (host : NicHost) (mac : MacAddr) : Prop :=
  env.openSysfs = true ∧ env.write = true ∧ env.mem.isSome = true ∧ host.findMac mac = none

/-- What the call has done by the time it fails can be taken back. -/
def NicEnv.Undoes (env : NicEnv) (host : NicHost) (ni : NicContexts) : Prop :=
  match env.createIn.outcome host.lib.ctl.reg.lastId with
  | .lost => True
  | .leaks => False
  | .fails => ni.cctxIn = none ∧ ni.cctxOut = none
  | .works =>
    match env.createOut.outcome (host.lib.ctl.reg.lastId + 1) with
    | .lost => True
    | .leaks => False
    | .fails => ni.cctxOut = none
    | .works => env.Registers host ni.macaddr → env.activateIn = true ∧ env.activateOut = true

/-! ## Registration -/

section Register

variable {reg : Registry}

variable {c₁ c₂ : Nat} {idIn idOut : UInt32}

theorem useCtx_of_free {id : UInt32} {ref c : Nat} (hFind : findCtxById reg id = some c)
    (hLock : (reg.heap c).userLock = false) :
    useCtx reg id (some ref) = (0, bindCtx reg ref c) := by
  simp only [useCtx, hFind, hLock, Bool.false_eq_true, if_false, bindCtx]

theorem findCtxById_bindCtx (reg : Registry) (ref c : Nat) (id : UInt32) :
    findCtxById (bindCtx reg ref c) id = findCtxById reg id := by
  have hId : ∀ x, ((bindCtx reg ref c).heap x).id = (reg.heap x).id := by
    intro x
    by_cases hx : x = c
    · rw [hx]
      simp only [bindCtx, Registry.modifyCtx, Registry.setRef, Function.update_self]
    · exact congrArg PrivCryptCtx.id (Function.update_of_ne hx _ _)
  unfold findCtxById
  simp only [hId]
  rfl

theorem setupNode_of_free {nid : MacCryptRefs} (hIn : findCtxById reg nid.inId = some c₁)
    (hOut : findCtxById reg nid.outId = some c₂) (hNe : c₂ ≠ c₁)
    (hFreeIn : (reg.heap c₁).userLock = false) (hFreeOut : (reg.heap c₂).userLock = false) :
    (setupNode reg nid).1 = 0 := by
  have hIn' : findCtxById ((reg.setRef nid.inRef none).setRef nid.outRef none) nid.inId = some c₁ :=
    hIn
  have hFree : ((bindCtx ((reg.setRef nid.inRef none).setRef nid.outRef none) nid.inRef c₁).heap
      c₂).userLock = false :=
    (congrArg PrivCryptCtx.userLock (Function.update_of_ne hNe _ _)).trans hFreeOut
  have hOut' := (findCtxById_bindCtx ((reg.setRef nid.inRef none).setRef nid.outRef none) nid.inRef
    c₁ nid.outId).trans hOut
  simp only [setupNode, useCtx_of_free hIn' hFreeIn, useCtx_of_free hOut' hFree]
  rfl

theorem sameList_setupNode (reg : Registry) (nid : MacCryptRefs) :
    SameList reg (setupNode reg nid).2 := by
  have hIn := sameList_useCtx ((reg.setRef nid.inRef none).setRef nid.outRef none) nid.inId nid.inRef
  have hOut := sameList_useCtx (useCtx ((reg.setRef nid.inRef none).setRef nid.outRef none) nid.inId
    (some nid.inRef)).2 nid.outId nid.outRef
  have hUndo := sameList_unuseCtx (useCtx (useCtx ((reg.setRef nid.inRef none).setRef nid.outRef none)
    nid.inId (some nid.inRef)).2 nid.outId (some nid.outRef)).2 (some nid.inRef)
  unfold setupNode
  dsimp only
  split
  · exact hIn
  split
  · exact ⟨hUndo.1.trans (hOut.1.trans hIn.1), hUndo.2.trans (hOut.2.trans hIn.2)⟩
  · exact ⟨hOut.1.trans hIn.1, hOut.2.trans hIn.2⟩

theorem sameList_privnetAddMac (st : Privnet) (mac : List UInt8) (inId outId : UInt32)
    (mem : Option (Nat × Nat)) : SameList st.reg (privnetAddMac st mac inId outId mem).2.reg := by
  unfold privnetAddMac
  split
  · exact ⟨rfl, rfl⟩
  dsimp only
  split
  · exact ⟨rfl, rfl⟩
  · split <;> exact sameList_setupNode st.reg _

structure TwoFree (reg : Registry) (idIn idOut : UInt32) (c₁ c₂ : Nat) : Prop where
  findIn : findCtxById reg idIn = some c₁
  findOut : findCtxById reg idOut = some c₂
  apart : c₂ ≠ c₁
  freeIn : (reg.heap c₁).userLock = false
  freeOut : (reg.heap c₂).userLock = false

theorem privnetAddMac_of_free (st : Privnet)
    (h : TwoFree st.reg idIn idOut c₁ c₂) (mac : List UInt8) (mem : Option (Nat × Nat)) :
    0 ≤ (privnetAddMac st mac idIn idOut mem).1 ↔
      mem.isSome = true ∧ privnetFindMac st mac = none := by
  unfold privnetAddMac
  cases hFind : privnetFindMac st mac with
  | some nid =>
    exact iff_of_false (by decide : ¬ 0 ≤ -EBUSY) fun hAnd => nomatch hAnd.2
  | none =>
    cases mem with
    | none => exact iff_of_false (by decide : ¬ 0 ≤ -ENOMEM) fun hAnd => Bool.noConfusion hAnd.1
    | some refs =>
      have hSetup : (setupNode st.reg ⟨idIn, refs.1, idOut, refs.2⟩).1 = 0 :=
        setupNode_of_free h.findIn h.findOut h.apart h.freeIn h.freeOut
      simp only [hSetup, Int.lt_irrefl, if_false]
      exact iff_of_true (Int.le_refl 0) ⟨rfl, trivial⟩

/-- What a registration or an activation leaves alone. -/
structure OnlyUse (host host' : NicHost) : Prop where
  userCtxs : host'.lib.userCtxs = host.lib.userCtxs
  contexts : OnlyContext host.lib.ctl host'.lib.ctl

theorem OnlyUse.refl (host : NicHost) : OnlyUse host host := ⟨rfl, ⟨⟨rfl, rfl⟩, rfl, rfl, rfl⟩⟩

theorem OnlyUse.trans {host₁ host₂ host₃ : NicHost} (h : OnlyUse host₁ host₂)
    (h' : OnlyUse host₂ host₃) : OnlyUse host₁ host₃ where
  userCtxs := h'.userCtxs.trans h.userCtxs
  contexts :=
    { sameList := ⟨h'.contexts.sameList.1.trans h.contexts.sameList.1,
        h'.contexts.sameList.2.trans h.contexts.sameList.2⟩
      files := h'.contexts.files.trans h.contexts.files
      births := h'.contexts.births.trans h.contexts.births
      fileBirth := h'.contexts.fileBirth.trans h.contexts.fileBirth }

variable {env : NicEnv} {host : NicHost} {mac : MacAddr}

theorem writeAddMac_of_free (hWrite : env.write = true)
    (h : TwoFree host.lib.ctl.reg idIn idOut c₁ c₂) :
    ∃ done host', writeAddMac env host (registerText mac idIn idOut) = some (done, host') ∧
      OnlyUse host host' ∧
      (done = true ↔ env.mem.isSome = true ∧ host.findMac mac = none) ∧
      (done = true → (host'.findMac mac).isSome = true) ∧
      (done = false → host'.findMac mac = host.findMac mac) := by
  have hSame := sameList_privnetAddMac ⟨host.lib.ctl.reg, host.macTreeRoot⟩ mac.val idIn idOut env.mem
  have hRc := privnetAddMac_of_free ⟨host.lib.ctl.reg, host.macTreeRoot⟩ h mac.val env.mem
  simp only [writeAddMac, hWrite, if_true, privnetStore_registerText, bind_eq_bind, bind_some,
    pure_def]
  refine ⟨_, _, rfl, ⟨rfl, ⟨hSame, rfl, rfl, rfl⟩⟩, ?_, ?_, ?_⟩
  · rw [decide_eq_true_iff]
    exact hRc
  · intro hDone
    rcases find_privnetAddMac ⟨host.lib.ctl.reg, host.macTreeRoot⟩ mac idIn idOut env.mem with
      ⟨hNeg, -⟩ | ⟨-, nid, -, -, hNew⟩
    · exact absurd (of_decide_eq_true hDone) (Int.not_le.mpr hNeg)
    · refine Option.isSome_iff_exists.mpr ⟨nid, ?_⟩
      exact (hNew mac).trans (if_pos rfl)
  · intro hDone
    rcases find_privnetAddMac ⟨host.lib.ctl.reg, host.macTreeRoot⟩ mac idIn idOut env.mem with
      ⟨-, hSame⟩ | ⟨hZero, -⟩
    · exact hSame mac
    · exact absurd (Int.le_of_eq hZero.symm) (of_decide_eq_false hDone)

/-- **The registration** succeeds exactly if nothing stands in its way. -/
theorem privNicRegister_of_free (env : NicEnv) (mac : MacAddr) (u₁ u₂ f₁ f₂ : Nat) (h : TwoFree host.lib.ctl.reg idIn idOut c₁ c₂) :
    ∃ rc host', privNicRegister env host mac ⟨u₁, some ⟨f₁, idIn⟩⟩ ⟨u₂, some ⟨f₂, idOut⟩⟩ =
        some (rc, host') ∧ OnlyUse host host' ∧
      (env.Registers host mac ∧ rc = 0 ∧ (host'.findMac mac).isSome = true ∨
        ¬ env.Registers host mac ∧ rc = -1 ∧ host'.findMac mac = host.findMac mac) := by
  cases hOpen : env.openSysfs with
  | false =>
    refine ⟨-1, host, ?_, .refl host, .inr ⟨fun hReg => ?_, rfl, rfl⟩⟩
    · simp only [privNicRegister, hOpen, Bool.false_eq_true, if_false]
    · exact Bool.noConfusion (hOpen.symm.trans hReg.1)
  | true =>
    simp only [privNicRegister, hOpen, if_true, map_some, bind_eq_bind, bind_some, pure_def]
    cases hWrite : env.write with
    | false =>
      have hRefused : writeAddMac env host (registerText mac idIn idOut) = some (false, host) := by
        simp only [writeAddMac, hWrite, Bool.false_eq_true, if_false]
      rw [hRefused]
      refine ⟨-1, host, rfl, .refl host, .inr ⟨fun hReg => ?_, rfl, rfl⟩⟩
      exact Bool.noConfusion (hWrite.symm.trans hReg.2.1)
    | true =>
      obtain ⟨done, host', hText, hOnly, hDone, hSome, hKept⟩ := writeAddMac_of_free hWrite h
      rw [hText]
      cases done with
      | true =>
        refine ⟨0, host', rfl, hOnly, .inl ⟨⟨hOpen, hWrite, hDone.mp rfl⟩, rfl, hSome rfl⟩⟩
      | false =>
        refine ⟨-1, host', rfl, hOnly, .inr ⟨fun hReg => ?_, rfl, hKept rfl⟩⟩
        exact Bool.noConfusion (hDone.mpr hReg.2.2)

theorem activateCctx_of_file (u : Nat) {f c : Nat} (id : UInt32) (hFile : host.lib.ctl.files f = some c)
    (reaches : Bool) :
    ∃ host', activateCctx reaches host ⟨u, some ⟨f, id⟩⟩ = some (if reaches then 0 else -1, host') ∧
      OnlyUse host host' ∧ host'.macTreeRoot = host.macTreeRoot := by
  simp only [activateCctx, bind_eq_bind, bind_some, pure_def, privActivate]
  cases reaches with
  | false => exact ⟨host, rfl, .refl host, rfl⟩
  | true =>
    simp only [if_true, Control.doSetActivated, hFile]
    exact ⟨_, rfl, ⟨rfl, ⟨⟨rfl, rfl⟩, rfl, rfl, rfl⟩⟩, rfl⟩

theorem findMac_congr {host' : NicHost} (hRoot : host'.macTreeRoot = host.macTreeRoot)
    (mac : MacAddr) : host'.findMac mac = host.findMac mac := by
  rw [NicHost.findMac, NicHost.findMac, privnetFindMac, privnetFindMac, hRoot]

/-- **Registration and activation.** The address is bound unless it could not be registered. -/
theorem registerAndActivate_of_free (env : NicEnv) (host : NicHost) (mac : MacAddr) (u₁ u₂ : Nat)
    {f₁ f₂ : Nat} (h : TwoFree host.lib.ctl.reg idIn idOut c₁ c₂) (hIn : host.lib.ctl.files f₁ = some c₁)
    (hOut : host.lib.ctl.files f₂ = some c₂) :
    ∃ rc host', registerAndActivate env host mac ⟨u₁, some ⟨f₁, idIn⟩⟩ ⟨u₂, some ⟨f₂, idOut⟩⟩ =
        some (rc, host') ∧ OnlyUse host host' ∧
      (rc < 0 ↔ (env.Registers host mac → ¬ (env.activateIn = true ∧ env.activateOut = true))) ∧
      (env.Registers host mac → (host'.findMac mac).isSome = true) ∧
      (¬ env.Registers host mac → host'.findMac mac = host.findMac mac) := by
  obtain ⟨rc, host₁, hRun₁, hOnly₁, ⟨hReg, rfl, hSome⟩ | ⟨hReg, rfl, hKept⟩⟩ :=
    privNicRegister_of_free env mac u₁ u₂ f₁ f₂ h
  · obtain ⟨host₂, hRun₂, hOnly₂, hRoot₂⟩ := activateCctx_of_file u₁ idIn
      ((congrFun hOnly₁.contexts.files f₁).trans hIn) env.activateIn
    obtain ⟨host₃, hRun₃, hOnly₃, hRoot₃⟩ := activateCctx_of_file u₂ idOut
      ((congrFun (hOnly₁.trans hOnly₂).contexts.files f₂).trans hOut) env.activateOut
    simp only [registerAndActivate, hRun₁, bind_eq_bind, bind_some, Int.lt_irrefl,
      if_false, hRun₂, pure_def]
    cases hActIn : env.activateIn with
    | false =>
      refine ⟨-1, host₂, rfl, hOnly₁.trans hOnly₂, ?_, fun _ => ?_, fun hNot => absurd hReg hNot⟩
      · exact iff_of_true (by decide) fun _ hBoth => Bool.noConfusion hBoth.1
      · rw [findMac_congr hRoot₂]
        exact hSome
    | true =>
      refine ⟨_, host₃, hRun₃, hOnly₁.trans (hOnly₂.trans hOnly₃), ?_, fun _ => ?_,
        fun hNot => absurd hReg hNot⟩
      · cases env.activateOut with
        | false => exact iff_of_true (by decide) fun _ hBoth => Bool.noConfusion hBoth.2
        | true => exact iff_of_false (by decide) fun hNot => hNot hReg ⟨rfl, rfl⟩
      · rw [findMac_congr (hRoot₃.trans hRoot₂)]
        exact hSome
  · refine ⟨-1, host₁, ?_, hOnly₁, iff_of_true (by decide) fun hYes => absurd hYes hReg,
      fun hYes => absurd hYes hReg, fun _ => hKept⟩
    simp only [registerAndActivate, hRun₁, bind_eq_bind, bind_some]
    rfl

theorem twoFree_of_made {d d₁ d₂ : Control} {f₁ f₂ : Nat} (h₁ : Made d d₁ f₁ c₁)
    (h₂ : Made d₁ d₂ f₂ c₂) (hNe : c₂ ≠ c₁) :
    TwoFree d₂.reg (d.reg.lastId + 1) (d.reg.lastId + 1 + 1) c₁ c₂ := by
  have hId₂ : (d₂.reg.heap c₂).id = d.reg.lastId + 1 + 1 := h₂.id.trans (by rw [h₁.lastId])
  have hHeap₁ : d₂.reg.heap c₁ = d₁.reg.heap c₁ := h₂.heap c₁ hNe.symm
  have hId₁ : (d₂.reg.heap c₁).id = d.reg.lastId + 1 := (congrArg _ hHeap₁).trans h₁.id
  have hList : d₂.reg.ctxList = c₂ :: c₁ :: d.reg.ctxList := by rw [h₂.ctxList, h₁.ctxList]
  refine ⟨?_, ?_, hNe, (congrArg _ hHeap₁).trans h₁.free, h₂.free⟩
  · have hOther : ((d₂.reg.heap c₂).id == d.reg.lastId + 1) = false := by
      rw [hId₂]
      simp
    rw [findCtxById, hList, List.find?_cons_of_neg (by rw [hOther]; exact Bool.false_ne_true),
      List.find?_cons_of_pos (by rw [hId₁]; exact beq_self_eq_true _)]
  · rw [findCtxById, hList, List.find?_cons_of_pos (by rw [hId₂]; exact beq_self_eq_true _)]

end Register

/-! ## The undo path -/

section Init

variable {env : NicEnv} {host host' : NicHost} {ni ni' : NicContexts} {rc : Int}

variable {c u f : Nat} {lib₁ : Userland}

theorem allOrNothing_of_lost (hRun : privNicInit env host ni = none) : AllOrNothing env host ni := by
  intro rc host' ni' hSome
  cases hRun.symm.trans hSome

theorem allOrNothing_of_ok (hRun : privNicInit env host ni = some (rc, host', ni')) (hOk : 0 ≤ rc) :
    AllOrNothing env host ni := by
  intro rc' host'' ni'' hSome hNeg
  cases hRun.symm.trans hSome
  exact absurd hNeg (Int.not_lt.mpr hOk)

theorem allOrNothing_iff_of_error (hRun : privNicInit env host ni = some (rc, host', ni'))
    (hNeg : rc < 0) : AllOrNothing env host ni ↔ Nothing host host' ni' := by
  refine ⟨fun h => h rc host' ni' hRun hNeg, fun h rc' host'' ni'' hSome _ => ?_⟩
  cases hRun.symm.trans hSome
  exact h

theorem not_restored_of_birth {d d' : Control} (hAlloc : d'.reg.allocated c = true)
    (hBirth : d'.births c = d.births c + 1) : ¬ Restored d d' := by
  intro h
  have hSame := (h.allocated c hAlloc).2
  omega

theorem nothing_of_createOut {lib₂ : Userland} {id : UInt32}
    (hMade : Holds host.lib.ctl lib₁.ctl f c) (hUsers : lib₁.userCtxs = u :: host.lib.userCtxs)
    (hRest : Restored lib₁.ctl lib₂.ctl) (hUsers' : lib₂.userCtxs = lib₁.userCtxs)
    (hFile : lib₂.ctl.files f = lib₁.ctl.files f) :
    Nothing host (NicHost.destroy { host with lib := lib₂ } ⟨u, some ⟨f, id⟩⟩)
        { ni with cctxIn := none } ↔ ni.cctxOut = none := by
  refine ⟨fun h => h.cctxOut, fun h => ⟨rfl, ?_, (hMade.of_restored hRest hFile).destroy, rfl, h⟩⟩
  show lib₂.userCtxs.erase u = _
  rw [hUsers', hUsers, List.erase_cons_head]

theorem nothing_of_both (host₂ : NicHost) {host₃ : NicHost} {u₁ f₁ c₁ u₂ f₂ c₂ : Nat}
    {id₁ id₂ : UInt32} (hMade₁ : Holds host.lib.ctl lib₁.ctl f₁ c₁)
    (hUsers₁ : lib₁.userCtxs = u₁ :: host.lib.userCtxs)
    (hMade₂ : Holds lib₁.ctl host₂.lib.ctl f₂ c₂)
    (hUsers₂ : host₂.lib.userCtxs = u₂ :: lib₁.userCtxs)
    (hOther : OtherFiles f₂ lib₁.ctl host₂.lib.ctl) (hApart : f₁ ≠ f₂) (hOnly : OnlyUse host₂ host₃) :
    Nothing host ((host₃.destroy ⟨u₂, some ⟨f₂, id₂⟩⟩).destroy ⟨u₁, some ⟨f₁, id₁⟩⟩)
        { ni with cctxIn := none, cctxOut := none } ↔
      host₃.findMac ni.macaddr = host.findMac ni.macaddr := by
  have hRest := (hMade₂.of_onlyContext hOnly.contexts).destroy
  have hFile : (host₃.lib.ctl.doDestroy f₂).2.2.files f₁ = lib₁.ctl.files f₁ :=
    (otherFiles_doDestroy host₃.lib.ctl f₂ f₁ hApart).trans
      ((congrFun hOnly.contexts.files f₁).trans (hOther f₁ hApart))
  refine ⟨fun h => h.mac, fun h => ⟨h, ?_, (hMade₁.of_restored hRest hFile).destroy, rfl, rfl⟩⟩
  show (host₃.lib.userCtxs.erase u₂).erase u₁ = _
  rw [hOnly.userCtxs, hUsers₂, hUsers₁, List.erase_cons_head, List.erase_cons_head]

theorem privNicInit_of_in (ni : NicContexts) {cctxIn : LibCctx}
    (hIn : privEasyCreate env.createIn host.lib true = some (.ok cctxIn, lib₁)) :
    (privEasyCreate env.createOut lib₁ false = none → privNicInit env host ni = none) ∧
    (∀ rc lib₂, privEasyCreate env.createOut lib₁ false = some (.error rc, lib₂) →
      privNicInit env host ni =
        some (rc, NicHost.destroy { host with lib := lib₂ } cctxIn, { ni with cctxIn := none })) ∧
    (∀ cctxOut lib₂ rc host₃, privEasyCreate env.createOut lib₁ false = some (.ok cctxOut, lib₂) →
      registerAndActivate env { host with lib := lib₂ } ni.macaddr cctxIn cctxOut =
        some (rc, host₃) →
      privNicInit env host ni = if rc < 0 then some (rc, (host₃.destroy cctxOut).destroy cctxIn,
          { ni with cctxIn := none, cctxOut := none })
        else some (0, host₃, { ni with cctxIn := some cctxIn, cctxOut := some cctxOut })) := by
  refine ⟨fun hOut => ?_, fun rc lib₂ hOut => ?_, fun cctxOut lib₂ rc host₃ hOut hReg => ?_⟩
  · simp only [privNicInit, hIn, bind_eq_bind, bind_some, hOut, bind_none]
  · simp only [privNicInit, hIn, bind_eq_bind, bind_some, hOut, pure_def]
  · simp only [privNicInit, hIn, bind_eq_bind, bind_some, hOut, hReg, pure_def]

theorem not_nothing_of_leak {lib₂ : Userland} {c' : Nat} {id : UInt32}
    (hMade : Made host.lib.ctl lib₁.ctl f c) (hNe : c' ≠ c)
    (hFile : lib₂.ctl.files f = some c) (hAlloc : lib₂.ctl.reg.allocated c' = true)
    (hBirth : lib₂.ctl.births c' = lib₁.ctl.births c' + 1) :
    ¬ Nothing host (NicHost.destroy { host with lib := lib₂ } ⟨u, some ⟨f, id⟩⟩) ni := by
  intro h
  have hCtl : (NicHost.destroy { host with lib := lib₂ } ⟨u, some ⟨f, id⟩⟩).lib.ctl =
      { lib₂.ctl with reg := destroyCtx lib₂.ctl.reg c }.clearFile f := doDestroy_of_file hFile
  have hRest := h.contexts
  rw [hCtl] at hRest
  refine not_restored_of_birth (c := c') ?_ ?_ hRest
  · show (destroyCtx lib₂.ctl.reg c).allocated c' = true
    rw [allocated_destroyCtx, Function.update_of_ne hNe]
    exact hAlloc
  · show lib₂.ctl.births c' = _
    rw [hBirth, hMade.births c' hNe]

theorem allOrNothing_iff_of_in
    (hFd : env.createIn.kernFd = some f) (hCtx : env.createIn.ctx = some c)
    (hIn : privEasyCreate env.createIn host.lib true =
      some (.ok ⟨u, some ⟨f, host.lib.ctl.reg.lastId + 1⟩⟩, lib₁))
    (hUsers : lib₁.userCtxs = u :: host.lib.userCtxs) (hMade : Made host.lib.ctl lib₁.ctl f c)
    (hWorks : env.createIn.outcome host.lib.ctl.reg.lastId = .works) :
    AllOrNothing env host ni ↔ env.Undoes host ni := by
  obtain ⟨hLost, hError, hBoth⟩ := privNicInit_of_in ni hIn
  have hOut := privEasyCreate_spec env.createOut lib₁ false
  rw [hMade.lastId] at hOut
  simp only [NicEnv.Undoes, hWorks]
  cases hEnd : env.createOut.outcome (host.lib.ctl.reg.lastId + 1) with
  | lost =>
    rw [hEnd] at hOut
    exact iff_of_true (allOrNothing_of_lost (hLost hOut)) trivial
  | fails =>
    rw [hEnd] at hOut
    obtain ⟨rc, lib₂, hNeg, hRun, hUsers', hRest, hFiles⟩ := hOut
    rw [allOrNothing_iff_of_error (hError rc lib₂ hRun) hNeg]
    exact nothing_of_createOut hMade.toHolds hUsers hRest hUsers' (hFiles f (env.file_apart f hFd))
  | leaks =>
    rw [hEnd] at hOut
    obtain ⟨rc, lib₂, c', hNeg, hRun, hCtx', hAlloc, hBirth, hFiles⟩ := hOut
    rw [allOrNothing_iff_of_error (hError rc lib₂ hRun) hNeg]
    have hNe : c' ≠ c := fun hEq => env.ctx_apart c hCtx (hEq ▸ hCtx')
    refine iff_of_false (not_nothing_of_leak hMade hNe ?_ hAlloc hBirth) id
    exact (hFiles f (env.file_apart f hFd)).trans hMade.file
  | works =>
    rw [hEnd] at hOut
    obtain ⟨u', f', c', lib₂, hFd', hCtx', hRun, hUsers', hMade', hOther⟩ := hOut
    have hApart : f ≠ f' := fun hEq => env.file_apart f hFd (hEq ▸ hFd')
    have hNe : c' ≠ c := fun hEq => env.ctx_apart c hCtx (hEq ▸ hCtx')
    have hTwo := twoFree_of_made hMade hMade' hNe
    rw [hMade.lastId] at hRun
    obtain ⟨rc, host₃, hReg, hOnly, hRc, hBound, hKept⟩ :=
      registerAndActivate_of_free env { host with lib := lib₂ } ni.macaddr u u' hTwo
        ((hOther f hApart).trans hMade.file) hMade'.file
    have hFinal := hBoth _ lib₂ rc host₃ hRun hReg
    by_cases hNeg : rc < 0
    · rw [if_pos hNeg] at hFinal
      rw [allOrNothing_iff_of_error hFinal hNeg, nothing_of_both { host with lib := lib₂ }
        hMade.toHolds hUsers hMade'.toHolds hUsers' hOther hApart hOnly]
      by_cases hDoes : env.Registers host ni.macaddr
      · refine iff_of_false (fun hSame => ?_) (fun h => hRc.mp hNeg hDoes (h hDoes))
        have hSome := hBound hDoes
        rw [hSame, hDoes.2.2.2] at hSome
        cases hSome
      · exact iff_of_true (hKept hDoes) fun h => absurd h hDoes
    · rw [if_neg hNeg] at hFinal
      refine iff_of_true (allOrNothing_of_ok hFinal (Int.le_refl 0)) fun _ => ?_
      by_contra hNot
      exact hNeg (hRc.mpr fun _ => hNot)

/-- **All or nothing.** A failed `priv_nic_init` leaves nothing behind exactly if
what it has done by then can be taken back. -/
theorem nic_init_iff (env : NicEnv) (host : NicHost) (ni : NicContexts) :
    AllOrNothing env host ni ↔ env.Undoes host ni := by
  have hIn := privEasyCreate_spec env.createIn host.lib true
  cases hEnd : env.createIn.outcome host.lib.ctl.reg.lastId with
  | works =>
    rw [hEnd] at hIn
    obtain ⟨u, f, c, lib₁, hFd, hCtx, hRun, hUsers, hMade, -⟩ := hIn
    exact allOrNothing_iff_of_in hFd hCtx hRun hUsers hMade hEnd
  | fails =>
    rw [hEnd] at hIn
    obtain ⟨rc, lib₁, hNeg, hRun, hUsers, hRest, -⟩ := hIn
    have hFinal : privNicInit env host ni = some (rc, { host with lib := lib₁ }, ni) := by
      simp only [privNicInit, hRun, bind_eq_bind, bind_some, pure_def]
    rw [allOrNothing_iff_of_error hFinal hNeg]
    simp only [NicEnv.Undoes, hEnd]
    exact ⟨fun h => ⟨h.cctxIn, h.cctxOut⟩, fun h => ⟨rfl, hUsers, hRest, h.1, h.2⟩⟩
  | leaks =>
    rw [hEnd] at hIn
    obtain ⟨rc, lib₁, c, hNeg, hRun, -, hAlloc, hBirth, -⟩ := hIn
    have hFinal : privNicInit env host ni = some (rc, { host with lib := lib₁ }, ni) := by
      simp only [privNicInit, hRun, bind_eq_bind, bind_some, pure_def]
    rw [allOrNothing_iff_of_error hFinal hNeg]
    simp only [NicEnv.Undoes, hEnd]
    exact iff_of_false (fun h => not_restored_of_birth hAlloc hBirth h.contexts) id
  | lost =>
    rw [hEnd] at hIn
    have hFinal : privNicInit env host ni = none := by
      simp only [privNicInit, show privEasyCreate env.createIn host.lib true = none from hIn,
        bind_eq_bind, bind_none]
    simp only [NicEnv.Undoes, hEnd]
    exact iff_of_true (allOrNothing_of_lost hFinal) trivial

end Init

/-! ## An activation that fails -/

def sampleCreate (u f c : Nat) : CreateEnv where
  userCtx := some u
  junk := false
  kernFd := some f
  pid := 7
  newCtx := some ⟨some c, none, some []⟩
  kex := ⟨true, 0, []⟩
  setIv := true
  iv := []

def sampleNicEnv : NicEnv where
  createIn := sampleCreate 1 3 100
  createOut := sampleCreate 2 4 200
  openSysfs := true
  write := true
  mem := some (10, 11)
  activateIn := false
  activateOut := true
  file_apart f hIn hOut := absurd (Option.some.inj (hIn.trans hOut.symm)) (by decide)
  ctx_apart c hIn hOut := absurd (Option.some.inj (hIn.trans hOut.symm)) (by decide)

def emptyHost : NicHost := ⟨⟨emptyControl, []⟩, Trie.empty 5⟩

/-- **The address stays registered** when an activation fails: the contexts are destroyed, and
the record in the trie stays. -/
theorem activation_failure_leaves_mac :
    ∃ rc host' ni', privNicInit sampleNicEnv emptyHost ⟨sampleMac, none, none⟩ =
        some (rc, host', ni') ∧
      rc < 0 ∧ emptyHost.findMac sampleMac = none ∧ host'.lib.ctl.reg.ctxList = [] ∧
      host'.findMac sampleMac = some ⟨1, 10, 2, 11⟩ := by
  have hRun : (privNicInit sampleNicEnv emptyHost ⟨sampleMac, none, none⟩).map
      (fun r => (r.1, r.2.1.lib.ctl.reg.ctxList, r.2.1.findMac sampleMac)) =
        some (-1, [], some ⟨1, 10, 2, 11⟩) := by
    decide +kernel
  obtain ⟨⟨rc, host', ni'⟩, hSome, hEq⟩ := Option.map_eq_some_iff.mp hRun
  obtain ⟨hRc, hList, hFind⟩ : rc = -1 ∧ _ = _ ∧ _ = _ := by simpa only [Prod.mk.injEq] using hEq
  exact ⟨rc, host', ni', hSome, hRc ▸ by decide, rfl, hList, hFind⟩

end Lacuna.Net
