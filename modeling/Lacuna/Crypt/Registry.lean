import Lacuna.Lib.Trace
import Lacuna.Crypt.Context

/-!
# The registry of encryption contexts

`drivers/priv/priv_crypt_drv.c` and the `crypt_ctx_id` attribute of
`drivers/priv/sysfs.c`. A user of a context (a USB endpoint, a network card, a
sound channel) owns a reference. `use_ctx` ties it to a context and `__remove_ctx`
cuts the tie, so that a reference names a context exactly while the context is
listed and names the reference (`Agree`). `unuse_ctx` clears only one side.

Contexts and references are named by their addresses, and their memory can be read
and written whether or not it is still allocated.
-/

namespace Lacuna.Crypt

open Lacuna.Lib Function

variable {reg : Registry}

structure Registry where
  /-- the memory of contexts, by address -/
  heap : Nat → PrivCryptCtx
  allocated : Nat → Bool
  ctxList : List Nat
  /-- `cctx_ref->cctx` of every reference -/
  refs : Nat → Option Nat
  /-- the counter of `get_fresh_id` -/
  lastId : UInt32
  /-- history: released with `unuse_ctx` and not used since -/
  released : Nat → Bool

namespace Registry

def modifyCtx (reg : Registry) (c : Nat) (f : PrivCryptCtx → PrivCryptCtx) : Registry :=
  { reg with heap := update reg.heap c (f (reg.heap c)) }

def setRef (reg : Registry) (ref : Nat) (cctx : Option Nat) : Registry :=
  { reg with refs := update reg.refs ref cctx }

end Registry

def findCtxById (reg : Registry) (id : UInt32) : Option Nat :=
  reg.ctxList.find? fun c => (reg.heap c).id == id

def useCtx (reg : Registry) (id : UInt32) (ref : Option Nat) : Int × Registry :=
  match ref with
  | none => (-EINVAL, reg)
  | some ref =>
    match findCtxById reg id with
    | none => (-ENODEV, reg)
    | some c =>
      if (reg.heap c).userLock then (-EBUSY, reg)
      else
        let reg := reg.modifyCtx c fun k => { k with userLock := true, userRef := some ref }
        let reg := reg.setRef ref (some c)
        (0, { reg with released := update reg.released ref false })

def unuseCtx (reg : Registry) (ref : Option Nat) : Registry :=
  match ref with
  | none => reg
  | some ref =>
    let reg :=
      match reg.refs ref with
      | none => reg
      | some c => reg.modifyCtx c fun k => { k with userRef := none, userLock := false }
    { reg with released := update reg.released ref true }

def deviceCctxIdStore (reg : Registry) (ref : Nat) (id : UInt32) : Int × Registry :=
  useCtx (unuseCtx reg (some ref)) id (some ref)

def removeCtx (reg : Registry) (c : Nat) : Registry :=
  let reg :=
    match (reg.heap c).userRef with
    | some ref => (reg.setRef ref none).modifyCtx c fun k => { k with userRef := none }
    | none => reg
  { reg with ctxList := reg.ctxList.erase c }

/-- As far as the registry goes: the memory is free. -/
def destroyCryptoCtx (reg : Registry) (c : Nat) : Registry :=
  { reg with allocated := update reg.allocated c false }

/-- `make_crypto_ctx` at the free address `c`, for `PRIV_CRYPT_ALG_AES_CTR`, with the temporary
key `0, 1, 2, …`. -/
def makeCryptoCtx (reg : Registry) (c : Nat) (keySize : Nat) (dir : Dir) : Registry :=
  let id := reg.lastId + 1
  { reg with
    heap := update reg.heap c
      { id := id, allocPid := 0, userLock := false, userRef := none, activated := false,
        dir := dir, key := (List.range keySize).map UInt8.ofNat, ctr := 0 }
    allocated := update reg.allocated c true
    lastId := id }

/-- An id that is negative as an `int` counts as an error, and the context is not stored. -/
def doNewCtx (reg : Registry) (c keySize : Nat) (dir : Dir) (pid : Nat) : Registry :=
  let reg := makeCryptoCtx reg c keySize dir
  if reg.lastId.toBitVec.toInt < 0 then reg
  else
    let reg := reg.modifyCtx c fun k => { k with allocPid := pid }
    { reg with ctxList := c :: reg.ctxList }

def destroyCtx (reg : Registry) (c : Nat) : Registry :=
  destroyCryptoCtx (removeCtx reg c) c

def privPidDeathAction (reg : Registry) (pid : Nat) : Registry :=
  reg.ctxList.foldl
    (fun reg c => if (reg.heap c).allocPid = pid then destroyCtx reg c else reg) reg

inductive RegOp where
  | newCtx (c keySize : Nat) (dir : Dir) (pid : Nat)
  | useCtx (id : UInt32) (ref : Nat)
  | unuseCtx (ref : Nat)
  | deviceCctxIdStore (ref : Nat) (id : UInt32)
  | destroy (c : Nat)
  | pidDeath (pid : Nat)

/-- Memory for a new context is free; only references that are unused or just released are
passed to `use_ctx`; only listed contexts are destroyed. -/
inductive RegStep : Registry → RegOp → Registry → Prop
  | newCtx (reg c keySize dir pid) (hFree : reg.allocated c = false) :
      RegStep reg (.newCtx c keySize dir pid) (doNewCtx reg c keySize dir pid)
  | useCtx (reg id ref) (hIdle : reg.refs ref = none ∨ reg.released ref = true) :
      RegStep reg (.useCtx id ref) (Crypt.useCtx reg id (some ref)).2
  | unuseCtx (reg ref) : RegStep reg (.unuseCtx ref) (Crypt.unuseCtx reg (some ref))
  | deviceCctxIdStore (reg ref id) :
      RegStep reg (.deviceCctxIdStore ref id) (Crypt.deviceCctxIdStore reg ref id).2
  | destroy (reg c) (hListed : c ∈ reg.ctxList) : RegStep reg (.destroy c) (destroyCtx reg c)
  | pidDeath (reg pid) : RegStep reg (.pidDeath pid) (privPidDeathAction reg pid)

structure FreshRegistry (reg : Registry) : Prop where
  ctxList : reg.ctxList = []
  refs : ∀ ref, reg.refs ref = none

structure Agree (reg : Registry) : Prop where
  names_iff : ∀ ref c, reg.refs ref = some c ↔
    c ∈ reg.ctxList ∧ (reg.heap c).userRef = some ref
  at_most_one : ∀ ref ref' c, reg.refs ref = some c → reg.refs ref' = some c → ref = ref'
  not_destroyed : ∀ ref c, reg.refs ref = some c → reg.allocated c = true

/-- `unuse_ctx` finds a reference that names nothing, and a write of `crypt_ctx_id` to a bound
reference finds a listed context that is free, or its own. -/
def LeavesNoName (reg : Registry) : RegOp → Prop
  | .unuseCtx ref => reg.refs ref = none
  | .deviceCctxIdStore ref id => reg.refs ref = none ∨
      ∃ c, findCtxById reg id = some c ∧
        (reg.refs ref = some c ∨ (reg.heap c).userLock = false)
  | _ => True

/-! ## The invariant -/

/-- What holds as long as releases leave no name behind. -/
structure RegInv (reg : Registry) : Prop where
  names_iff : ∀ ref c, reg.refs ref = some c ↔
    c ∈ reg.ctxList ∧ (reg.heap c).userRef = some ref
  /-- the usage lock of a listed context is held for its reference -/
  lock : ∀ c ∈ reg.ctxList, (reg.heap c).userLock = (reg.heap c).userRef.isSome
  listed : ∀ c ∈ reg.ctxList, reg.allocated c = true
  nodup : reg.ctxList.Nodup
  idle : ∀ ref, reg.released ref = true → reg.refs ref = none

theorem RegInv.agree (h : RegInv reg) : Agree reg where
  names_iff := h.names_iff
  at_most_one := by
    intro ref ref' c hRef hRef'
    have hUser := ((h.names_iff ref c).mp hRef).2
    rw [((h.names_iff ref' c).mp hRef').2] at hUser
    exact (Option.some.inj hUser).symm
  not_destroyed := fun ref c hRef => h.listed c ((h.names_iff ref c).mp hRef).1

theorem FreshRegistry.inv (h : FreshRegistry reg) : RegInv reg where
  names_iff := by simp [h.ctxList, h.refs]
  lock := by simp [h.ctxList]
  listed := by simp [h.ctxList]
  nodup := by simp [h.ctxList]
  idle := fun ref _ => h.refs ref

section Operations

variable {reg : Registry}

variable {c : Nat}

theorem findCtxById_mem {id : UInt32} (h : findCtxById reg id = some c) : c ∈ reg.ctxList :=
  List.mem_of_find?_eq_some h

section Names

variable {refs userRef : Nat → Option Nat} {cs : List Nat} {ref c : Nat}
  (h : ∀ r c', refs r = some c' ↔ c' ∈ cs ∧ userRef c' = some r)
include h

theorem names_iff_update {x y : Option Nat}
    (hRef : ∀ c' ≠ c, refs ref ≠ some c' ∧ x ≠ some c')
    (hUser : ∀ r ≠ ref, userRef c ≠ some r ∧ y ≠ some r)
    (hHere : x = some c ↔ c ∈ cs ∧ y = some ref) (r c' : Nat) :
    update refs ref x r = some c' ↔ c' ∈ cs ∧ update userRef c y c' = some r := by
  have hOther := h r c'
  -- only the pair of both updated places is new; beside it neither side holds
  by_cases hr : r = ref <;> by_cases hc : c' = c
  · subst hr hc
    simpa using hHere
  · subst hr
    simpa [update_of_ne hc, hRef c' hc] using hOther
  · subst hc
    simpa [update_of_ne hr, hUser r hr] using hOther
  · simpa [update_of_ne hr, update_of_ne hc] using hOther

theorem names_iff_unbind (hRef : refs ref = some c) (r c' : Nat) :
    update refs ref none r = some c' ↔ c' ∈ cs ∧ update userRef c none c' = some r := by
  have hUser := ((h ref c).mp hRef).2
  exact names_iff_update h (by simp [hRef, eq_comm]) (by simp [hUser, eq_comm]) (by simp) r c'

theorem names_iff_erase (hNodup : cs.Nodup) (hUser : userRef c = none) (r c' : Nat) :
    refs r = some c' ↔ c' ∈ cs.erase c ∧ userRef c' = some r := by
  rw [h r c', hNodup.mem_erase_iff]
  constructor
  · rintro ⟨hIn, hEq⟩
    refine ⟨⟨fun hc => ?_, hIn⟩, hEq⟩
    rw [hc, hUser] at hEq
    cases hEq
  · rintro ⟨⟨-, hIn⟩, hEq⟩
    exact ⟨hIn, hEq⟩

end Names

theorem userRef_update (heap : Nat → PrivCryptCtx) (c : Nat) (k : PrivCryptCtx) (c' : Nat) :
    (update heap c k c').userRef = update (fun c => (heap c).userRef) c k.userRef c' :=
  Function.apply_update (fun _ k => k.userRef) heap c k c'

/-- Rewrite one context together with one reference. -/
theorem RegInv.rebind (h : RegInv reg) {ref : Nat} {k : PrivCryptCtx} {v : Option Nat} {b : Bool}
    (hLock : k.userLock = k.userRef.isSome)
    (hNames : ∀ r c', update reg.refs ref v r = some c' ↔ c' ∈ reg.ctxList ∧
      update (fun c => (reg.heap c).userRef) c k.userRef c' = some r)
    (hIdle : b = true → v = none) :
    RegInv { reg with
      heap := update reg.heap c k
      refs := update reg.refs ref v
      released := update reg.released ref b } := by
  constructor
  case names_iff =>
    intro r c'
    simp only [userRef_update]
    exact hNames r c'
  case lock =>
    intro c' hc'
    by_cases hc : c' = c
    · subst hc
      simpa using hLock
    · simpa [update_of_ne hc] using h.lock c' hc'
  case listed => exact h.listed
  case nodup => exact h.nodup
  case idle =>
    intro r hr
    by_cases hEq : r = ref
    · subst hEq
      simp only [update_self] at hr ⊢
      exact hIdle hr
    · simp only [update_of_ne hEq] at hr ⊢
      exact h.idle r hr

theorem useCtx_inv (h : RegInv reg) (id : UInt32) {ref : Nat} (hNone : reg.refs ref = none) :
    RegInv (useCtx reg id (some ref)).2 := by
  unfold useCtx
  simp only
  split
  · exact h
  · rename_i c hFind
    split
    · exact h
    · rename_i hLock
      have hListed : c ∈ reg.ctxList := findCtxById_mem hFind
      -- a free usage lock means that no reference names the context
      have hUser : (reg.heap c).userRef = none := by
        have hEq := h.lock c hListed
        simp only [Bool.not_eq_true] at hLock
        rw [hLock] at hEq
        exact Option.isSome_eq_false_iff.mp hEq.symm |> Option.isNone_iff_eq_none.mp
      refine h.rebind rfl (names_iff_update h.names_iff ?_ ?_ ?_) nofun
      · simp [hNone, eq_comm]
      · simp [hUser, eq_comm]
      · simp [hListed]

theorem unuseCtx_inv (h : RegInv reg) {ref : Nat} (hNone : reg.refs ref = none) :
    RegInv (unuseCtx reg (some ref)) := by
  simp only [unuseCtx, hNone]
  refine ⟨h.names_iff, h.lock, h.listed, h.nodup, fun r hr => ?_⟩
  by_cases hEq : r = ref
  · rw [hEq]
    exact hNone
  · simp only [update_of_ne hEq] at hr
    exact h.idle r hr

theorem unuseCtx_setRef_inv (h : RegInv reg) {ref : Nat} (hRef : reg.refs ref = some c) :
    RegInv ((unuseCtx reg (some ref)).setRef ref none) := by
  simp only [unuseCtx, hRef, Registry.setRef, Registry.modifyCtx]
  exact h.rebind rfl (names_iff_unbind h.names_iff hRef) fun _ => rfl

theorem destroyCtx_inv (h : RegInv reg) (hListed : c ∈ reg.ctxList) :
    RegInv (destroyCtx reg c) := by
  have hMem : ∀ {c'}, c' ∈ reg.ctxList.erase c ↔ c' ≠ c ∧ c' ∈ reg.ctxList := by
    intro c'
    exact h.nodup.mem_erase_iff
  have hAlloc : ∀ c' ∈ reg.ctxList.erase c, update reg.allocated c false c' = true := by
    intro c' hc'
    obtain ⟨hNe, hIn⟩ := hMem.mp hc'
    rw [update_of_ne hNe]
    exact h.listed c' hIn
  cases hUser : (reg.heap c).userRef with
  | none =>
    simp only [destroyCtx, removeCtx, destroyCryptoCtx, hUser]
    exact ⟨names_iff_erase h.names_iff h.nodup hUser, fun c' hc' => h.lock c' (hMem.mp hc').2,
      hAlloc, h.nodup.erase c, h.idle⟩
  | some ref =>
    have hRef : reg.refs ref = some c := (h.names_iff ref c).mpr ⟨hListed, hUser⟩
    simp only [destroyCtx, removeCtx, destroyCryptoCtx, hUser, Registry.setRef, Registry.modifyCtx]
    refine ⟨fun r c' => ?_, fun c' hc' => ?_, hAlloc, h.nodup.erase c, fun r hr => ?_⟩
    · simp only [userRef_update]
      exact names_iff_erase (names_iff_unbind h.names_iff hRef) h.nodup (update_self ..) r c'
    · obtain ⟨hNe, hIn⟩ := hMem.mp hc'
      simpa [update_of_ne hNe] using h.lock c' hIn
    · by_cases hEq : r = ref
      · subst hEq
        simp
      · simpa [update_of_ne hEq] using h.idle r hr

theorem ctxList_destroyCtx (reg : Registry) (c : Nat) :
    (destroyCtx reg c).ctxList = reg.ctxList.erase c := by
  simp only [destroyCtx, removeCtx, destroyCryptoCtx]
  split <;> rfl

theorem allocated_destroyCtx (reg : Registry) (c : Nat) :
    (destroyCtx reg c).allocated = update reg.allocated c false := by
  unfold destroyCtx removeCtx
  cases (reg.heap c).userRef <;> rfl

theorem mem_ctxList_destroyCtx {c' : Nat} (hNe : c' ≠ c) :
    c' ∈ (destroyCtx reg c).ctxList ↔ c' ∈ reg.ctxList := by
  rw [ctxList_destroyCtx, List.mem_erase_of_ne hNe]

theorem heap_destroyCtx {c' : Nat} (hNe : c' ≠ c) : (destroyCtx reg c).heap c' = reg.heap c' := by
  simp only [destroyCtx, removeCtx, destroyCryptoCtx]
  split
  · exact update_of_ne hNe _ _
  · rfl

theorem refs_destroyCtx (reg : Registry) (c r : Nat) : (destroyCtx reg c).refs r =
      if (reg.heap c).userRef = some r then none else reg.refs r := by
  simp only [destroyCtx, removeCtx, destroyCryptoCtx]
  cases hUser : (reg.heap c).userRef with
  | none => rfl
  | some ref =>
    by_cases hr : r = ref
    · subst hr
      rw [if_pos rfl]
      exact update_self ..
    · rw [if_neg fun hEq => hr (Option.some.inj hEq).symm]
      exact update_of_ne hr _ _

theorem foldl_destroyCtx_of_step {P : Registry → Prop}
    (hStep : ∀ reg c, P reg → c ∈ reg.ctxList → P (destroyCtx reg c)) (pid : Nat) (cs : List Nat)
    (hNodup : cs.Nodup) (h : P reg) (hListed : ∀ c ∈ cs, c ∈ reg.ctxList) :
    P (cs.foldl
      (fun reg c => if (reg.heap c).allocPid = pid then destroyCtx reg c else reg) reg) := by
  induction cs generalizing reg with
  | nil => exact h
  | cons c cs ih =>
    obtain ⟨hNotIn, hNodup⟩ := List.nodup_cons.mp hNodup
    rw [List.foldl_cons]
    split
    · refine ih hNodup (hStep reg c h (hListed c List.mem_cons_self)) fun c' hc' => ?_
      -- the contexts still to come are other ones
      have hNe : c' ≠ c := fun hEq => hNotIn (hEq ▸ hc')
      exact (mem_ctxList_destroyCtx hNe).mpr (hListed c' (List.mem_cons_of_mem _ hc'))
    · exact ih hNodup h fun c' hc' => hListed c' (List.mem_cons_of_mem _ hc')

theorem doNewCtx_inv (h : RegInv reg) (hFree : reg.allocated c = false)
    (keySize : Nat) (dir : Dir) (pid : Nat) : RegInv (doNewCtx reg c keySize dir pid) := by
  -- the memory is not that of a listed context
  have hNotIn : c ∉ reg.ctxList := by
    intro hIn
    rw [h.listed c hIn] at hFree
    cases hFree
  have hNe : ∀ {c'}, c' ∈ reg.ctxList → c' ≠ c := fun hIn hEq => hNotIn (hEq ▸ hIn)
  have hUnnamed : ∀ ref, reg.refs ref ≠ some c := fun ref hRef =>
    hNotIn ((h.names_iff ref c).mp hRef).1
  have hAlloc : ∀ c' ∈ reg.ctxList, update reg.allocated c true c' = true := by
    intro c' hIn
    rw [update_of_ne (hNe hIn)]
    exact h.listed c' hIn
  unfold doNewCtx makeCryptoCtx
  dsimp only
  split
  · refine ⟨fun r c' => ?_, fun c' hc' => ?_, hAlloc, h.nodup, h.idle⟩
    · by_cases hc : c' = c
      · subst hc
        simp [hNotIn, hUnnamed]
      · simpa [update_of_ne hc] using h.names_iff r c'
    · simpa [update_of_ne (hNe hc')] using h.lock c' hc'
  · refine ⟨fun r c' => ?_, fun c' hc' => ?_, fun c' hc' => ?_, List.nodup_cons.mpr
      ⟨hNotIn, h.nodup⟩, h.idle⟩
    · by_cases hc : c' = c
      · subst hc
        simp [Registry.modifyCtx, hUnnamed]
      · simpa [Registry.modifyCtx, update_of_ne hc, hc] using h.names_iff r c'
    · rcases List.mem_cons.mp hc' with rfl | hIn
      · simp [Registry.modifyCtx]
      · simpa [Registry.modifyCtx, update_of_ne (hNe hIn)] using h.lock c' hIn
    · rcases List.mem_cons.mp hc' with rfl | hIn
      · simp [Registry.modifyCtx]
      · exact hAlloc c' hIn

end Operations

/-! ## Writing `crypt_ctx_id` -/

section DeviceStore

variable {reg : Registry} {ref c : Nat}

theorem findCtxById_unuseCtx (reg : Registry) (ref : Nat) (id : UInt32) :
    findCtxById (unuseCtx reg (some ref)) id = findCtxById reg id := by
  have hIds : ∀ k, ((unuseCtx reg (some ref)).heap k).id = (reg.heap k).id := by
    intro k
    simp only [unuseCtx]
    split
    · rfl
    · rename_i c' _
      by_cases hk : k = c'
      · subst hk
        simp [Registry.modifyCtx]
      · simp [Registry.modifyCtx, update_of_ne hk]
  have hList : (unuseCtx reg (some ref)).ctxList = reg.ctxList := by
    simp only [unuseCtx]
    split <;> rfl
  simp only [findCtxById, hIds, hList]

theorem unuseCtx_not_agree (hRef : reg.refs ref = some c) : ¬ Agree (unuseCtx reg (some ref)) := by
  intro hAgree
  have hStill : (unuseCtx reg (some ref)).refs ref = some c := by
    simp [unuseCtx, hRef, Registry.modifyCtx]
  have hUser := ((hAgree.names_iff ref c).mp hStill).2
  simp [unuseCtx, hRef, Registry.modifyCtx] at hUser

theorem userLock_unuseCtx (hRef : reg.refs ref = some c) (c' : Nat) :
    ((unuseCtx reg (some ref)).heap c').userLock = false ↔
      c' = c ∨ (reg.heap c').userLock = false := by
  by_cases hc : c' = c
  · subst hc
    simp [unuseCtx, hRef, Registry.modifyCtx]
  · simp [unuseCtx, hRef, Registry.modifyCtx, hc]

theorem leavesNoName_store_iff (hRef : reg.refs ref = some c) (id : UInt32) :
    LeavesNoName reg (.deviceCctxIdStore ref id) ↔ ∃ c', findCtxById reg id = some c' ∧
      ((unuseCtx reg (some ref)).heap c').userLock = false := by
  have hSome : reg.refs ref ≠ none := by simp [hRef]
  have hOwn : ∀ c', reg.refs ref = some c' ↔ c' = c := by
    intro c'
    rw [hRef, Option.some.injEq, eq_comm]
  simp only [LeavesNoName, hSome, false_or, hOwn, userLock_unuseCtx hRef]

theorem deviceCctxIdStore_fails {id : UInt32} (hFail : ¬ ∃ c', findCtxById reg id = some c' ∧
      ((unuseCtx reg (some ref)).heap c').userLock = false) :
    (deviceCctxIdStore reg ref id).2 = unuseCtx reg (some ref) := by
  have hFind := findCtxById_unuseCtx reg ref id
  cases hId : findCtxById reg id with
  | none => simp only [deviceCctxIdStore, useCtx, hFind, hId]
  | some c' =>
    have hBusy : ((unuseCtx reg (some ref)).heap c').userLock = true := by
      by_contra hFree
      exact hFail ⟨c', hId, by simpa using hFree⟩
    simp only [deviceCctxIdStore, useCtx, hFind, hId, hBusy, if_true]

theorem deviceCctxIdStore_binds {id : UInt32} {c' : Nat} (hId : findCtxById reg id = some c')
    (hFree : ((unuseCtx reg (some ref)).heap c').userLock = false) :
    (deviceCctxIdStore reg ref id).2 =
      (useCtx ((unuseCtx reg (some ref)).setRef ref none) id (some ref)).2 := by
  have hFind : findCtxById (unuseCtx reg (some ref)) id = some c' :=
    (findCtxById_unuseCtx reg ref id).trans hId
  have hFind' : findCtxById ((unuseCtx reg (some ref)).setRef ref none) id = some c' := hFind
  have hFree' : (((unuseCtx reg (some ref)).setRef ref none).heap c').userLock = false := hFree
  simp only [deviceCctxIdStore, useCtx, hFind, hFind', hFree, hFree']
  simp [Registry.setRef, Registry.modifyCtx]

theorem deviceCctxIdStore_bound (h : RegInv reg) (hRef : reg.refs ref = some c) (id : UInt32) :
    (LeavesNoName reg (.deviceCctxIdStore ref id) → RegInv (deviceCctxIdStore reg ref id).2) ∧
      (Agree (deviceCctxIdStore reg ref id).2 → LeavesNoName reg (.deviceCctxIdStore ref id)) := by
  rw [leavesNoName_store_iff hRef]
  constructor
  · rintro ⟨c', hId, hFree⟩
    rw [deviceCctxIdStore_binds hId hFree]
    exact useCtx_inv (unuseCtx_setRef_inv h hRef) id (update_self ..)
  · intro hAgree
    by_contra hFail
    rw [deviceCctxIdStore_fails hFail] at hAgree
    exact unuseCtx_not_agree hRef hAgree

end DeviceStore

/-- **One operation** keeps the invariant if it leaves no name behind, and
loses agreement otherwise. -/
theorem RegInv.step {reg' : Registry} {op : RegOp} (h : RegInv reg) (hStep : RegStep reg op reg') :
    (LeavesNoName reg op → RegInv reg') ∧ (Agree reg' → LeavesNoName reg op) := by
  cases hStep with
  | newCtx c keySize dir pid hFree =>
    exact ⟨fun _ => doNewCtx_inv h hFree keySize dir pid, fun _ => trivial⟩
  | useCtx id ref hIdle =>
    have hNone : reg.refs ref = none := hIdle.elim (fun hNone => hNone) (h.idle ref)
    exact ⟨fun _ => useCtx_inv h id hNone, fun _ => trivial⟩
  | unuseCtx ref =>
    refine ⟨fun hC => unuseCtx_inv h hC, fun hAgree => ?_⟩
    cases hRef : reg.refs ref with
    | none => exact hRef
    | some c => exact absurd hAgree (unuseCtx_not_agree hRef)
  | deviceCctxIdStore ref id =>
    cases hRef : reg.refs ref with
    | none =>
      refine ⟨fun _ => ?_, fun _ => .inl hRef⟩
      have hNone : (unuseCtx reg (some ref)).refs ref = none := by
        simp [unuseCtx, hRef]
      exact useCtx_inv (unuseCtx_inv h hRef) id hNone
    | some c => exact deviceCctxIdStore_bound h hRef id
  | destroy c hListed => exact ⟨fun _ => destroyCtx_inv h hListed, fun _ => trivial⟩
  | pidDeath pid =>
    have hDestroy : ∀ reg c, RegInv reg → c ∈ reg.ctxList → RegInv (destroyCtx reg c) :=
      fun _ _ h hListed => destroyCtx_inv h hListed
    exact ⟨fun _ => foldl_destroyCtx_of_step hDestroy pid reg.ctxList h.nodup h fun _ => id,
      fun _ => trivial⟩

/-- **References and contexts** agree in every state of a run from an empty registry exactly
when each operation leaves no name behind. -/
theorem registry_agree_iff {reg : Registry} {tr : Trace Registry RegOp}
    (hFresh : FreshRegistry reg) (hTr : IsTrace RegStep reg tr) :
    EachState Agree reg tr ↔ EachStep LeavesNoName reg tr :=
  eachState_iff_of_inv (fun _ h => h.agree) (fun _ _ _ h hStep => (h.step hStep).1)
    (fun _ _ _ h hStep => (h.step hStep).2) hFresh.inv hTr

def emptyRegistry : Registry where
  heap := fun _ =>
    { id := 0, allocPid := 0, userLock := false, userRef := none, activated := false,
      dir := .enc, key := [], ctr := 0 }
  allocated := fun _ => false
  ctxList := []
  refs := fun _ => none
  lastId := 0
  released := fun _ => false

theorem emptyRegistry_fresh : FreshRegistry emptyRegistry := ⟨rfl, fun _ => rfl⟩

theorem bind_destroy_agree :
    ∃ tr : Trace Registry RegOp, tr.map Prod.fst =
        [.newCtx 100 16 .enc 7, .deviceCctxIdStore 1 1, .destroy 100] ∧
      EachState Agree emptyRegistry tr := by
  have hTr : IsTrace RegStep emptyRegistry
      [(.newCtx 100 16 .enc 7, _), (.deviceCctxIdStore 1 1, _), (.destroy 100, _)] :=
    ⟨.newCtx _ _ _ _ _ rfl, .deviceCctxIdStore _ _ _, .destroy _ _ (List.mem_singleton.mpr rfl),
      trivial⟩
  refine ⟨_, rfl, (registry_agree_iff emptyRegistry_fresh hTr).mpr ?_⟩
  exact ⟨trivial, Or.inl rfl, trivial, trivial⟩

/-- A device bound to context 1 is told to use context 2, which does not
exist; then context 1 is destroyed. The device still names it. -/
theorem released_ref_dangles :
    ∃ tr : Trace Registry RegOp, tr.map Prod.fst =
        [.newCtx 100 16 .enc 7, .deviceCctxIdStore 1 1, .deviceCctxIdStore 1 2,
          .destroy 100] ∧
      FreshRegistry emptyRegistry ∧ IsTrace RegStep emptyRegistry tr ∧
      (lastState emptyRegistry tr).refs 1 = some 100 ∧
      (lastState emptyRegistry tr).allocated 100 = false ∧
      ¬ EachState Agree emptyRegistry tr := by
  refine ⟨[(_, _), (_, _), (_, _), (_, _)], rfl, emptyRegistry_fresh,
    ⟨.newCtx _ _ _ _ _ rfl, .deviceCctxIdStore _ _ _, .deviceCctxIdStore _ _ _,
      .destroy _ _ (List.mem_singleton.mpr rfl), trivial⟩, rfl, rfl, fun hAll => ?_⟩
  have hDead := hAll.last.not_destroyed 1 100 rfl
  cases hDead

end Lacuna.Crypt
