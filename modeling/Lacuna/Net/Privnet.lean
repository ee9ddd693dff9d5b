import Lacuna.Lib.Trie
import Lacuna.Lib.Trace
import Lacuna.Crypt.Registry
import Lacuna.Net.Tap

/-!
# Private network cards in the host kernel

`drivers/priv_sysfs/privnet/privnet.c`: a trie from MAC addresses to the two
contexts of a private network card, and `privnet_encrypt`/`privnet_decrypt`, which
pass over a context that is gone or not activated, and a cipher that fails, in silence.

`PrivnetInv` says what every history of registrations, activations and destructions
keeps: a reference in the trie names a listed context that has the id the card was
registered with and is used by this reference only.
-/

namespace Lacuna.Net

open Lacuna.Lib Lacuna.Crypt Function

def ENOMEM : Int := 12

/-- The two references are named by their addresses. -/
structure MacCryptRefs where
  inId : UInt32
  inRef : Nat
  outId : UInt32
  outRef : Nat
  deriving DecidableEq

namespace MacCryptRefs

def ref (nid : MacCryptRefs) (dirIn : Bool) : Nat := if dirIn then nid.inRef else nid.outRef

def id (nid : MacCryptRefs) (dirIn : Bool) : UInt32 := if dirIn then nid.inId else nid.outId

end MacCryptRefs

abbrev MacTree := Trie UInt8 MacCryptRefs 6

structure Privnet where
  reg : Registry
  macTreeRoot : MacTree

def nextBytes : List UInt8 := (List.range 256).map UInt8.ofNat

theorem mem_nextBytes (b : UInt8) : b ∈ nextBytes :=
  List.mem_map.mpr ⟨b.toNat, List.mem_range.mpr b.toNat_lt, UInt8.ofNat_toNat⟩

/-! ## Registration -/

def setupNode (reg : Registry) (nid : MacCryptRefs) : Int × Registry :=
  -- `cctx_ref_init`
  let reg := (reg.setRef nid.inRef none).setRef nid.outRef none
  match useCtx reg nid.inId (some nid.inRef) with
  | (rc, reg) =>
    if rc < 0 then (-1, reg)
    else
      match useCtx reg nid.outId (some nid.outRef) with
      | (rc, reg) => if rc < 0 then (-1, unuseCtx reg (some nid.inRef)) else (0, reg)

def teardownNode (reg : Registry) (nid : MacCryptRefs) : Registry :=
  unuseCtx (unuseCtx reg (some nid.inRef)) (some nid.outRef)

def privnetFindMac (st : Privnet) (mac : List UInt8) : Option MacCryptRefs :=
  Trie.find 6 st.macTreeRoot mac

/-- `mem` gives the addresses of the two references. The nodes on the way stay when the
registration fails. -/
def privnetAddMac (st : Privnet) (mac : List UInt8) (inId outId : UInt32)
    (mem : Option (Nat × Nat)) : Int × Privnet :=
  match privnetFindMac st mac with
  | some _ => (-EBUSY, st)
  | none =>
    let st := { st with macTreeRoot := Trie.set 5 st.macTreeRoot mac none }
    match mem with
    | none => (-ENOMEM, st)
    | some (inRef, outRef) =>
      let nid : MacCryptRefs := ⟨inId, inRef, outId, outRef⟩
      match setupNode st.reg nid with
      | (rc, reg) =>
        if rc < 0 then (rc, { st with reg := reg })
        else (0, { reg := reg, macTreeRoot := Trie.set 5 st.macTreeRoot mac (some nid) })

def privnetRemoveMac (st : Privnet) (mac : List UInt8) : Privnet :=
  match privnetFindMac st mac with
  | none => st
  | some nid =>
    { reg := teardownNode st.reg nid
      macTreeRoot := (Trie.remove nextBytes 6 st.macTreeRoot mac).getD (Trie.empty 5) }

/-! ## Frames -/

/-- The data and the registry afterwards, whatever `priv_crypt` returns. -/
def privnetCrypt (blk : Blkcipher) (reg : Registry) (ref : Nat) (data : List UInt8) :
    List UInt8 × Registry :=
  match reg.refs ref with
  | none => (data, reg)
  | some c =>
    let r := privCrypt blk (reg.heap c) data
    (r.2.1, reg.modifyCtx c fun _ => r.2.2)

def privnetEncrypt (blk : Blkcipher) (reg : Registry) (nid : MacCryptRefs) (data : List UInt8) :
    List UInt8 × Registry :=
  privnetCrypt blk reg nid.inRef data

def privnetDecrypt (blk : Blkcipher) (reg : Registry) (nid : MacCryptRefs) (data : List UInt8) :
    List UInt8 × Registry :=
  privnetCrypt blk reg nid.outRef data

/-! ## What registration does to the map -/

section Find

variable {st : Privnet} {mac : List UInt8}

variable {mac' : List UInt8}

theorem find_touch (hMac : mac.length = 6) (hFree : privnetFindMac st mac = none) (hMac' : mac'.length = 6) :
    Trie.find 6 (Trie.set 5 st.macTreeRoot mac none) mac' = privnetFindMac st mac' := by
  rw [Trie.find_set 5 st.macTreeRoot none hMac hMac']
  split
  · rename_i hEq
    rw [hEq, hFree]
  · rfl

theorem find_enter (hMac : mac.length = 6) (hFree : privnetFindMac st mac = none)
    (nid : MacCryptRefs) (hMac' : mac'.length = 6) :
    Trie.find 6 (Trie.set 5 (Trie.set 5 st.macTreeRoot mac none) mac (some nid)) mac' =
      if mac' = mac then some nid else privnetFindMac st mac' := by
  rw [Trie.find_set 5 _ (some nid) hMac hMac', find_touch hMac hFree hMac']

theorem find_privnetRemoveMac (hMac : mac.length = 6)
    (hMac' : mac'.length = 6) : privnetFindMac (privnetRemoveMac st mac) mac' =
      if mac' = mac then none else privnetFindMac st mac' := by
  unfold privnetRemoveMac
  cases hFind : privnetFindMac st mac with
  | none =>
    dsimp only
    split
    · rename_i hEq
      rw [hEq, hFind]
    · rfl
  | some nid => exact Trie.find_remove_getD mem_nextBytes 5 st.macTreeRoot hMac hMac'

end Find

/-! ## The invariant -/

/-- The context `c` is the one that `nid` was registered with for the
direction. -/
structure Tied (reg : Registry) (nid : MacCryptRefs) (dirIn : Bool) (c : Nat) : Prop where
  listed : c ∈ reg.ctxList
  user : (reg.heap c).userRef = some (nid.ref dirIn)
  id : (reg.heap c).id = nid.id dirIn

/-- The usage lock of a listed context is held for its reference. -/
structure LockInv (reg : Registry) : Prop where
  lock : ∀ c ∈ reg.ctxList, (reg.heap c).userLock = (reg.heap c).userRef.isSome
  allocated : ∀ c ∈ reg.ctxList, reg.allocated c = true
  nodup : reg.ctxList.Nodup

structure PrivnetInv (st : Privnet) : Prop where
  reg : LockInv st.reg
  tied : ∀ (mac : MacAddr) nid dirIn c, privnetFindMac st mac.val = some nid →
    st.reg.refs (nid.ref dirIn) = some c → Tied st.reg nid dirIn c
  /-- records do not share references -/
  apart : ∀ (mac mac' : MacAddr) nid nid' dirIn dirIn', privnetFindMac st mac.val = some nid →
    privnetFindMac st mac'.val = some nid' → nid.ref dirIn = nid'.ref dirIn' →
    mac = mac' ∧ dirIn = dirIn'

theorem PrivnetInv.context_apart {st : Privnet} (h : PrivnetInv st) {mac mac' : MacAddr}
    {nid nid' : MacCryptRefs} {dirIn dirIn' : Bool} {c : Nat}
    (hFind : privnetFindMac st mac.val = some nid)
    (hFind' : privnetFindMac st mac'.val = some nid') (hRef : st.reg.refs (nid.ref dirIn) = some c)
    (hRef' : st.reg.refs (nid'.ref dirIn') = some c) : mac = mac' ∧ dirIn = dirIn' := by
  have hUser := (h.tied mac nid dirIn c hFind hRef).user
  have hUser' := (h.tied mac' nid' dirIn' c hFind' hRef').user
  exact h.apart mac mac' nid nid' dirIn dirIn' hFind hFind'
    (Option.some.inj (hUser.symm.trans hUser'))

section Registry

variable {reg : Registry}

variable {reg' : Registry} {nid : MacCryptRefs} {dirIn : Bool} {c : Nat}

def bindCtx (reg : Registry) (ref c : Nat) : Registry :=
  let reg := reg.modifyCtx c fun k => { k with userLock := true, userRef := some ref }
  let reg := reg.setRef ref (some c)
  { reg with released := Function.update reg.released ref false }

theorem useCtx_cases (reg : Registry) (id : UInt32) (ref : Nat) :
    (∃ rc < 0, useCtx reg id (some ref) = (rc, reg)) ∨
      ∃ c ∈ reg.ctxList, (reg.heap c).id = id ∧ (reg.heap c).userLock = false ∧
        useCtx reg id (some ref) = (0, bindCtx reg ref c) := by
  unfold useCtx
  cases hFind : findCtxById reg id with
  | none => exact .inl ⟨-ENODEV, by decide, rfl⟩
  | some c =>
    cases hLock : (reg.heap c).userLock with
    | true => exact .inl ⟨-EBUSY, by decide, by simp only [hLock, if_true]⟩
    | false =>
      refine .inr ⟨c, findCtxById_mem hFind, ?_, hLock, ?_⟩
      · simpa using List.find?_some hFind
      · simp only [hLock, Bool.false_eq_true, if_false, bindCtx]

/-- Registries that differ in the references outside `keep` only. -/
structure SameFor (keep : Nat → Prop) (reg reg' : Registry) : Prop where
  heap : reg'.heap = reg.heap
  ctxList : reg'.ctxList = reg.ctxList
  allocated : reg'.allocated = reg.allocated
  refs : ∀ ref, keep ref → reg'.refs ref = reg.refs ref

theorem SameFor.lockInv {keep : Nat → Prop} (h : SameFor keep reg reg')
    (hInv : LockInv reg) : LockInv reg' where
  lock := by rw [h.heap, h.ctxList]; exact hInv.lock
  allocated := by rw [h.ctxList, h.allocated]; exact hInv.allocated
  nodup := by rw [h.ctxList]; exact hInv.nodup

theorem SameFor.tied {keep : Nat → Prop} (h : SameFor keep reg reg') (hTied : Tied reg nid dirIn c) :
    Tied reg' nid dirIn c where
  listed := by rw [h.ctxList]; exact hTied.listed
  user := by rw [h.heap]; exact hTied.user
  id := by rw [h.heap]; exact hTied.id

theorem LockInv.free (h : LockInv reg) (hListed : c ∈ reg.ctxList)
    (hLock : (reg.heap c).userLock = false) : (reg.heap c).userRef = none := by
  have hEq := h.lock c hListed
  rw [hLock] at hEq
  exact Option.isNone_iff_eq_none.mp (Option.isSome_eq_false_iff.mp hEq.symm)

theorem LockInv.bindCtx (h : LockInv reg) (ref c : Nat) : LockInv (bindCtx reg ref c) where
  lock c' hListed := by
    by_cases hc : c' = c
    · subst hc
      simp [Net.bindCtx, Registry.modifyCtx, Registry.setRef]
    · simpa [Net.bindCtx, Registry.modifyCtx, Registry.setRef, update_of_ne hc] using
        h.lock c' hListed
  allocated := h.allocated
  nodup := h.nodup

theorem unuseCtx_of_ref {ref : Nat} (hRef : reg.refs ref = some c) : unuseCtx reg (some ref) =
      { reg.modifyCtx c fun k => { k with userRef := none, userLock := false } with
        released := update reg.released ref true } := by
  simp only [unuseCtx, hRef]
  rfl

theorem unuseCtx_bindCtx (h : LockInv reg) {ref : Nat} (hListed : c ∈ reg.ctxList)
    (hLock : (reg.heap c).userLock = false) :
    SameFor (· ≠ ref) reg (unuseCtx (bindCtx reg ref c) (some ref)) := by
  have hUser := h.free hListed hLock
  have hRef : (bindCtx reg ref c).refs ref = some c := update_self ..
  have hRestore : { reg.heap c with userRef := none, userLock := false } = reg.heap c := by
    rw [← hLock, ← hUser]
  rw [unuseCtx_of_ref hRef]
  refine ⟨?_, rfl, rfl, fun r hr => update_of_ne hr _ _⟩
  simp only [bindCtx, Registry.modifyCtx, Registry.setRef, update_self,
    update_idem, hRestore, update_eq_self]

theorem refs_unuseCtx (reg : Registry) (ref : Nat) : (unuseCtx reg (some ref)).refs = reg.refs := by
  simp only [unuseCtx]
  split <;> rfl

theorem LockInv.unuseCtx (h : LockInv reg) (ref : Nat) : LockInv (unuseCtx reg (some ref)) := by
  cases hRef : reg.refs ref with
  | none =>
    simp only [Crypt.unuseCtx, hRef]
    exact ⟨h.lock, h.allocated, h.nodup⟩
  | some c =>
    rw [unuseCtx_of_ref hRef]
    refine ⟨fun c' hListed => ?_, h.allocated, h.nodup⟩
    by_cases hc : c' = c
    · subst hc
      simp [Registry.modifyCtx]
    · simpa [Registry.modifyCtx, update_of_ne hc] using h.lock c' hListed

theorem Tied.unuseCtx {ref : Nat} (hTied : Tied reg nid dirIn c) (hOther : reg.refs ref ≠ some c) :
    Tied (unuseCtx reg (some ref)) nid dirIn c := by
  cases hRef : reg.refs ref with
  | none =>
    simp only [Crypt.unuseCtx, hRef]
    exact ⟨hTied.listed, hTied.user, hTied.id⟩
  | some c' =>
    have hNe : c ≠ c' := fun hEq => hOther (hEq ▸ hRef)
    rw [unuseCtx_of_ref hRef]
    have hHeap : (reg.modifyCtx c' fun k => { k with userRef := none, userLock := false }).heap c =
        reg.heap c := update_of_ne hNe _ _
    exact ⟨hTied.listed, by rw [hHeap]; exact hTied.user, by rw [hHeap]; exact hTied.id⟩

theorem Tied.bindCtx (h : LockInv reg) {ref c' : Nat}
    (hTied : Tied reg nid dirIn c) (hListed : c' ∈ reg.ctxList)
    (hLock : (reg.heap c').userLock = false) : Tied (bindCtx reg ref c') nid dirIn c := by
  have hNe : c ≠ c' := by
    rintro rfl
    have hUser := hTied.user
    rw [h.free hListed hLock] at hUser
    cases hUser
  have hHeap : (Net.bindCtx reg ref c').heap c = reg.heap c := update_of_ne hNe _ _
  exact ⟨hTied.listed, by rw [hHeap]; exact hTied.user, by rw [hHeap]; exact hTied.id⟩

theorem tied_bindCtx (nid : MacCryptRefs) (dirIn : Bool) (hListed : c ∈ reg.ctxList)
    (hId : (reg.heap c).id = nid.id dirIn) : Tied (bindCtx reg (nid.ref dirIn) c) nid dirIn c := by
  have hHeap : (bindCtx reg (nid.ref dirIn) c).heap c =
      { reg.heap c with userLock := true, userRef := some (nid.ref dirIn) } :=
    update_self ..
  exact ⟨hListed, by rw [hHeap], by rw [hHeap]; exact hId⟩

theorem sameFor_setRef (reg : Registry) (ref : Nat) (v : Option Nat) :
    SameFor (· ≠ ref) reg (reg.setRef ref v) :=
  ⟨rfl, rfl, rfl, fun _ hr => update_of_ne hr _ _⟩

theorem SameFor.refl (reg : Registry) : SameFor (fun _ => True) reg reg :=
  ⟨rfl, rfl, rfl, fun _ _ => rfl⟩

theorem SameFor.trans {keep keep' : Nat → Prop} {reg'' : Registry} (h : SameFor keep reg reg')
    (h' : SameFor keep' reg' reg'') : SameFor (fun r => keep r ∧ keep' r) reg reg'' where
  heap := h'.heap.trans h.heap
  ctxList := h'.ctxList.trans h.ctxList
  allocated := h'.allocated.trans h.allocated
  refs r hr := (h'.refs r hr.2).trans (h.refs r hr.1)

theorem SameFor.mono {keep keep' : Nat → Prop} (h : SameFor keep reg reg')
    (hLe : ∀ r, keep' r → keep r) : SameFor keep' reg reg' :=
  ⟨h.heap, h.ctxList, h.allocated, fun r hr => h.refs r (hLe r hr)⟩

/-- The references of the record name contexts that were free. -/
structure SetUp (reg reg' : Registry) (nid : MacCryptRefs) : Prop where
  lockInv : LockInv reg'
  tied : ∀ dirIn, ∃ c, reg'.refs (nid.ref dirIn) = some c ∧ Tied reg' nid dirIn c
  refs : ∀ r, (∀ dirIn, r ≠ nid.ref dirIn) → reg'.refs r = reg.refs r
  keeps : ∀ {other dirIn c}, Tied reg other dirIn c → Tied reg' other dirIn c

theorem setupNode_cases (h : LockInv reg) {nid : MacCryptRefs} (hNe : nid.inRef ≠ nid.outRef) :
    (∃ reg', setupNode reg nid = (-1, reg') ∧
      SameFor (fun r => ∀ dirIn, r ≠ nid.ref dirIn) reg reg') ∨
    ∃ reg', setupNode reg nid = (0, reg') ∧ SetUp reg reg' nid := by
  have hSame : SameFor (fun r => ∀ dirIn, r ≠ nid.ref dirIn) reg
      ((reg.setRef nid.inRef none).setRef nid.outRef none) :=
    ((sameFor_setRef reg nid.inRef none).trans (sameFor_setRef _ nid.outRef none)).mono
      fun r hr => ⟨hr true, hr false⟩
  unfold setupNode
  generalize (reg.setRef nid.inRef none).setRef nid.outRef none = reg₀ at hSame ⊢
  have h₀ : LockInv reg₀ := hSame.lockInv h
  dsimp only
  rcases useCtx_cases reg₀ nid.inId nid.inRef with ⟨rc, hNeg, hUse⟩ | ⟨c, hListed, hId, hLock, hUse⟩
  · exact .inl ⟨reg₀, by simp only [hUse, hNeg, if_true], hSame⟩
  have h₁ : LockInv (bindCtx reg₀ nid.inRef c) := h₀.bindCtx _ _
  rcases useCtx_cases (bindCtx reg₀ nid.inRef c) nid.outId nid.outRef with
    ⟨rc, hNeg, hUse'⟩ | ⟨c', hListed', hId', hLock', hUse'⟩
  · -- the first reference is released again
    refine .inl ⟨unuseCtx (bindCtx reg₀ nid.inRef c) (some nid.inRef), ?_, ?_⟩
    · simp only [hUse, hUse', hNeg, if_true, Int.lt_irrefl, if_false]
    · exact (hSame.trans (unuseCtx_bindCtx h₀ hListed hLock)).mono fun r hr => ⟨hr, hr true⟩
  · refine .inr ⟨bindCtx (bindCtx reg₀ nid.inRef c) nid.outRef c', ?_, h₁.bindCtx _ _, ?_, ?_, ?_⟩
    · simp only [hUse, hUse', Int.lt_irrefl, if_false]
    · intro dirIn
      cases dirIn with
      | true =>
        exact ⟨c, (update_of_ne hNe _ _).trans (update_self ..),
          (tied_bindCtx nid true hListed hId).bindCtx h₁ hListed' hLock'⟩
      | false => exact ⟨c', update_self .., tied_bindCtx nid false hListed' hId'⟩
    · intro r hr
      exact ((update_of_ne (hr false) _ _).trans
        (update_of_ne (hr true) _ _)).trans (hSame.refs r hr)
    · intro other dirIn k hTied
      exact ((hSame.tied hTied).bindCtx h₀ hListed hLock).bindCtx h₁ hListed' hLock'

end Registry

/-! ## Registration keeps the invariant -/

def Unrecorded (st : Privnet) (ref : Nat) : Prop :=
  ∀ (mac : MacAddr) nid dirIn, privnetFindMac st mac.val = some nid → nid.ref dirIn ≠ ref

/-- What `kmalloc` gives for a record is not in use. -/
def FreshRefs (st : Privnet) (mem : Option (Nat × Nat)) : Prop :=
  ∀ inRef outRef, mem = some (inRef, outRef) →
    inRef ≠ outRef ∧ Unrecorded st inRef ∧ Unrecorded st outRef

namespace PrivnetInv

variable {st : Privnet}

variable {st' : Privnet}

theorem shrink (h : PrivnetInv st) (hReg : LockInv st'.reg)
    (hFind : ∀ (mac : MacAddr) nid, privnetFindMac st' mac.val = some nid →
      privnetFindMac st mac.val = some nid)
    (hRefs : ∀ (mac : MacAddr) nid dirIn c, privnetFindMac st' mac.val = some nid →
      st'.reg.refs (nid.ref dirIn) = some c → st.reg.refs (nid.ref dirIn) = some c)
    (hTied : ∀ (mac : MacAddr) nid dirIn c, privnetFindMac st' mac.val = some nid →
      st'.reg.refs (nid.ref dirIn) = some c → Tied st.reg nid dirIn c → Tied st'.reg nid dirIn c) :
    PrivnetInv st' where
  reg := hReg
  tied mac nid dirIn c hMac hRef :=
    hTied mac nid dirIn c hMac hRef
      (h.tied mac nid dirIn c (hFind mac nid hMac) (hRefs mac nid dirIn c hMac hRef))
  apart mac mac' nid nid' dirIn dirIn' hMac hMac' :=
    h.apart mac mac' nid nid' dirIn dirIn' (hFind mac nid hMac) (hFind mac' nid' hMac')

theorem of_same (h : PrivnetInv st) {keep : Nat → Prop}
    (hFind : ∀ mac : MacAddr, privnetFindMac st' mac.val = privnetFindMac st mac.val)
    (hSame : SameFor keep st.reg st'.reg)
    (hKeep : ∀ (mac : MacAddr) nid dirIn, privnetFindMac st mac.val = some nid →
      keep (nid.ref dirIn)) : PrivnetInv st' := by
  refine h.shrink (hSame.lockInv h.reg) (fun mac nid hMac => hFind mac ▸ hMac) ?_
    fun _ _ _ _ _ _ hTied => hSame.tied hTied
  intro mac nid dirIn c hMac hRef
  rw [hFind] at hMac
  rw [← hSame.refs _ (hKeep mac nid dirIn hMac)]
  exact hRef

theorem enter (h : PrivnetInv st) {mac : MacAddr} {nid : MacCryptRefs}
    (hFind : ∀ mac' : MacAddr, privnetFindMac st' mac'.val =
      if mac'.val = mac.val then some nid else privnetFindMac st mac'.val)
    (hNe : nid.inRef ≠ nid.outRef) (hFresh : ∀ dirIn, Unrecorded st (nid.ref dirIn))
    (hSetUp : SetUp st.reg st'.reg nid) : PrivnetInv st' := by
  have hRec : ∀ (mac' : MacAddr) nid', privnetFindMac st' mac'.val = some nid' →
      mac' = mac ∧ nid' = nid ∨ privnetFindMac st mac'.val = some nid' := by
    intro mac' nid' hMac'
    rw [hFind] at hMac'
    split at hMac'
    · rename_i hEq
      exact .inl ⟨Subtype.ext hEq, (Option.some.inj hMac').symm⟩
    · exact .inr hMac'
  have hInj : ∀ dirIn dirIn', nid.ref dirIn = nid.ref dirIn' → dirIn = dirIn' := by
    intro dirIn dirIn' hEq
    cases dirIn <;> cases dirIn'
    · rfl
    · exact absurd hEq.symm hNe
    · exact absurd hEq hNe
    · rfl
  refine ⟨hSetUp.lockInv, ?_, ?_⟩
  · intro mac' nid' dirIn c hMac' hRef
    rcases hRec mac' nid' hMac' with ⟨_, rfl⟩ | hOld
    · obtain ⟨k, hk, hTied⟩ := hSetUp.tied dirIn
      rw [hk] at hRef
      exact Option.some.inj hRef ▸ hTied
    · rw [hSetUp.refs _ fun d => hFresh d mac' nid' dirIn hOld] at hRef
      exact hSetUp.keeps (h.tied mac' nid' dirIn c hOld hRef)
  · intro mac₁ mac₂ nid₁ nid₂ dirIn dirIn' hMac₁ hMac₂ hEq
    rcases hRec mac₁ nid₁ hMac₁ with ⟨rfl, rfl⟩ | hOld₁ <;>
      rcases hRec mac₂ nid₂ hMac₂ with ⟨rfl, rfl⟩ | hOld₂
    · exact ⟨rfl, hInj _ _ hEq⟩
    · exact absurd hEq.symm (hFresh dirIn mac₂ nid₂ dirIn' hOld₂)
    · exact absurd hEq (hFresh dirIn' mac₁ nid₁ dirIn hOld₁)
    · exact h.apart mac₁ mac₂ nid₁ nid₂ dirIn dirIn' hOld₁ hOld₂ hEq

theorem addMac (h : PrivnetInv st) (mac : MacAddr) (inId outId : UInt32)
    {mem : Option (Nat × Nat)} (hMem : FreshRefs st mem) :
    PrivnetInv (privnetAddMac st mac.val inId outId mem).2 := by
  unfold privnetAddMac
  cases hFree : privnetFindMac st mac.val with
  | some nid => exact h
  | none =>
    have hTouch : ∀ mac' : MacAddr, Trie.find 6 (Trie.set 5 st.macTreeRoot mac.val none) mac'.val =
        privnetFindMac st mac'.val := fun mac' => find_touch mac.2 hFree mac'.2
    cases mem with
    | none => exact h.of_same hTouch (.refl st.reg) fun _ _ _ _ => trivial
    | some refs =>
      obtain ⟨hNe, hIn, hOut⟩ := hMem refs.1 refs.2 rfl
      let nid : MacCryptRefs := ⟨inId, refs.1, outId, refs.2⟩
      have hFresh : ∀ dirIn, Unrecorded st (nid.ref dirIn) := by
        intro dirIn
        cases dirIn
        · exact hOut
        · exact hIn
      dsimp only
      rcases setupNode_cases h.reg (show nid.inRef ≠ nid.outRef from hNe) with
        ⟨reg', hSetup, hSame⟩ | ⟨reg', hSetup, hSetUp⟩
      · rw [hSetup]
        exact h.of_same hTouch hSame fun mac' nid' dirIn hMac' d => hFresh d mac' nid' dirIn hMac'
      · rw [hSetup]
        exact h.enter (fun mac' => find_enter mac.2 hFree nid mac'.2) hNe hFresh hSetUp

theorem removeMac (h : PrivnetInv st) (mac : MacAddr) :
    PrivnetInv (privnetRemoveMac st mac.val) := by
  have hFind : ∀ mac' : MacAddr, privnetFindMac (privnetRemoveMac st mac.val) mac'.val =
      if mac'.val = mac.val then none else privnetFindMac st mac'.val :=
    fun mac' => find_privnetRemoveMac mac.2 mac'.2
  have hLeft : ∀ (mac' : MacAddr) nid', privnetFindMac (privnetRemoveMac st mac.val) mac'.val =
      some nid' → mac' ≠ mac ∧ privnetFindMac st mac'.val = some nid' := by
    intro mac' nid' hMac'
    rw [hFind] at hMac'
    split at hMac'
    · cases hMac'
    · rename_i hNe
      exact ⟨fun hEq => hNe (congrArg Subtype.val hEq), hMac'⟩
  cases hNid : privnetFindMac st mac.val with
  | none =>
    have hSame : privnetRemoveMac st mac.val = st := by simp only [privnetRemoveMac, hNid]
    rw [hSame]
    exact h
  | some nid =>
    have hReg : (privnetRemoveMac st mac.val).reg = teardownNode st.reg nid := by
      simp only [privnetRemoveMac, hNid]
    have hRefs : (teardownNode st.reg nid).refs = st.reg.refs :=
      (refs_unuseCtx _ _).trans (refs_unuseCtx _ _)
    refine h.shrink ?_ (fun mac' nid' hMac' => (hLeft mac' nid' hMac').2) ?_ ?_
    · rw [hReg]
      exact (h.reg.unuseCtx nid.inRef).unuseCtx nid.outRef
    · intro mac' nid' dirIn c _ hRef
      rwa [hReg, hRefs] at hRef
    · intro mac' nid' dirIn c hMac' hRef hTied
      obtain ⟨hNe, hOld⟩ := hLeft mac' nid' hMac'
      rw [hReg, hRefs] at hRef
      have hOther : ∀ d, st.reg.refs (nid.ref d) ≠ some c := fun d hd =>
        hNe (h.context_apart hOld hNid hRef hd).1
      rw [hReg]
      refine (hTied.unuseCtx (hOther true)).unuseCtx ?_
      rw [refs_unuseCtx]
      exact hOther false

theorem modifyCtx (h : PrivnetInv st) (c : Nat) {f : PrivCryptCtx → PrivCryptCtx}
    (hId : (f (st.reg.heap c)).id = (st.reg.heap c).id)
    (hLock : (f (st.reg.heap c)).userLock = (st.reg.heap c).userLock)
    (hRef : (f (st.reg.heap c)).userRef = (st.reg.heap c).userRef) :
    PrivnetInv { st with reg := st.reg.modifyCtx c f } := by
  have hKept : ∀ c', ((st.reg.modifyCtx c f).heap c').id = (st.reg.heap c').id ∧
      ((st.reg.modifyCtx c f).heap c').userLock = (st.reg.heap c').userLock ∧
      ((st.reg.modifyCtx c f).heap c').userRef = (st.reg.heap c').userRef := by
    intro c'
    by_cases hc : c' = c
    · subst hc
      rw [show (st.reg.modifyCtx c' f).heap c' = f (st.reg.heap c') from update_self ..]
      exact ⟨hId, hLock, hRef⟩
    · rw [show (st.reg.modifyCtx c f).heap c' = st.reg.heap c' from update_of_ne hc _ _]
      exact ⟨rfl, rfl, rfl⟩
  refine h.shrink ⟨fun c' hListed => ?_, h.reg.allocated, h.reg.nodup⟩ (fun _ _ => id)
    (fun _ _ _ _ _ => id) fun mac nid dirIn c' _ _ hTied => ⟨hTied.listed, ?_, ?_⟩
  · rw [(hKept c').2.1, (hKept c').2.2]
    exact h.reg.lock c' hListed
  · rw [(hKept c').2.2]
    exact hTied.user
  · rw [(hKept c').1]
    exact hTied.id

theorem destroy (h : PrivnetInv st) (c : Nat) :
    PrivnetInv { st with reg := destroyCtx st.reg c } := by
  have hMem : ∀ {c'}, c' ∈ (destroyCtx st.reg c).ctxList → c' ≠ c ∧ c' ∈ st.reg.ctxList := by
    intro c' hc'
    rw [ctxList_destroyCtx] at hc'
    exact h.reg.nodup.mem_erase_iff.mp hc'
  have hRefs : ∀ {r c'}, (destroyCtx st.reg c).refs r = some c' →
      (st.reg.heap c).userRef ≠ some r ∧ st.reg.refs r = some c' := by
    intro r c' hr
    rw [refs_destroyCtx] at hr
    split at hr
    · cases hr
    · exact ⟨‹_›, hr⟩
  refine h.shrink ⟨fun c' hc' => ?_, fun c' hc' => ?_, ?_⟩ (fun _ _ => id)
    (fun mac nid dirIn c' _ hRef => (hRefs hRef).2) fun mac nid dirIn c' _ hRef hTied => ?_
  · obtain ⟨hNe, hIn⟩ := hMem hc'
    rw [heap_destroyCtx hNe]
    exact h.reg.lock c' hIn
  · obtain ⟨hNe, hIn⟩ := hMem hc'
    rw [allocated_destroyCtx, update_of_ne hNe]
    exact h.reg.allocated c' hIn
  · show (destroyCtx st.reg c).ctxList.Nodup
    rw [ctxList_destroyCtx]
    exact h.reg.nodup.erase c
  · -- a reference that still names a context is not the one of `c`
    have hNe : c' ≠ c := by
      rintro rfl
      exact (hRefs hRef).1 hTied.user
    refine ⟨(mem_ctxList_destroyCtx hNe).mpr hTied.listed, ?_, ?_⟩
    · rw [heap_destroyCtx hNe]
      exact hTied.user
    · rw [heap_destroyCtx hNe]
      exact hTied.id

theorem pidDeath (h : PrivnetInv st) (pid : Nat) :
    PrivnetInv { st with reg := privPidDeathAction st.reg pid } := by
  have hStep : ∀ reg c, PrivnetInv { st with reg := reg } → c ∈ reg.ctxList →
      PrivnetInv { st with reg := destroyCtx reg c } := fun _ c h _ => h.destroy c
  exact foldl_destroyCtx_of_step hStep pid st.reg.ctxList h.reg.nodup h fun _ => id

theorem newCtx (h : PrivnetInv st) {c : Nat} (hFree : st.reg.allocated c = false)
    (keySize : Nat) (dir : Dir) (pid : Nat) :
    PrivnetInv { st with reg := doNewCtx st.reg c keySize dir pid } := by
  have hNe : ∀ {c'}, c' ∈ st.reg.ctxList → c' ≠ c := by
    rintro c' hIn rfl
    rw [h.reg.allocated c' hIn] at hFree
    cases hFree
  have hAlloc : ∀ c' ∈ st.reg.ctxList, update st.reg.allocated c true c' = true :=
    fun c' hIn => (update_of_ne (hNe hIn) _ _).trans (h.reg.allocated c' hIn)
  unfold doNewCtx makeCryptoCtx
  dsimp only
  split
  · refine h.shrink ⟨fun c' hc' => ?_, hAlloc, h.reg.nodup⟩ (fun _ _ => id) (fun _ _ _ _ _ => id)
      fun mac nid dirIn c' _ _ hTied => ⟨hTied.listed, ?_, ?_⟩
    · simpa [update_of_ne (hNe hc')] using h.reg.lock c' hc'
    · simpa [update_of_ne (hNe hTied.listed)] using hTied.user
    · simpa [update_of_ne (hNe hTied.listed)] using hTied.id
  · refine h.shrink ⟨fun c' hc' => ?_, fun c' hc' => ?_, ?_⟩ (fun _ _ => id) (fun _ _ _ _ _ => id)
      fun mac nid dirIn c' _ _ hTied => ⟨List.mem_cons_of_mem _ hTied.listed, ?_, ?_⟩
    · rcases List.mem_cons.mp hc' with rfl | hIn
      · simp [Registry.modifyCtx]
      · simpa [Registry.modifyCtx, update_of_ne (hNe hIn)] using h.reg.lock c' hIn
    · rcases List.mem_cons.mp hc' with rfl | hIn
      · exact update_self ..
      · exact hAlloc c' hIn
    · exact List.nodup_cons.mpr ⟨fun hIn => hNe hIn rfl, h.reg.nodup⟩
    · simpa [Registry.modifyCtx, update_of_ne (hNe hTied.listed)] using hTied.user
    · simpa [Registry.modifyCtx, update_of_ne (hNe hTied.listed)] using hTied.id

theorem crypt (h : PrivnetInv st) (blk : Blkcipher) (ref : Nat) (data : List UInt8) :
    PrivnetInv { st with reg := (privnetCrypt blk st.reg ref data).2 } := by
  unfold privnetCrypt
  cases st.reg.refs ref with
  | none => exact h
  | some c =>
    obtain ⟨ctr, hCtr⟩ := privCrypt_frame blk (st.reg.heap c) data
    dsimp only
    rw [hCtr]
    exact h.modifyCtx c rfl rfl rfl

end PrivnetInv

structure FreshPrivnet (st : Privnet) : Prop where
  ctxList : st.reg.ctxList = []
  macs : ∀ mac : MacAddr, privnetFindMac st mac.val = none

theorem FreshPrivnet.inv {st : Privnet} (h : FreshPrivnet st) : PrivnetInv st where
  reg := ⟨by simp [h.ctxList], by simp [h.ctxList], by simp [h.ctxList]⟩
  tied mac nid _ _ hMac := by
    rw [h.macs] at hMac
    cases hMac
  apart mac _ nid _ _ _ hMac := by
    rw [h.macs] at hMac
    cases hMac

end Lacuna.Net
