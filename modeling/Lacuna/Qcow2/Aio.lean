import Mathlib.Logic.Function.Basic
import Lacuna.Qcow2.Cluster

/-!
# qcow2 — guest writes

`qcow2_aio_writev` and its callback. A guest write is carried out in parts; a
part allocates clusters (`qcow2_alloc_cluster_offset`), writes the data, and,
once that is done, enters the clusters into the L2 table
(`qcow2_alloc_cluster_link_l2`). Between its parts other requests run. A
request that would allocate the same clusters as one in flight waits for it and
is restarted by it (`run_dependent_requests`).
-/

namespace Lacuna.Qcow2

open Lacuna.Lib Function

variable {Key : Type}

def QCOW_MAX_CRYPT_CLUSTERS : Nat := 32

namespace Image

/-! ## Requests -/

def request (id : Nat) : Qcow2M Key QCowAIOCB := do
  let s ← get
  match s.requests id with
  | some acb => return acb
  | none => throw .abort

def setRequest (id : Nat) (acb : QCowAIOCB) : Qcow2M Key Unit :=
  modify fun s => { s with requests := update s.requests id (some acb) }

/-- `qemu_aio_release`, after the guest has been told. -/
def releaseRequest (id : Nat) : Qcow2M Key Unit :=
  modify fun s => { s with requests := update s.requests id none }

def insertAlloc (id : Nat) : Qcow2M Key Unit :=
  modify fun s => { s with clusterAllocs := id :: s.clusterAllocs }

def removeAlloc (id : Nat) : Qcow2M Key Unit :=
  modify fun s => { s with clusterAllocs := s.clusterAllocs.erase id }

section Program

variable (cbc : AesCbc Key) (depth : Nat)

/-! ## Allocating clusters for a part -/

def availableClusters (clusterSize nbClusters : Nat) (l2 : Nat → UInt64) : Nat → Nat → Nat
  | 0, i => i
  | fuel + 1, i =>
    if nbClusters ≤ i then i
    else
      let i := i + countContiguousClusters (nbClusters - i) clusterSize l2 i 0
      if nbClusters ≤ i ∨ l2 i ≠ 0 then i
      else
        let i := i + countContiguousFreeClusters (nbClusters - i) (fun k => l2 (i + k))
        if nbClusters ≤ i ∨ l2 i &&& QCOW_OFLAG_COPIED ≠ 0 ∨ l2 i &&& QCOW_OFLAG_COMPRESSED ≠ 0
        then i
        else availableClusters clusterSize nbClusters l2 fuel i

/-- The loop over the allocations in flight: the clusters that can be allocated
now, or the request to wait for. -/
def checkInFlight (s : Image Key) (offset : UInt64) : List Nat → Nat → Except Nat Nat
  | [], nbClusters => .ok nbClusters
  | old :: olds, nbClusters =>
    match s.requests old with
    | none => checkInFlight s offset olds nbClusters
    | some acb =>
      let oldOffset := acb.l2meta.offset
      if offset + UInt64.ofNat (nbClusters * s.clusterSize) < oldOffset ∨
          oldOffset + UInt64.ofNat (acb.l2meta.nbClusters * s.clusterSize) < offset then
        checkInFlight s offset olds nbClusters
      else
        let n := if offset < oldOffset then (oldOffset - offset).toNat >>> s.clusterBits else 0
        if n = 0 then .error old else checkInFlight s offset olds n

def allocOut (id table : Nat) (clusterOffset : UInt64) (nbClusters nStart nEnd : Nat) :
    Qcow2M Key Int := do
  let ret ← qcow2CachePut cbc depth .l2TableCache table
  if ret < 0 then do
    removeAlloc id
    return ret
  else do
    let s ← get
    let acb ← request id
    let nbAvailable := min (nbClusters <<< (s.clusterBits - 9)) nEnd
    setRequest id
      { acb with
        curNrSectors := nbAvailable - nStart
        l2meta := { acb.l2meta with nbAvailable := nbAvailable, clusterOffset := clusterOffset } }
    return 0

def allocInFlight (id table : Nat) (offset : UInt64) (nbClusters nStart nEnd : Nat) :
    Qcow2M Key Int := do
  let s ← get
  let acb ← request id
  match s.checkInFlight offset s.clusterAllocs nbClusters with
  | .error old => do
    setRequest id
      { acb with
        curNrSectors := 0
        l2meta := { acb.l2meta with dependsOn := some old, nbClusters := 0 } }
    qcow2CachePut cbc depth .l2TableCache table
  | .ok nbClusters =>
    if nbClusters = 0 then throw .abort
    else do
      insertAlloc id
      match ← qcow2AllocClusters cbc depth (nbClusters * s.clusterSize) with
      | .error ret => do
        let _ ← qcow2CachePut cbc depth .l2TableCache table
        removeAlloc id
        return ret
      | .ok clusterOffset => do
        setRequest id
          { acb with
            l2meta :=
              { acb.l2meta with offset := offset, nStart := nStart, nbClusters := nbClusters } }
        allocOut cbc depth id table clusterOffset nbClusters nStart nEnd

def qcow2AllocClusterOffset (id : Nat) (offset : UInt64) (nStart nEnd : Nat) :
    Qcow2M Key Int := do
  match ← getClusterTable cbc depth offset with
  | .error ret => return ret
  | .ok table => do
    let s ← get
    let acb ← request id
    let l2Table ← tableAt .l2TableCache table
    let l2 := fun i => be64At l2Table (s.l2Index offset + i)
    let nbClusters := min (s.sizeToClusters (nEnd * 512)) (s.l2Size - s.l2Index offset)
    if l2 0 &&& QCOW_OFLAG_COPIED ≠ 0 then do
      setRequest id { acb with l2meta := { acb.l2meta with nbClusters := 0, dependsOn := none } }
      allocOut cbc depth id table (l2 0 &&& ~~~QCOW_OFLAG_COPIED)
        (countContiguousClusters nbClusters s.clusterSize l2 0 0) nStart nEnd
    else
      let nbClusters := if l2 0 &&& QCOW_OFLAG_COMPRESSED ≠ 0 then 1 else nbClusters
      allocInFlight cbc depth id table offset
        (availableClusters s.clusterSize nbClusters l2 (nbClusters + 1) 0) nStart nEnd

/-! ## The parts of a request -/

def aioSubmit (id : Nat) : Qcow2M Key Unit := do
  let s ← get
  let acb ← request id
  let clusterOffset := acb.l2meta.clusterOffset
  if clusterOffset.toNat % 512 ≠ 0 then throw .abort
  else if s.bs.cryptMethod ≠ .none ∧
      QCOW_MAX_CRYPT_CLUSTERS * s.clusterSize < acb.curNrSectors * 512 then throw .abort
  else do
    let ret ← bdrvPwrite cbc
      (UInt64.ofNat ((clusterOffset.toNat / 512 + acb.sectorNum % s.clusterSectors) * 512))
      (s.sectorsBuf acb.sectorNum (acb.qiov.take (acb.curNrSectors * 512)) acb.curNrSectors) none
    if ret < 0 then do
      let _ ← (if acb.l2meta.nbClusters ≠ 0 then removeAlloc id else pure ())
      releaseRequest id
    else return ()

def aioNextPart (id : Nat) : Qcow2M Key Unit := do
  let s ← get
  let acb ← request id
  let acb :=
    { acb with
      remainingSectors := acb.remainingSectors - acb.curNrSectors
      sectorNum := acb.sectorNum + acb.curNrSectors
      qiov := acb.qiov.drop (acb.curNrSectors * 512) }
  setRequest id acb
  if acb.remainingSectors = 0 then releaseRequest id
  else do
    let indexInCluster := acb.sectorNum % s.clusterSectors
    let nEnd := indexInCluster + acb.remainingSectors
    let ret ← qcow2AllocClusterOffset cbc depth id (UInt64.ofNat (acb.sectorNum * 512))
      indexInCluster
      (if s.bs.cryptMethod ≠ .none then min nEnd (QCOW_MAX_CRYPT_CLUSTERS * s.clusterSectors)
      else nEnd)
    if ret < 0 then releaseRequest id
    else do
      let acb ← request id
      match (if acb.l2meta.nbClusters = 0 then acb.l2meta.dependsOn else none) with
      | some old => do
        -- waits for another request
        let oldAcb ← request old
        setRequest old
          { oldAcb with
            l2meta :=
              { oldAcb.l2meta with
                dependentRequests := id :: oldAcb.l2meta.dependentRequests } }
      | none => aioSubmit cbc id

def restartAll (callback : Nat → Int → Qcow2M Key Unit) : List Nat → Qcow2M Key Unit
  | [] => return ()
  | id :: ids => do
    callback id 0
    restartAll callback ids

def runDependentRequests (callback : Nat → Int → Qcow2M Key Unit) (id : Nat) :
    Qcow2M Key Unit := do
  let acb ← request id
  let _ ← (if acb.l2meta.nbClusters ≠ 0 then removeAlloc id else pure ())
  restartAll callback acb.l2meta.dependentRequests
  let acb ← request id
  setRequest id { acb with l2meta := { acb.l2meta with dependentRequests := [] } }

def qcow2AioWriteCb (env : Env) : Nat → Nat → Int → Qcow2M Key Unit
  | 0, _, _ => throw .tooDeep
  | fuel + 1, id, ret => do
    let acb ← request id
    let ret ← (if 0 ≤ ret then qcow2AllocClusterLinkL2 cbc depth env acb.l2meta else pure ret)
    runDependentRequests (qcow2AioWriteCb env fuel) id
    if ret < 0 then releaseRequest id else aioNextPart cbc depth id

def qcow2AioWritev (id sectorNum : Nat) (qiov : List UInt8) (nbSectors : Nat) :
    Qcow2M Key Unit :=
  setRequest id
    { sectorNum := sectorNum
      qiov := qiov
      remainingSectors := nbSectors
      curNrSectors := 0
      l2meta :=
        { offset := 0, clusterOffset := 0, nStart := 0, nbAvailable := 0, nbClusters := 0,
          dependsOn := none, dependentRequests := [] } }

end Program

/-! ## Requests within reach -/

section Keeps

variable {set : Settings Key} {W : FileWrite Key → Prop}

/-- Either plaintext is allowed anyway, or the request stays within the L1
table. -/
abbrev ReachOk (set : Settings Key) (W : FileWrite Key → Prop) (acb : QCowAIOCB) : Prop :=
  AllowsPlain W ∨ InReach set acb

theorem keeps_request_bind {β : Type} {id : Nat} {f : QCowAIOCB → Qcow2M Key β}
    (hf : ∀ acb, ReachOk set W acb → Keeps (Session set W) (f acb)) :
    Keeps (Session set W) (request id >>= f) := by
  refine .bind_of ?_ fun s acb t hs hRun => ?_
  · refine .get_bind fun s _ => ?_
    cases s.requests id with
    | none => exact .throw _
    | some acb => exact .pure acb
  · have hReq : s.requests id = some acb ∧ t = s := by
      change (match s.requests id with
        | some acb => pure acb
        | none => throw .abort : Qcow2M Key QCowAIOCB) s = .ok acb t at hRun
      cases hId : s.requests id with
      | none => rw [hId] at hRun; cases hRun
      | some acb' => rw [hId] at hRun; cases hRun; exact ⟨rfl, rfl⟩
    exact hf acb (hs.requests.imp_right fun h => h id acb hReq.1) t (hReq.2 ▸ hs)

theorem keeps_setRequest {id : Nat} {acb : QCowAIOCB} (hReach : ReachOk set W acb) :
    Keeps (Session set W) (setRequest id acb) := by
  refine .modify fun s h => { h with requests := ?_ }
  rcases hReach with hPlain | hReach
  · exact .inl hPlain
  · refine h.requests.imp_right fun hReq id' acb' hId => ?_
    by_cases hEq : id' = id
    · subst hEq
      have hSelf := (update_self id' (some acb) s.requests).symm.trans hId
      cases hSelf
      exact hReach
    · exact hReq id' acb' ((update_of_ne hEq (some acb) s.requests).symm.trans hId)

theorem keeps_releaseRequest (id : Nat) : Keeps (Session set W) (releaseRequest id) := by
  refine .modify fun s h => { h with requests := h.requests.imp_right ?_ }
  intro hReq id' acb' hId
  by_cases hEq : id' = id
  · subst hEq
    have hSelf := (update_self id' none s.requests).symm.trans hId
    cases hSelf
  · exact hReq id' acb' ((update_of_ne hEq none s.requests).symm.trans hId)

theorem keeps_insertAlloc (id : Nat) : Keeps (Session set W) (insertAlloc id) :=
  .modify fun _ h => h.congr rfl rfl rfl rfl rfl

theorem keeps_removeAlloc (id : Nat) : Keeps (Session set W) (removeAlloc id) :=
  .modify fun _ h => h.congr rfl rfl rfl rfl rfl

/-! ## The invariant of a session -/

variable (hW : WriteRules set W) (cbc : AesCbc Key) (depth : Nat)

include hW

theorem keeps_allocOut (id table : Nat) (clusterOffset : UInt64) (nbClusters nStart nEnd : Nat) :
    Keeps (Session set W) (allocOut cbc depth id table clusterOffset nbClusters nStart nEnd) := by
  refine .bind (keeps_put hW cbc depth _ table) fun ret => .ite
    (fun _ => .bind (keeps_removeAlloc id) fun _ => .pure ret) fun _ => ?_
  refine .get_bind fun s _ => keeps_request_bind fun acb hAcb => ?_
  refine .bind (keeps_setRequest (hAcb.imp_right fun h => ?_)) fun _ => .pure 0
  exact h.of_l2meta rfl rfl h.l2meta

theorem keeps_allocInFlight (id table : Nat) {offset : UInt64}
    (hReach : AllowsPlain W ∨ set.Reaches offset) (nbClusters nStart nEnd : Nat) :
    Keeps (Session set W) (allocInFlight cbc depth id table offset nbClusters nStart nEnd) := by
  refine .get_bind fun s _ => keeps_request_bind fun acb hAcb => ?_
  cases s.checkInFlight offset s.clusterAllocs nbClusters with
  | error old =>
    refine .bind (keeps_setRequest (hAcb.imp_right fun h => ?_)) fun _ =>
      keeps_put hW cbc depth _ table
    exact h.of_l2meta rfl rfl fun hNb => absurd rfl hNb
  | ok nbClusters =>
    refine .ite (fun _ => .throw _) fun _ => ?_
    refine .bind (keeps_insertAlloc id) fun _ => ?_
    refine .bind (keeps_allocClusters hW cbc depth _) ?_
    rintro (ret | clusterOffset)
    · exact .bind (keeps_put hW cbc depth _ table) fun _ =>
        .bind (keeps_removeAlloc id) fun _ => .pure ret
    · refine .bind (keeps_setRequest ?_) fun _ => keeps_allocOut hW cbc depth id table _ _ _ _
      rcases hReach with hPlain | hOff
      · exact .inl hPlain
      · exact hAcb.imp_right fun h => h.of_l2meta rfl rfl fun _ => hOff

theorem keeps_allocClusterOffset (id : Nat) {offset : UInt64}
    (hReach : AllowsPlain W ∨ set.Reaches offset) (nStart nEnd : Nat) :
    Keeps (Session set W) (qcow2AllocClusterOffset cbc depth id offset nStart nEnd) := by
  refine .bind (keeps_getClusterTable hW cbc depth hReach) ?_
  rintro (ret | table)
  · exact .pure _
  refine .get_bind fun s _ => keeps_request_bind fun acb hAcb => ?_
  refine .bind (keeps_tableAt _ table) fun l2Table => .ite (fun _ => ?_) fun _ => ?_
  · refine .bind (keeps_setRequest (hAcb.imp_right fun h => ?_)) fun _ =>
      keeps_allocOut hW cbc depth id table _ _ _ _
    exact h.of_l2meta rfl rfl fun hNb => absurd rfl hNb
  · exact keeps_allocInFlight hW cbc depth id table hReach _ _ _

theorem keeps_aioSubmit (id : Nat) : Keeps (Session set W) (aioSubmit cbc id) := by
  refine .get_bind fun s hs => keeps_request_bind fun acb _ => ?_
  refine .ite (fun _ => .throw _) fun _ => .ite (fun _ => .throw _) fun _ => ?_
  refine .bind (keeps_writeSectors hW cbc hs _ _ _ _) fun _ => .ite (fun _ => ?_) fun _ => .pure ()
  exact .bind (.ite (fun _ => keeps_removeAlloc id) fun _ => .pure ()) fun _ =>
    keeps_releaseRequest id

theorem keeps_aioNextPart (id : Nat) : Keeps (Session set W) (aioNextPart cbc depth id) := by
  refine .get_bind fun s _ => keeps_request_bind fun acb hAcb => ?_
  have hNext := hAcb.imp_right fun h => h.advance (acb.qiov.drop (acb.curNrSectors * 512))
  refine .bind (keeps_setRequest hNext) fun _ =>
    .ite (fun _ => keeps_releaseRequest id) fun hLeft => ?_
  have hReach := hNext.imp_right fun h =>
    h.sectors _ (Nat.le_refl _) (Nat.lt_add_of_pos_right (Nat.pos_of_ne_zero hLeft))
  refine .bind (keeps_allocClusterOffset hW cbc depth id hReach _ _) fun _ =>
    .ite (fun _ => keeps_releaseRequest id) fun _ => keeps_request_bind fun acb _ => ?_
  cases (if acb.l2meta.nbClusters = 0 then acb.l2meta.dependsOn else none) with
  | none => exact keeps_aioSubmit hW cbc id
  | some old =>
    refine keeps_request_bind fun oldAcb hOld => keeps_setRequest (hOld.imp_right fun h => ?_)
    exact h.of_l2meta rfl rfl h.l2meta

omit hW in
theorem keeps_runDependentRequests {callback : Nat → Int → Qcow2M Key Unit}
    (hCallback : ∀ id ret, Keeps (Session set W) (callback id ret)) (id : Nat) :
    Keeps (Session set W) (runDependentRequests callback id) := by
  have hRestart : ∀ ids, Keeps (Session set W) (restartAll callback ids) := by
    intro ids
    induction ids with
    | nil => exact .pure ()
    | cons id ids ih => exact .bind (hCallback id 0) fun _ => ih
  refine keeps_request_bind fun acb _ => ?_
  refine .bind (.ite (fun _ => keeps_removeAlloc id) fun _ => .pure ()) fun _ => ?_
  refine .bind (hRestart _) fun _ => keeps_request_bind fun acb hAcb => ?_
  exact keeps_setRequest (hAcb.imp_right fun h => h.of_l2meta rfl rfl h.l2meta)

theorem keeps_aioWriteCb (env : Env) (fuel id : Nat) (ret : Int) :
    Keeps (Session set W) (qcow2AioWriteCb cbc depth env fuel id ret) := by
  induction fuel generalizing id ret with
  | zero => exact .throw _
  | succ fuel ih =>
    refine keeps_request_bind fun acb hAcb => ?_
    have hLink := keeps_linkL2 hW cbc depth env (hAcb.imp_right fun h => h.l2meta)
    refine .bind (.ite (fun _ => hLink) fun _ => .pure ret) fun _ => ?_
    refine .bind (keeps_runDependentRequests ih id) fun _ => ?_
    exact .ite (fun _ => keeps_releaseRequest id) fun _ => keeps_aioNextPart hW cbc depth id

omit hW in
theorem keeps_aioWritev (id : Nat) {sectorNum nbSectors : Nat} (qiov : List UInt8)
    (hReach : AllowsPlain W ∨ ∀ sector, sectorNum ≤ sector → sector < sectorNum + nbSectors →
      set.Reaches (UInt64.ofNat (sector * 512))) :
    Keeps (Session set W) (qcow2AioWritev id sectorNum qiov nbSectors) :=
  keeps_setRequest (hReach.imp_right fun h => ⟨h, fun hNb => absurd rfl hNb⟩)

end Keeps

end Image

end Lacuna.Qcow2
