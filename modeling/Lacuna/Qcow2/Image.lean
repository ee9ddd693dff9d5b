import Lacuna.Lib.Prog
import Lacuna.Qcow2.Cache

/-!
# qcow2 — an open image and the writes to its file

The state of an open image (`BDRVQcowState`) with the history of all writes issued to
the image file, each with its buffer and how that was made.

The driver's functions are programs over this state (`Qcow2M`); one that does not
return stops and leaves the state and the history it has produced by then. This module
has the metadata caches as such programs. Without the history they are the functions
of `Qcow2.Cache` (`simulates_qcow2CacheFlush` and the others at the end).
-/

namespace Lacuna.Qcow2

open Lacuna.Lib

variable {Key : Type}

inductive NoReturn where
  | abort
  | tooDeep
  deriving DecidableEq

/-- A buffer for the image file, and how it was made. -/
inductive FileBuf (Key : Type) where
  | plain (bytes : List UInt8)
  | encryptMetadata (key : Key) (offset : UInt64) (inBuf : List UInt8) (unitSize nbUnits : Nat)
  | encryptSectors (key : Key) (sectorNum : UInt64) (inBuf : List UInt8) (nbSectors : Nat)

def FileBuf.bytes (cbc : AesCbc Key) : FileBuf Key → List UInt8
  | .plain bytes => bytes
  | .encryptMetadata key offset inBuf unitSize nbUnits =>
    qcow2EncryptMetadata cbc offset inBuf unitSize nbUnits true key
  | .encryptSectors key sectorNum inBuf nbSectors =>
    qcow2EncryptSectors cbc sectorNum inBuf nbSectors true key

structure FileWrite (Key : Type) where
  offset : UInt64
  buf : FileBuf Key
  /-- the cached table, if `qcow2_cache_entry_flush` made the write -/
  entry : Option Qcow2CachedTable

structure QCowSnapshot where
  l1TableOffset : UInt64
  l1Size : Nat
  idStr : String
  name : String
  vmStateSize : Nat
  dateSec : Nat
  dateNsec : Nat
  vmClockNsec : Nat
  deriving DecidableEq

structure QCowL2Meta where
  offset : UInt64
  clusterOffset : UInt64
  nStart : Nat
  nbAvailable : Nat
  nbClusters : Nat
  /-- the request that has to finish first -/
  dependsOn : Option Nat
  /-- the requests that wait for this one -/
  dependentRequests : List Nat
  deriving DecidableEq

/-- A guest write in progress; `qiov` is what is left of its data. -/
structure QCowAIOCB where
  sectorNum : Nat
  qiov : List UInt8
  remainingSectors : Nat
  curNrSectors : Nat
  l2meta : QCowL2Meta
  deriving DecidableEq

/-- An open image. `requests` are the guest writes in progress, and
`clusterAllocs` those of them that are on the list of running allocations. -/
structure Image (Key : Type) where
  bs : BlockDriverState Key
  clusterBits : Nat
  totalSectors : Nat
  l1Table : List UInt64
  l1TableOffset : UInt64
  refcountTable : List UInt64
  refcountTableOffset : UInt64
  freeClusterIndex : Nat
  snapshots : List QCowSnapshot
  snapshotsOffset : UInt64
  snapshotsSize : Nat
  requests : Nat → Option QCowAIOCB
  clusterAllocs : List Nat
  /-- history: the writes issued to the image file, the last one first -/
  log : List (FileWrite Key)

abbrev Qcow2M (Key : Type) := EStateM NoReturn (Image Key)

namespace Image

/-! ## The image file -/

def getBs : Qcow2M Key (BlockDriverState Key) := modifyGet fun s => (s.bs, s)

theorem run_getBs (s : Image Key) : (getBs : Qcow2M Key _) s = .ok s.bs s := rfl

def modifyBs (f : BlockDriverState Key → BlockDriverState Key) : Qcow2M Key Unit :=
  modify fun s => { s with bs := f s.bs }

/-- A function of the caches that writes nothing; `none` is an `abort()`. -/
def liftBs {α : Type} (f : BlockDriverState Key → Option (α × BlockDriverState Key)) :
    Qcow2M Key α :=
  fun s =>
    match f s.bs with
    | some (a, bs) => .ok a { s with bs := bs }
    | none => .error .abort s

def bdrvFlush : Qcow2M Key Int :=
  modifyGet fun s => ((Qcow2.bdrvFlush s.bs).1, { s with bs := (Qcow2.bdrvFlush s.bs).2 })

def bdrvPread (offset : UInt64) (len : Nat) : Qcow2M Key (Int × List UInt8) :=
  modifyGet fun s =>
    ((s.bs.io 0, readAt s.bs.file offset.toNat len), { s with bs := s.bs.ioNext })

section Write

variable (cbc : AesCbc Key)

def bdrvPwrite (offset : UInt64) (buf : FileBuf Key) (entry : Option Qcow2CachedTable) :
    Qcow2M Key Int :=
  modifyGet fun s =>
    ((Qcow2.bdrvPwrite s.bs offset (buf.bytes cbc)).1,
      { s with
        bs := (Qcow2.bdrvPwrite s.bs offset (buf.bytes cbc)).2
        log := ⟨offset, buf, entry⟩ :: s.log })

def bdrvPwriteSync (offset : UInt64) (buf : FileBuf Key) : Qcow2M Key Int := do
  let ret ← bdrvPwrite cbc offset buf none
  if ret < 0 then return ret
  let _ ← bdrvFlush
  return 0

/-! ## Writing tables back -/

def qcow2CacheFlushDependency (flush : CacheId → Qcow2M Key Int) (c : CacheId) :
    Qcow2M Key Int := do
  let b ← getBs
  match (b.cache c).depends with
  | none => throw .abort
  | some d => do
    let ret ← flush d
    if ret < 0 then return ret
    modifyBs fun bs => bs.setCache c { bs.cache c with depends := none, dependsOnFlush := false }
    return 0

def flushBefore (flush : CacheId → Qcow2M Key Int) (c : CacheId) : Qcow2M Key Int := do
  let b ← getBs
  if (b.cache c).depends.isSome then
    qcow2CacheFlushDependency flush c
  else if (b.cache c).dependsOnFlush then do
    let ret ← bdrvFlush
    if 0 ≤ ret then do
      modifyBs fun bs => bs.setCache c { bs.cache c with dependsOnFlush := false }
      return ret
    else return ret
  else return 0

def entryBuf (bs : BlockDriverState Key) (e : Qcow2CachedTable) : FileBuf Key :=
  if bs.cryptMethod = .aesPriv then
    .encryptMetadata bs.aesniCtx e.offset e.table bs.clusterSize 1
  else .plain e.table

def writeEntry (c : CacheId) (i : Nat) : Qcow2M Key Int := do
  let b ← getBs
  match (b.cache c).entries[i]? with
  | none => throw .abort
  | some e => do
    let ret ← bdrvPwrite cbc e.offset (entryBuf b e) (some e)
    if ret < 0 then return ret
    modifyBs fun bs => bs.modifyEntry c i fun e => { e with dirty := false }
    return 0

def qcow2CacheEntryFlush (flush : CacheId → Qcow2M Key Int) (c : CacheId) (i : Nat) :
    Qcow2M Key Int := do
  let b ← getBs
  match (b.cache c).entries[i]? with
  | none => throw .abort
  | some e =>
    if !e.dirty || e.offset = 0 then return 0
    else do
      let ret ← flushBefore flush c
      if ret < 0 then return ret
      writeEntry cbc c i

def flushEntries (flush : CacheId → Qcow2M Key Int) (c : CacheId) :
    List Nat → Int → Qcow2M Key Int
  | [], result => return result
  | i :: is, result => do
    let ret ← qcow2CacheEntryFlush cbc flush c i
    flushEntries flush c is (if ret < 0 ∧ result ≠ -ENOSPC then ret else result)

def qcow2CacheFlush : Nat → CacheId → Qcow2M Key Int
  | 0, _ => throw .tooDeep
  | depth + 1, c => do
    let b ← getBs
    let result ← flushEntries cbc (qcow2CacheFlush depth) c
      (List.range (b.cache c).entries.length) 0
    if result = 0 then do
      let ret ← bdrvFlush
      return (if ret < 0 then ret else result)
    else return result

/-! ## Dependencies between the caches -/

variable (depth : Nat)

def qcow2CacheSetDependency (c dependency : CacheId) : Qcow2M Key Int := do
  let b ← getBs
  let ret ←
    (if (b.cache dependency).depends.isSome then
      qcow2CacheFlushDependency (qcow2CacheFlush cbc depth) dependency
    else pure 0)
  if ret < 0 then return ret
  let b ← getBs
  let ret ←
    (if (b.cache c).depends.isSome ∧ (b.cache c).depends ≠ some dependency then
      qcow2CacheFlushDependency (qcow2CacheFlush cbc depth) c
    else pure 0)
  if ret < 0 then return ret
  modifyBs fun bs => bs.setCache c { bs.cache c with depends := some dependency }
  return 0

def qcow2CacheDependsOnFlush (c : CacheId) : Qcow2M Key Unit :=
  modifyBs fun bs => Qcow2.qcow2CacheDependsOnFlush bs c

def qcow2CacheSetWritethrough (c : CacheId) (enable : Bool) : Qcow2M Key Bool := do
  let b ← getBs
  let old := (b.cache c).writethrough
  let _ ← (if !old && enable then qcow2CacheFlush cbc depth c else pure 0)
  modifyBs fun bs => bs.setCache c { bs.cache c with writethrough := enable }
  return old

/-! ## Looking tables up -/

def qcow2CacheFindEntryToReplace (c : CacheId) : Qcow2M Key Nat :=
  liftBs fun bs =>
    (Qcow2.qcow2CacheFindEntryToReplace (bs.cache c)).map fun r => (r.1, bs.setCache c r.2)

def qcow2CacheDoGet (c : CacheId) (offset : UInt64) (readFromDisk : Bool) :
    Qcow2M Key (Int × Option Nat) := do
  let b ← getBs
  match findOffset (b.cache c) offset with
  | some i => liftBs fun bs => some ((0, some i), (doGetFound bs c i).2.2)
  | none => do
    let i ← qcow2CacheFindEntryToReplace c
    let ret ← qcow2CacheEntryFlush cbc (qcow2CacheFlush cbc depth) c i
    if ret < 0 then return (ret, none)
    modifyBs fun bs => bs.modifyEntry c i fun e => { e with offset := 0 }
    let ret ← (if readFromDisk then liftBs fun bs => doGetRead cbc bs c i offset else pure 0)
    if ret < 0 then return (ret, none)
    modifyBs fun bs => (doGetFound
      (bs.modifyEntry c i fun e => { e with cacheHits := 32, offset := offset }) c i).2.2
    return (0, some i)

def qcow2CacheGet (c : CacheId) (offset : UInt64) : Qcow2M Key (Int × Option Nat) :=
  qcow2CacheDoGet cbc depth c offset true

def qcow2CacheGetEmpty (c : CacheId) (offset : UInt64) : Qcow2M Key (Int × Option Nat) :=
  qcow2CacheDoGet cbc depth c offset false

def qcow2CachePut (c : CacheId) (i : Nat) : Qcow2M Key Int := do
  let b ← getBs
  match (b.cache c).entries[i]? with
  | none => return -ENOENT
  | some e =>
    if e.ref = 0 then throw .abort
    else do
      modifyBs fun bs => bs.modifyEntry c i fun e => { e with ref := e.ref - 1 }
      let b ← getBs
      if (b.cache c).writethrough then
        qcow2CacheEntryFlush cbc (qcow2CacheFlush cbc depth) c i
      else return 0

end Write

def qcow2CacheEntryMarkDirty (c : CacheId) (i : Nat) : Qcow2M Key Unit :=
  liftBs fun bs => (Qcow2.qcow2CacheEntryMarkDirty bs c i).map fun bs => ((), bs)

def tableAt (c : CacheId) (i : Nat) : Qcow2M Key (List UInt8) := do
  let b ← getBs
  match (b.cache c).entries[i]? with
  | some e => return e.table
  | none => throw .abort

def setTableAt (c : CacheId) (i : Nat) (table : List UInt8) : Qcow2M Key Unit :=
  modifyBs fun bs => bs.modifyEntry c i fun e => { e with table := table }

/-! ## Without the history -/

section Simulates

variable (cbc : AesCbc Key)

theorem simulates_getBs : Simulates (bs : Image Key → _) getBs fun b => some (b, b) :=
  Simulates.modifyGet fun _ => rfl

theorem simulates_modifyBs (f : BlockDriverState Key → BlockDriverState Key) :
    Simulates bs (modifyBs f) fun b => some ((), f b) :=
  Simulates.modify fun _ => rfl

theorem simulates_liftBs {α : Type} (f : BlockDriverState Key → Option (α × BlockDriverState Key)) :
    Simulates bs (liftBs f) f := by
  intro s
  unfold liftBs
  cases hf : f s.bs with
  | none => rfl
  | some r => rfl

theorem simulates_bdrvFlush :
    Simulates (bs : Image Key → _) bdrvFlush fun b => some (Qcow2.bdrvFlush b) :=
  Simulates.modifyGet fun _ => rfl

theorem simulates_bdrvPwrite (offset : UInt64) (buf : FileBuf Key)
    (entry : Option Qcow2CachedTable) :
    Simulates bs (bdrvPwrite cbc offset buf entry) fun b =>
      some (Qcow2.bdrvPwrite b offset (buf.bytes cbc)) :=
  Simulates.modifyGet fun _ => rfl

theorem bytes_entryBuf (b : BlockDriverState Key) (e : Qcow2CachedTable) :
    (entryBuf b e).bytes cbc = bufWrite cbc b e := by
  unfold entryBuf bufWrite
  split <;> rfl

variable {flush : CacheId → Qcow2M Key Int}
  {flushB : BlockDriverState Key → CacheId → Option (Int × BlockDriverState Key)}

theorem simulates_flushDependency (hFlush : ∀ d, Simulates bs (flush d) fun b => flushB b d)
    (c : CacheId) : Simulates bs (qcow2CacheFlushDependency flush c) fun b =>
      Qcow2.qcow2CacheFlushDependency flushB b c := by
  intro s
  show outcome bs ((match (s.bs.cache c).depends with
    | none => throw .abort
    | some d => _ : Qcow2M Key Int) s) = Qcow2.qcow2CacheFlushDependency flushB s.bs c
  unfold Qcow2.qcow2CacheFlushDependency
  cases (s.bs.cache c).depends with
  | none => rfl
  | some d =>
    exact Simulates.bind (hFlush d) (fun ret => Simulates.ite (Simulates.pure ret)
      (Simulates.bind (simulates_modifyBs _) fun _ => Simulates.pure 0)) s

theorem simulates_flushBefore (hFlush : ∀ d, Simulates bs (flush d) fun b => flushB b d)
    (c : CacheId) : Simulates bs (flushBefore flush c) fun b =>
      Qcow2.flushBefore flushB b c := by
  intro s
  exact Simulates.ite (simulates_flushDependency hFlush c) (Simulates.ite
      (Simulates.bind simulates_bdrvFlush fun ret => Simulates.ite
        (Simulates.bind (simulates_modifyBs _) fun _ => Simulates.pure ret) (Simulates.pure ret))
      (Simulates.pure 0)) s

theorem simulates_writeEntry (c : CacheId) (i : Nat) :
    Simulates bs (writeEntry cbc c i) fun b => Qcow2.writeEntry cbc b c i := by
  intro s
  show outcome bs ((match (s.bs.cache c).entries[i]? with
    | none => throw .abort
    | some e => _ : Qcow2M Key Int) s) = Qcow2.writeEntry cbc s.bs c i
  unfold Qcow2.writeEntry
  cases (s.bs.cache c).entries[i]? with
  | none => rfl
  | some e =>
    have hWrite := Simulates.bind (simulates_bdrvPwrite cbc e.offset (entryBuf s.bs e) (some e))
      (fun ret => Simulates.ite (c := ret < 0) (Simulates.pure ret)
        (Simulates.bind (simulates_modifyBs fun b =>
          b.modifyEntry c i fun e => { e with dirty := false }) fun _ => Simulates.pure 0)) s
    rw [bytes_entryBuf] at hWrite
    exact hWrite

theorem simulates_entryFlush (hFlush : ∀ d, Simulates bs (flush d) fun b => flushB b d)
    (c : CacheId) (i : Nat) : Simulates bs (qcow2CacheEntryFlush cbc flush c i) fun b =>
      Qcow2.qcow2CacheEntryFlush cbc flushB b c i := by
  intro s
  show outcome bs ((match (s.bs.cache c).entries[i]? with
    | none => throw .abort
    | some e => _ : Qcow2M Key Int) s) = Qcow2.qcow2CacheEntryFlush cbc flushB s.bs c i
  unfold Qcow2.qcow2CacheEntryFlush
  cases (s.bs.cache c).entries[i]? with
  | none => rfl
  | some e =>
    exact Simulates.ite (Simulates.pure 0)
      (Simulates.bind (simulates_flushBefore hFlush c) fun ret =>
        Simulates.ite (Simulates.pure ret) (simulates_writeEntry cbc c i)) s

theorem simulates_flushEntries (hFlush : ∀ d, Simulates bs (flush d) fun b => flushB b d)
    (c : CacheId) (is : List Nat) (result : Int) :
    Simulates bs (flushEntries cbc flush c is result) fun b =>
      Qcow2.flushEntries cbc flushB c is result b := by
  induction is generalizing result with
  | nil => exact Simulates.pure result
  | cons i is ih => exact Simulates.bind (simulates_entryFlush cbc hFlush c i) fun ret => ih _

theorem simulates_qcow2CacheFlush (depth : Nat) (c : CacheId) :
    Simulates bs (qcow2CacheFlush cbc depth c) fun b => Qcow2.qcow2CacheFlush cbc depth b c := by
  induction depth generalizing c with
  | zero => exact Simulates.throw _
  | succ depth ih =>
    intro s
    exact Simulates.bind (simulates_flushEntries cbc (fun d => ih d) c _ 0) (fun result =>
      Simulates.ite (Simulates.bind simulates_bdrvFlush fun ret => Simulates.pure _)
        (Simulates.pure result)) s

theorem simulates_setDependency (depth : Nat) (c d : CacheId) :
    Simulates bs (qcow2CacheSetDependency cbc depth c d) fun b =>
      Qcow2.qcow2CacheSetDependency cbc depth b c d := by
  have hDep := simulates_flushDependency (simulates_qcow2CacheFlush cbc depth)
  intro s
  exact Simulates.bind (Simulates.ite (hDep d) (Simulates.pure 0)) (fun ret =>
    Simulates.ite (Simulates.pure ret) (Simulates.bind simulates_getBs fun b =>
      Simulates.bind (Simulates.ite (hDep c) (Simulates.pure 0)) (fun ret =>
        Simulates.ite (Simulates.pure ret)
          (Simulates.bind (simulates_modifyBs _) fun _ => Simulates.pure 0)))) s

theorem simulates_setWritethrough (depth : Nat) (c : CacheId) (enable : Bool) :
    Simulates bs (qcow2CacheSetWritethrough cbc depth c enable) fun b =>
      Qcow2.qcow2CacheSetWritethrough cbc depth b c enable := by
  intro s
  exact Simulates.bind (Simulates.ite (simulates_qcow2CacheFlush cbc depth c) (Simulates.pure 0))
    (fun _ => Simulates.bind (simulates_modifyBs _) fun _ => Simulates.pure _) s

/-- The pure functions give the return code and the table one after the
other. -/
def pairCode {α : Type} (r : Option (Int × Option Nat × α)) : Option ((Int × Option Nat) × α) :=
  r.map fun r => ((r.1, r.2.1), r.2.2)

theorem simulates_doGet (depth : Nat) (c : CacheId) (offset : UInt64) (readFromDisk : Bool) :
    Simulates bs (qcow2CacheDoGet cbc depth c offset readFromDisk) fun b =>
      pairCode (Qcow2.qcow2CacheDoGet cbc depth b c offset readFromDisk) := by
  intro s
  show outcome bs ((match findOffset (s.bs.cache c) offset with
    | some i => liftBs fun bs => some ((0, some i), (doGetFound bs c i).2.2)
    | none => _ : Qcow2M Key (Int × Option Nat)) s) =
      pairCode (Qcow2.qcow2CacheDoGet cbc depth s.bs c offset readFromDisk)
  unfold Qcow2.qcow2CacheDoGet
  cases findOffset (s.bs.cache c) offset with
  | some i => rfl
  | none =>
    have hRun := Simulates.bind (simulates_liftBs fun b : BlockDriverState Key =>
        (Qcow2.qcow2CacheFindEntryToReplace (b.cache c)).map fun r => (r.1, b.setCache c r.2))
      (fun i => Simulates.bind
        (simulates_entryFlush cbc (simulates_qcow2CacheFlush cbc depth) c i) fun ret =>
          Simulates.ite (c := ret < 0) (Simulates.pure (ret, none))
            (Simulates.bind (simulates_modifyBs fun b =>
                b.modifyEntry c i fun e => { e with offset := 0 }) fun _ =>
              Simulates.bind (Simulates.ite (c := readFromDisk = true)
                  (simulates_liftBs fun b => doGetRead cbc b c i offset) (Simulates.pure 0))
                fun ret => Simulates.ite (c := ret < 0) (Simulates.pure (ret, none))
                  (Simulates.bind (simulates_modifyBs fun b => (doGetFound
                    (b.modifyEntry c i fun e => { e with cacheHits := 32, offset := offset })
                      c i).2.2) fun _ => Simulates.pure (0, some i)))) s
    refine hRun.trans ?_
    simp only [pairCode, Option.bind_eq_bind, Option.map_bind, Option.bind_map, Function.comp_def,
      Option.bind_some, Option.pure_def, apply_ite (Option.map _), Option.map_some, doGetFound]

theorem simulates_put (depth : Nat) (c : CacheId) (i : Nat) :
    Simulates bs (qcow2CachePut cbc depth c i) fun b => Qcow2.qcow2CachePut cbc depth b c i := by
  intro s
  show outcome bs ((match (s.bs.cache c).entries[i]? with
    | none => pure (-ENOENT)
    | some e => _ : Qcow2M Key Int) s) = Qcow2.qcow2CachePut cbc depth s.bs c i
  unfold Qcow2.qcow2CachePut
  cases (s.bs.cache c).entries[i]? with
  | none => rfl
  | some e =>
    exact Simulates.ite (Simulates.throw _)
      (Simulates.bind (simulates_modifyBs _) fun _ => Simulates.bind simulates_getBs fun b =>
        Simulates.ite (simulates_entryFlush cbc (simulates_qcow2CacheFlush cbc depth) c i)
          (Simulates.pure 0)) s

end Simulates

end Image

end Lacuna.Qcow2
