import Lacuna.Qcow2.Cluster

/-!
# qcow2 — snapshots, resizing, and the header

`qcow2-snapshot.c` with `qcow2_update_snapshot_refcount`, and the two functions
of `qcow2.c` that write the header after the image has been opened
(`qcow2_truncate`, `qcow2_update_ext_header`). In private-diff mode the header is left
alone, but the L1 tables and the snapshot table are written, and in plaintext.
-/

namespace Lacuna.Qcow2

open Lacuna.Lib

variable {Key : Type}

def ENOTSUP : Int := 95

/-- `cpu_to_be64`, `be64_to_cpu`: the value with its bytes swapped. -/
def bswap64 (x : UInt64) : UInt64 := UInt64.ofNat (ofBeBytes (le64 x))

def rawBytes (table : List UInt64) : List UInt8 := table.flatMap le64

namespace Image

section Program

variable (cbc : AesCbc Key) (depth : Nat)

/-! ## Reference counts of a snapshot -/

/-- The count of a cluster, after `addend` has been added to it. -/
def snapshotRefcount (clusterIndex : Nat) (addend : Int) : Qcow2M Key (Except Int Int) := do
  let refcount ← (if addend ≠ 0 then updateClusterRefcount cbc depth clusterIndex addend
    else getRefcount cbc depth clusterIndex)
  if refcount < 0 then return .error (- EIO)
  return .ok refcount

/-- The count of the cluster of an L2 entry. For a compressed cluster the code
that failed is kept in a variable of its own, so the error is 0. -/
def entryRefcount (offset : UInt64) (addend : Int) : Qcow2M Key (Except Int Int) := do
  let s ← get
  if offset &&& QCOW_OFLAG_COMPRESSED ≠ 0 then
    if addend ≠ 0 then do
      let ret ← updateRefcount cbc depth depth (s.compressedOffset offset)
        (s.nbCsectors offset * 512) addend
      if ret < 0 then return .error 0
      let _ ← bdrvFlush
      return .ok 2
    else return .ok 2
  else snapshotRefcount cbc depth (offset.toNat >>> s.clusterBits) addend

def withCopied (offset : UInt64) (refcount : Int) : UInt64 :=
  if refcount = 1 then offset ||| QCOW_OFLAG_COPIED else offset

def snapshotEntry (addend : Int) (table j : Nat) : Qcow2M Key (Except Int Unit) := do
  let l2Table ← tableAt .l2TableCache table
  let oldOffset := be64At l2Table j
  if oldOffset = 0 then return .ok ()
  match ← entryRefcount cbc depth (oldOffset &&& ~~~QCOW_OFLAG_COPIED) addend with
  | .error ret => return .error ret
  | .ok refcount =>
    let offset := withCopied (oldOffset &&& ~~~QCOW_OFLAG_COPIED) refcount
    if offset = oldOffset then return .ok ()
    else do
      let _ ← (if 0 < addend then
        qcow2CacheSetDependency cbc depth .l2TableCache .refcountBlockCache else pure 0)
      setTableAt .l2TableCache table (setBe64 l2Table j offset)
      qcow2CacheEntryMarkDirty .l2TableCache table
      return .ok ()

def snapshotEntries (addend : Int) (table : Nat) : List Nat → Qcow2M Key (Except Int Unit)
  | [] => return .ok ()
  | j :: js => do
    match ← snapshotEntry cbc depth addend table j with
    | .error ret => return .error ret
    | .ok () => snapshotEntries addend table js

def snapshotL2 (addend : Int) (oldL2Offset : UInt64) : Qcow2M Key (Except Int UInt64) := do
  let s ← get
  let l2Offset := oldL2Offset &&& ~~~QCOW_OFLAG_COPIED
  match ← qcow2CacheGet cbc depth .l2TableCache l2Offset with
  | (ret, none) => return .error ret
  | (_, some table) =>
    match ← snapshotEntries cbc depth addend table (List.range s.l2Size) with
    | .error ret => do
      let _ ← qcow2CachePut cbc depth .l2TableCache table
      return .error ret
    | .ok () => do
      let ret ← qcow2CachePut cbc depth .l2TableCache table
      if ret < 0 then return .error ret
      match ← snapshotRefcount cbc depth (l2Offset.toNat >>> s.clusterBits) addend with
      | .error ret => return .error ret
      | .ok refcount => return .ok (withCopied l2Offset refcount)

/-- The L1 table at hand changes; it may be that of the image. -/
def setL1 (active : Bool) (l1Table : List UInt64) : Qcow2M Key Unit :=
  if active then modify fun s => { s with l1Table := l1Table } else return ()

/-- The loop over the L1 table: the table, and whether it was modified. -/
def snapshotL1 (addend : Int) (active : Bool) :
    List Nat → List UInt64 → Bool → Qcow2M Key (Int × List UInt64 × Bool)
  | [], l1Table, l1Modified => return (0, l1Table, l1Modified)
  | i :: is, l1Table, l1Modified =>
    let oldL2Offset := l1Table.getD i 0
    if oldL2Offset = 0 then snapshotL1 addend active is l1Table l1Modified
    else do
      match ← snapshotL2 cbc depth addend oldL2Offset with
      | .error ret => return (ret, l1Table, l1Modified)
      | .ok l2Offset =>
        if l2Offset = oldL2Offset then snapshotL1 addend active is l1Table l1Modified
        else do
          setL1 active (l1Table.set i l2Offset)
          snapshotL1 addend active is (l1Table.set i l2Offset) true

def restoreWritethrough (oldL2 oldRefcount : Bool) : Qcow2M Key Unit := do
  let _ ← qcow2CacheSetWritethrough cbc depth .l2TableCache oldL2
  let _ ← qcow2CacheSetWritethrough cbc depth .refcountBlockCache oldRefcount
  return ()

/-- `fail` of `qcow2_update_snapshot_refcount`. A write that fails goes back to `fail`, with the
table in the other byte order. -/
def writeBackL1 (oldL2 oldRefcount active : Bool) (l1TableOffset : UInt64) :
    Nat → List UInt64 → Qcow2M Key Unit
  | 0, _ => throw .tooDeep
  | fuel + 1, l1Table => do
    restoreWritethrough cbc depth oldL2 oldRefcount
    setL1 active (l1Table.map bswap64)
    let ret ← bdrvPwriteSync cbc l1TableOffset (.plain (rawBytes (l1Table.map bswap64)))
    if ret < 0 then
      writeBackL1 oldL2 oldRefcount active l1TableOffset fuel (l1Table.map bswap64)
    else setL1 active ((l1Table.map bswap64).map bswap64)

def snapshotTable (addend : Int) (oldL2 oldRefcount active : Bool) (l1TableOffset : UInt64)
    (l1Table : List UInt64) : Qcow2M Key Int := do
  let r ← snapshotL1 cbc depth addend active (List.range l1Table.length) l1Table false
  let _ ← (if r.2.2 then writeBackL1 cbc depth oldL2 oldRefcount active l1TableOffset depth r.2.1
    else restoreWritethrough cbc depth oldL2 oldRefcount)
  return r.1

def qcow2UpdateSnapshotRefcount (l1TableOffset : UInt64) (l1Size : Nat) (addend : Int) :
    Qcow2M Key Int := do
  let oldL2 ← qcow2CacheSetWritethrough cbc depth .l2TableCache false
  let oldRefcount ← qcow2CacheSetWritethrough cbc depth .refcountBlockCache false
  let s ← get
  if l1TableOffset ≠ s.l1TableOffset then do
    let (ret, buf) ← bdrvPread l1TableOffset (l1Size * 8)
    if ret < 0 then do
      restoreWritethrough cbc depth oldL2 oldRefcount
      return - EIO
    else snapshotTable cbc depth addend oldL2 oldRefcount false l1TableOffset (be64sTo buf l1Size)
  else if l1Size ≠ s.l1Table.length then throw .abort
  else snapshotTable cbc depth addend oldL2 oldRefcount true l1TableOffset s.l1Table

/-! ## The snapshot table -/

def strBytes (s : String) : List UInt8 := s.toUTF8.toList

def snapshotHeader (sn : QCowSnapshot) : List UInt8 :=
  beBytes 8 sn.l1TableOffset.toNat ++ beBytes 4 sn.l1Size ++
    beBytes 2 (strBytes sn.idStr).length ++ beBytes 2 (strBytes sn.name).length ++
    beBytes 4 sn.dateSec ++ beBytes 4 sn.dateNsec ++ beBytes 8 sn.vmClockNsec ++
    beBytes 4 sn.vmStateSize ++ beBytes 4 0

/-- The end of the record of a snapshot that follows `offset`. -/
def snapshotEnd (offset : Nat) (sn : QCowSnapshot) : Nat :=
  (offset + 7) / 8 * 8 + 40 + (strBytes sn.idStr).length + (strBytes sn.name).length

def writeSnapshotRecords : Nat → List QCowSnapshot → Qcow2M Key Int
  | _, [] => return 0
  | offset, sn :: sns => do
    let start := (offset + 7) / 8 * 8
    let ret ← bdrvPwriteSync cbc (UInt64.ofNat start) (.plain (snapshotHeader sn))
    if ret < 0 then return -1
    let ret ← bdrvPwriteSync cbc (UInt64.ofNat (start + 40)) (.plain (strBytes sn.idStr))
    if ret < 0 then return -1
    let ret ← bdrvPwriteSync cbc (UInt64.ofNat (start + 40 + (strBytes sn.idStr).length))
      (.plain (strBytes sn.name))
    if ret < 0 then return -1
    writeSnapshotRecords (snapshotEnd offset sn) sns

def writeSnapshotFields (snapshotsOffset : UInt64) : Qcow2M Key Int := do
  let s ← get
  if !s.bs.privDiff then do
    let ret ← bdrvPwriteSync cbc 64 (.plain (beBytes 8 snapshotsOffset.toNat))
    if ret < 0 then return -1
    let ret ← bdrvPwriteSync cbc 60 (.plain (beBytes 4 s.snapshots.length))
    if ret < 0 then return -1
    return 0
  else return 0

def qcow2WriteSnapshots : Qcow2M Key Int := do
  let s ← get
  let snapshotsSize := s.snapshots.foldl snapshotEnd 0
  let r ← qcow2AllocClusters cbc depth snapshotsSize
  let _ ← bdrvFlush
  match r with
  | .error ret => return ret
  | .ok snapshotsOffset => do
    let ret ← writeSnapshotRecords cbc snapshotsOffset.toNat s.snapshots
    if ret < 0 then return -1
    let ret ← writeSnapshotFields cbc snapshotsOffset
    if ret < 0 then return -1
    qcow2FreeClusters cbc depth s.snapshotsOffset s.snapshotsSize
    modify fun s =>
      { s with snapshotsOffset := snapshotsOffset, snapshotsSize := snapshotsSize }
    return 0

/-! ## Snapshots -/

def findSnapshotById (s : Image Key) (idStr : String) : Option Nat :=
  s.snapshots.findIdx? (·.idStr = idStr)

def findSnapshotByIdOrName (s : Image Key) (name : String) : Option Nat :=
  match s.findSnapshotById name with
  | some i => some i
  | none => s.snapshots.findIdx? (·.name = name)

def findNewSnapshotId (strtoul : String → Nat) (s : Image Key) : String :=
  toString ((s.snapshots.map fun sn => strtoul sn.idStr).foldl max 0 + 1)

def newSnapshotId (strtoul : String → Nat) (s : Image Key) (snInfo : QCowSnapshot) : String :=
  if snInfo.idStr = "" then s.findNewSnapshotId strtoul else snInfo.idStr

/-- The L1 table of the new snapshot, and the snapshot in the table. -/
def addSnapshot (snInfo : QCowSnapshot) (l1TableOffset : UInt64) : Qcow2M Key Int := do
  let _ ← bdrvFlush
  let s ← get
  let ret ← bdrvPwriteSync cbc l1TableOffset (.plain (be64s s.l1Table))
  if ret < 0 then return -1
  modify fun s =>
    { s with
      snapshots := s.snapshots ++
        [{ snInfo with l1TableOffset := l1TableOffset, l1Size := s.l1Table.length }] }
  let ret ← qcow2WriteSnapshots cbc depth
  if ret < 0 then return -1
  return 0

def qcow2SnapshotCreate (strtoul : String → Nat) (snInfo : QCowSnapshot) : Qcow2M Key Int := do
  let s ← get
  let idStr := s.newSnapshotId strtoul snInfo
  if (s.findSnapshotById idStr).isSome then return -ENOENT
  let ret ← qcow2UpdateSnapshotRefcount cbc depth s.l1TableOffset s.l1Table.length 1
  if ret < 0 then return -1
  let s ← get
  match ← qcow2AllocClusters cbc depth (s.l1Table.length * 8) with
  | .error _ => return -1
  | .ok l1TableOffset => addSnapshot cbc depth { snInfo with idStr := idStr } l1TableOffset

/-- The L1 table of a snapshot becomes that of the image. It is written before its entries are
converted. -/
def loadSnapshotL1 (sn : QCowSnapshot) : Qcow2M Key Int := do
  let s ← get
  let zeros := List.replicate (s.l1Table.length - sn.l1Size) (0 : UInt64)
  modify fun s => { s with l1Table := s.l1Table.take sn.l1Size ++ zeros }
  let (ret, buf) ← bdrvPread sn.l1TableOffset (sn.l1Size * 8)
  if ret < 0 then return - EIO
  let l1Table := be64sTo buf sn.l1Size ++ zeros
  modify fun s => { s with l1Table := l1Table.map bswap64 }
  let ret ← bdrvPwriteSync cbc s.l1TableOffset (.plain (rawBytes (l1Table.map bswap64)))
  if ret < 0 then return - EIO
  modify fun s => { s with l1Table := l1Table }
  return 0

def qcow2SnapshotGoto (snapshotId : String) : Qcow2M Key Int := do
  let s ← get
  match (s.findSnapshotByIdOrName snapshotId).bind (s.snapshots[·]?) with
  | none => return -ENOENT
  | some sn => do
    let ret ← qcow2UpdateSnapshotRefcount cbc depth s.l1TableOffset s.l1Table.length (-1)
    if ret < 0 then return - EIO
    let ret ← qcow2GrowL1Table cbc depth sn.l1Size true
    if ret < 0 then return - EIO
    let ret ← loadSnapshotL1 cbc sn
    if ret < 0 then return - EIO
    let s ← get
    let ret ← qcow2UpdateSnapshotRefcount cbc depth s.l1TableOffset s.l1Table.length 1
    if ret < 0 then return - EIO
    return 0

def qcow2SnapshotDelete (snapshotId : String) : Qcow2M Key Int := do
  let s ← get
  match s.findSnapshotByIdOrName snapshotId with
  | none => return -ENOENT
  | some i =>
    match s.snapshots[i]? with
    | none => throw .abort
    | some sn => do
      let ret ← qcow2UpdateSnapshotRefcount cbc depth sn.l1TableOffset sn.l1Size (-1)
      if ret < 0 then return ret
      let s ← get
      let ret ← qcow2UpdateSnapshotRefcount cbc depth s.l1TableOffset s.l1Table.length 0
      if ret < 0 then return ret
      qcow2FreeClusters cbc depth sn.l1TableOffset (sn.l1Size * 8)
      modify fun s => { s with snapshots := s.snapshots.eraseIdx i }
      qcow2WriteSnapshots cbc depth

/-! ## The header -/

def sizeToL1 (s : Image Key) (size : Nat) : Nat :=
  let shift := s.clusterBits + (s.clusterBits - 3)
  (size + (1 <<< shift) - 1) >>> shift

def qcow2Truncate (offset : Nat) : Qcow2M Key Int := do
  let s ← get
  if offset % 512 ≠ 0 then return -EINVAL
  if s.snapshots ≠ [] then return -ENOTSUP
  if offset < s.totalSectors * 512 then return -ENOTSUP
  let ret ← qcow2GrowL1Table cbc depth (s.sizeToL1 offset) true
  if ret < 0 then return ret
  let ret ← (if !s.bs.privDiff then bdrvPwriteSync cbc 24 (.plain (beBytes 8 offset)) else pure 0)
  if ret < 0 then return ret
  return 0

def backingFmtExtension (fmt : String) : List UInt8 :=
  let bytes := beBytes 4 0xE2792ACA ++ beBytes 4 (strBytes fmt).length ++ strBytes fmt
  bytes ++ List.replicate ((bytes.length + 7) / 8 * 8 - bytes.length) 0

def qcow2UpdateExtHeader (backingFile backingFmt : Option String) : Qcow2M Key Int := do
  let s ← get
  let ext := (backingFmt.map backingFmtExtension).getD []
  let name := (backingFile.map strBytes).getD []
  if backingFmt.isSome ∧ backingFile.isNone then return -EINVAL
  if s.clusterSize < 72 + name.length + ext.length then return -ENOSPC
  if !s.bs.privDiff then do
    let ret ← bdrvPwriteSync cbc 72 (.plain (ext ++ name))
    if ret < 0 then return ret
    let ret ← bdrvPwriteSync cbc 8
      (.plain (beBytes 8 (if backingFile.isSome then 72 + ext.length else 0)))
    if ret < 0 then return ret
    let ret ← bdrvPwriteSync cbc 16 (.plain (beBytes 4 name.length))
    if ret < 0 then return ret
    return 0
  else return 0

end Program

/-! ## The invariant of a session -/

section Keeps

variable {set : Settings Key} {W : FileWrite Key → Prop} (hW : WriteRules set W)
  (cbc : AesCbc Key) (depth : Nat)

include hW

variable {s : Image Key}

theorem keeps_snapshotRefcount (clusterIndex : Nat) (addend : Int) :
    Keeps (Session set W) (snapshotRefcount cbc depth clusterIndex addend) :=
  .bind (.ite (fun _ => keeps_updateClusterRefcount hW cbc depth clusterIndex addend)
    fun _ => keeps_getRefcount hW cbc depth clusterIndex) fun _ => .ite_pure <| Keeps.pure _

theorem keeps_entryRefcount (offset : UInt64) (addend : Int) :
    Keeps (Session set W) (entryRefcount cbc depth offset addend) := by
  refine .get_bind fun s _ => .ite (fun _ => .ite (fun _ => ?_)
    fun _ => .pure _) fun _ => keeps_snapshotRefcount hW cbc depth _ addend
  refine .bind (keeps_updateRefcount hW cbc depth depth _ _ addend) fun _ => .ite_pure ?_
  exact .bind keeps_bdrvFlush fun _ => .pure _

theorem keeps_snapshotEntry (addend : Int) (table j : Nat) :
    Keeps (Session set W) (snapshotEntry cbc depth addend table j) := by
  refine .bind (keeps_tableAt _ table) fun l2Table => .ite_pure ?_
  refine .bind (keeps_entryRefcount hW cbc depth _ addend) ?_
  rintro (ret | refcount)
  · exact .pure _
  refine .ite_pure <| Keeps.bind (.ite
    (fun _ => keeps_setDependency hW cbc depth _ _) fun _ => .pure 0) fun _ => ?_
  refine .bind (keeps_setTableAt _ table _) fun _ => ?_
  exact .bind (keeps_entryMarkDirty _ table) fun _ => .pure _

theorem keeps_snapshotEntries (addend : Int) (table : Nat) (js : List Nat) :
    Keeps (Session set W) (snapshotEntries cbc depth addend table js) := by
  induction js with
  | nil => exact .pure _
  | cons j js ih =>
    refine .bind (keeps_snapshotEntry hW cbc depth addend table j) ?_
    rintro (ret | _)
    · exact .pure _
    · exact ih

theorem keeps_snapshotL2 (addend : Int) (oldL2Offset : UInt64) :
    Keeps (Session set W) (snapshotL2 cbc depth addend oldL2Offset) := by
  refine .get_bind fun s _ => .bind (keeps_doGet hW cbc depth _ _ true) ?_
  rintro ⟨ret, _ | table⟩
  · exact .pure _
  refine .bind (keeps_snapshotEntries hW cbc depth addend table _) ?_
  rintro (ret | _)
  · exact .bind (keeps_put hW cbc depth _ table) fun _ => .pure _
  refine .bind (keeps_put hW cbc depth _ table) fun _ => .ite_pure ?_
  refine .bind (keeps_snapshotRefcount hW cbc depth _ addend) ?_
  rintro (ret | refcount) <;> exact .pure _

theorem keeps_restoreWritethrough (oldL2 oldRefcount : Bool) :
    Keeps (Session set W) (restoreWritethrough cbc depth oldL2 oldRefcount) :=
  .bind (keeps_setWritethrough hW cbc depth _ oldL2) fun _ =>
    .bind (keeps_setWritethrough hW cbc depth _ oldRefcount) fun _ => .pure ()

/-! ## Where plaintext is allowed -/

variable (hPlain : AllowsPlain W)

include hPlain

omit hW in
theorem keeps_modifyL1 (f : Image Key → List UInt64) :
    Keeps (Session set W) (modify (fun s => { s with l1Table := f s }) : Qcow2M Key Unit) :=
  .modify fun _ h => { h with l1Size := .inl hPlain }

omit hW in
theorem keeps_setL1 (active : Bool) (l1Table : List UInt64) :
    Keeps (Session set W) (setL1 active l1Table) :=
  .ite (fun _ => keeps_modifyL1 hPlain fun _ => l1Table) fun _ => .pure ()

theorem keeps_snapshotL1 (addend : Int) (active : Bool) (is : List Nat) (l1Table : List UInt64)
    (l1Modified : Bool) :
    Keeps (Session set W) (snapshotL1 cbc depth addend active is l1Table l1Modified) := by
  induction is generalizing l1Table l1Modified with
  | nil => exact .pure _
  | cons i is ih =>
    refine .ite (fun _ => ih _ _) fun _ => ?_
    refine .bind (keeps_snapshotL2 hW cbc depth addend _) ?_
    rintro (ret | l2Offset)
    · exact .pure _
    · exact .ite (fun _ => ih _ _) fun _ =>
        .bind (keeps_setL1 hPlain active _) fun _ => ih _ _

theorem keeps_writeBackL1 (oldL2 oldRefcount active : Bool) (l1TableOffset : UInt64) (fuel : Nat)
    (l1Table : List UInt64) :
    Keeps (Session set W)
      (writeBackL1 cbc depth oldL2 oldRefcount active l1TableOffset fuel l1Table) := by
  induction fuel generalizing l1Table with
  | zero => exact .throw _
  | succ fuel ih =>
    refine .bind (keeps_restoreWritethrough hW cbc depth oldL2 oldRefcount) fun _ => ?_
    refine .bind (keeps_setL1 hPlain active _) fun _ => ?_
    exact .bind (keeps_bdrvPwriteSync cbc (hPlain _ _)) fun _ => .ite
      (fun _ => ih _) fun _ => keeps_setL1 hPlain active _

theorem keeps_snapshotTable (addend : Int) (oldL2 oldRefcount active : Bool)
    (l1TableOffset : UInt64) (l1Table : List UInt64) :
    Keeps (Session set W)
      (snapshotTable cbc depth addend oldL2 oldRefcount active l1TableOffset l1Table) := by
  refine .bind (keeps_snapshotL1 hW cbc depth hPlain addend active _ l1Table false) fun r => ?_
  exact .bind (.ite
    (fun _ => keeps_writeBackL1 hW cbc depth hPlain oldL2 oldRefcount active _ depth _)
    fun _ => keeps_restoreWritethrough hW cbc depth oldL2 oldRefcount) fun _ => .pure _

theorem keeps_updateSnapshotRefcount (l1TableOffset : UInt64) (l1Size : Nat) (addend : Int) :
    Keeps (Session set W) (qcow2UpdateSnapshotRefcount cbc depth l1TableOffset l1Size addend) := by
  refine .bind (keeps_setWritethrough hW cbc depth _ false) fun oldL2 => ?_
  refine .bind (keeps_setWritethrough hW cbc depth _ false) fun oldRefcount => ?_
  have hTable := keeps_snapshotTable hW cbc depth hPlain addend oldL2 oldRefcount
  refine .get_bind fun s _ => .ite (fun _ => ?_) fun _ =>
    .ite (fun _ => .throw _) fun _ => hTable true _ _
  refine .bind (keeps_bdrvPread _ _) fun r => .ite (fun _ => ?_) fun _ => hTable false _ _
  exact .bind (keeps_restoreWritethrough hW cbc depth oldL2 oldRefcount) fun _ => .pure _

omit hW in
theorem keeps_writeSnapshotRecords (offset : Nat) (sns : List QCowSnapshot) :
    Keeps (Session set W) (writeSnapshotRecords cbc offset sns) := by
  have hWrite : ∀ offset bytes, Keeps (Session set W) (bdrvPwriteSync cbc offset (.plain bytes)) :=
    fun offset bytes => keeps_bdrvPwriteSync cbc (hPlain offset bytes)
  induction sns generalizing offset with
  | nil => exact .pure 0
  | cons sn sns ih =>
    refine .bind (hWrite _ _) fun _ => .ite_pure ?_
    refine .bind (hWrite _ _) fun _ => .ite_pure ?_
    exact .bind (hWrite _ _) fun _ => .ite_pure <| ih _

omit hW hPlain in
theorem keeps_writeSnapshotFields (snapshotsOffset : UInt64) :
    Keeps (Session set W) (writeSnapshotFields cbc snapshotsOffset) := by
  refine .get_bind fun s hs => ?_
  rw [hs.privDiff]
  exact .pure 0

theorem keeps_writeSnapshots : Keeps (Session set W) (qcow2WriteSnapshots cbc depth) := by
  refine .get_bind fun s _ => .bind (keeps_allocClusters hW cbc depth _) fun r => ?_
  refine .bind keeps_bdrvFlush fun _ => ?_
  cases r with
  | error ret => exact .pure _
  | ok snapshotsOffset =>
    refine .bind (keeps_writeSnapshotRecords cbc hPlain _ _) fun _ => .ite_pure ?_
    refine .bind (keeps_writeSnapshotFields cbc snapshotsOffset) fun _ => .ite_pure ?_
    refine .bind (keeps_freeClusters hW cbc depth _ _) fun _ => ?_
    exact .bind (.modify fun _ h => h.congr rfl rfl rfl rfl rfl) fun _ => .pure 0

theorem keeps_addSnapshot (snInfo : QCowSnapshot) (l1TableOffset : UInt64) :
    Keeps (Session set W) (addSnapshot cbc depth snInfo l1TableOffset) := by
  refine .bind keeps_bdrvFlush fun _ => .get_bind fun s _ => ?_
  refine .bind (keeps_bdrvPwriteSync cbc (hPlain _ _)) fun _ => .ite_pure ?_
  refine .bind (.modify fun _ h => h.congr rfl rfl rfl rfl rfl) fun _ => ?_
  exact .bind (keeps_writeSnapshots hW cbc depth hPlain) fun _ =>
    .ite_pure <| Keeps.pure 0

omit hW in
theorem keeps_loadSnapshotL1 (sn : QCowSnapshot) :
    Keeps (Session set W) (loadSnapshotL1 cbc sn) := by
  refine .get_bind fun s _ => .bind (keeps_modifyL1 hPlain _) fun _ => ?_
  refine .bind (keeps_bdrvPread _ _) fun _ => .ite_pure ?_
  refine .bind (keeps_modifyL1 hPlain _) fun _ => ?_
  refine .bind (keeps_bdrvPwriteSync cbc (hPlain _ _)) fun _ => .ite_pure ?_
  exact .bind (keeps_modifyL1 hPlain _) fun _ => .pure 0

omit hPlain in
theorem keeps_snapshotCreate (strtoul : String → Nat) (snInfo : QCowSnapshot) (hs : Session set W s)
    (hOk : AllowsPlain W ∨ (s.findSnapshotById (s.newSnapshotId strtoul snInfo)).isSome) :
    Session set W (finalState (qcow2SnapshotCreate cbc depth strtoul snInfo s)) := by
  rcases hOk with hPlain | hTaken
  · refine Keeps.get_bind (fun s _ => .ite_pure ?_) s hs
    have hUpdate := keeps_updateSnapshotRefcount hW cbc depth hPlain
    refine .bind (hUpdate _ _ 1) fun _ => .ite_pure <| Keeps.get_bind fun s _ => ?_
    refine .bind (keeps_allocClusters hW cbc depth _) ?_
    rintro (ret | l1TableOffset)
    · exact .pure _
    · exact keeps_addSnapshot hW cbc depth hPlain _ l1TableOffset
  · rw [qcow2SnapshotCreate, finalState_get_bind, if_pos hTaken]
    exact hs

omit hPlain in
theorem keeps_snapshotGoto (snapshotId : String) (hs : Session set W s)
    (hOk : AllowsPlain W ∨ s.findSnapshotByIdOrName snapshotId = none) :
    Session set W (finalState (qcow2SnapshotGoto cbc depth snapshotId s)) := by
  rcases hOk with hPlain | hNone
  · refine Keeps.get_bind (fun s _ => ?_) s hs
    cases (s.findSnapshotByIdOrName snapshotId).bind (s.snapshots[·]?) with
    | none => exact .pure _
    | some sn =>
      have hUpdate := keeps_updateSnapshotRefcount hW cbc depth hPlain
      refine .bind (hUpdate _ _ (-1)) fun _ => .ite_pure ?_
      refine .bind (keeps_growL1Table hW cbc depth (.inl hPlain) true) fun _ =>
        .ite_pure ?_
      refine .bind (keeps_loadSnapshotL1 cbc hPlain sn) fun _ => .ite_pure ?_
      exact .get_bind fun s _ => .bind (hUpdate _ _ 1) fun _ =>
        .ite_pure <| Keeps.pure 0
  · rw [qcow2SnapshotGoto, finalState_get_bind, hNone]
    exact hs

omit hPlain in
theorem keeps_snapshotDelete (snapshotId : String) (hs : Session set W s)
    (hOk : AllowsPlain W ∨ s.findSnapshotByIdOrName snapshotId = none) :
    Session set W (finalState (qcow2SnapshotDelete cbc depth snapshotId s)) := by
  rcases hOk with hPlain | hNone
  · refine Keeps.get_bind (fun s _ => ?_) s hs
    cases s.findSnapshotByIdOrName snapshotId with
    | none => exact .pure _
    | some i =>
      dsimp only
      cases s.snapshots[i]? with
      | none => exact .throw _
      | some sn =>
        have hUpdate := keeps_updateSnapshotRefcount hW cbc depth hPlain
        refine .bind (hUpdate _ _ (-1)) fun _ => .ite_pure ?_
        refine .get_bind fun s _ => .bind (hUpdate _ _ 0) fun _ => .ite_pure ?_
        refine .bind (keeps_freeClusters hW cbc depth _ _) fun _ => ?_
        refine .bind (.modify fun _ h => h.congr rfl rfl rfl rfl rfl) fun _ => ?_
        exact keeps_writeSnapshots hW cbc depth hPlain
  · rw [qcow2SnapshotDelete, finalState_get_bind, hNone]
    exact hs

/-! ## The header -/

omit hPlain in
theorem keeps_truncate (offset : Nat) (hs : Session set W s)
    (hOk : AllowsPlain W ∨ offset % 512 ≠ 0 ∨ s.snapshots ≠ [] ∨ offset < s.totalSectors * 512 ∨
      s.sizeToL1 offset ≤ s.l1Table.length) :
    Session set W (finalState (qcow2Truncate cbc depth offset s)) := by
  have hReturn : ∀ ret : Int,
      Session set W (finalState ((pure ret : Qcow2M Key Int) s)) := fun _ => hs
  rw [qcow2Truncate, finalState_get_bind]
  split
  · exact hReturn _
  rename_i hMod
  split
  · exact hReturn _
  rename_i hSn
  split
  · exact hReturn _
  rename_i hShrink
  have hSize : AllowsPlain W ∨ s.sizeToL1 offset ≤ set.l1Size := by
    rcases hs.l1Size with hPlain | hLen
    · exact .inl hPlain
    · rw [← hLen]
      exact hOk.imp_right fun h => ((h.resolve_left hMod).resolve_left hSn).resolve_left hShrink
  refine Keeps.bind (keeps_growL1Table hW cbc depth hSize true) (fun _ => .ite_pure ?_) s hs
  rw [hs.privDiff]
  exact .bind (.pure 0) fun _ => .ite_pure <| Keeps.pure 0

omit hW hPlain in
theorem keeps_updateExtHeader (backingFile backingFmt : Option String) :
    Keeps (Session set W) (qcow2UpdateExtHeader cbc backingFile backingFmt) := by
  refine .get_bind fun s hs => .ite_pure <| Keeps.ite_pure ?_
  rw [hs.privDiff]
  exact .pure 0

end Keeps

end Image

end Lacuna.Qcow2
