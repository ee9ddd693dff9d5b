import Lacuna.Qcow2.Refcount

/-!
# qcow2 — L1 and L2 tables

`qcow2-cluster.c`: finding the L2 table for a disk offset, allocating it,
growing the L1 table, reading and copying sectors, entering new clusters into
an L2 table, and discarding clusters. In private-diff mode an entry of the L1 table
is not written (`write_l1_entry`), but a larger L1 table is, and in plaintext
(`qcow2_grow_l1_table`).
-/

namespace Lacuna.Qcow2

open Lacuna.Lib

variable {Key : Type}

/-- What a call finds outside the image file: the backing file, and compressed clusters. -/
structure Env where
  /-- `bdrv_read` from the backing file, and the size of that file -/
  backing : Option ((Nat → Nat → Option (List UInt8)) × Nat)
  decompress : UInt64 → Option (List UInt8)

/-! ## Runs of entries in an L2 table -/

def countContiguousClusters (nbClusters clusterSize : Nat) (l2 : Nat → UInt64) (start : Nat)
    (mask : UInt64) : Nat :=
  let offset := l2 0 &&& ~~~mask
  if offset = 0 then 0
  else ((List.range nbClusters).takeWhile fun k =>
    offset + UInt64.ofNat ((start + k) * clusterSize) = l2 (start + k) &&& ~~~mask).length

def countContiguousFreeClusters (nbClusters : Nat) (l2 : Nat → UInt64) : Nat :=
  ((List.range nbClusters).takeWhile fun k => l2 k = 0).length

namespace Image

def l2Size (s : Image Key) : Nat := 1 <<< (s.clusterBits - 3)

def clusterSectors (s : Image Key) : Nat := 1 <<< (s.clusterBits - 9)

def l1Index (s : Image Key) (offset : UInt64) : Nat :=
  offset.toNat >>> (s.clusterBits - 3 + s.clusterBits)

def l2Index (s : Image Key) (offset : UInt64) : Nat :=
  offset.toNat >>> s.clusterBits % s.l2Size

section Program

variable (cbc : AesCbc Key) (depth : Nat)

/-! ## The L1 table -/

/-- The new L1 table becomes the table of the image. -/
def activateL1 (newL1Table : List UInt64) (newL1TableOffset : UInt64) : Qcow2M Key Unit := do
  let s ← get
  qcow2FreeClusters cbc depth s.l1TableOffset (s.l1Table.length * 8)
  modify fun s => { s with l1Table := newL1Table, l1TableOffset := newL1TableOffset }

def failL1 (newL1TableOffset : UInt64) (newL1Size2 : Nat) (ret : Int) : Qcow2M Key Int := do
  qcow2FreeClusters cbc depth newL1TableOffset newL1Size2
  return ret

def qcow2GrowL1Table (minSize : Nat) (exactSize : Bool) : Qcow2M Key Int := do
  let s ← get
  if minSize ≤ s.l1Table.length then return 0
  let newL1Size := if exactSize then minSize else growSize minSize (max 1 s.l1Table.length)
  let newL1Table := s.l1Table ++ List.replicate (newL1Size - s.l1Table.length) 0
  match ← qcow2AllocClusters cbc depth (8 * newL1Size) with
  | .error ret => return ret
  | .ok newL1TableOffset => do
    let ret ← qcow2CacheFlush cbc depth .refcountBlockCache
    if ret < 0 then failL1 cbc depth newL1TableOffset (8 * newL1Size) ret
    else do
      let ret ← bdrvPwriteSync cbc newL1TableOffset (.plain (be64s newL1Table))
      if ret < 0 then failL1 cbc depth newL1TableOffset (8 * newL1Size) ret
      else do
        let ret ←
          (if !s.bs.privDiff then
            bdrvPwriteSync cbc 36
              (.plain (beBytes 4 newL1Size ++ beBytes 8 newL1TableOffset.toNat))
          else pure 0)
        if ret < 0 then failL1 cbc depth newL1TableOffset (8 * newL1Size) ret
        else do
          activateL1 cbc depth newL1Table newL1TableOffset
          return 0

def L1_ENTRIES_PER_SECTOR : Nat := 64

def writeL1Entry (l1Index : Nat) : Qcow2M Key Int := do
  let s ← get
  if !s.bs.privDiff then do
    let l1StartIndex := l1Index / L1_ENTRIES_PER_SECTOR * L1_ENTRIES_PER_SECTOR
    let ret ← bdrvPwriteSync cbc (s.l1TableOffset + UInt64.ofNat (8 * l1StartIndex))
      (.plain (be64s ((List.range L1_ENTRIES_PER_SECTOR).map fun i =>
        s.l1Table.getD (l1StartIndex + i) 0)))
    if ret < 0 then return ret
    return 0
  else return 0

/-! ## L2 tables -/

def l2Load (l2Offset : UInt64) : Qcow2M Key (Int × Option Nat) :=
  qcow2CacheGet cbc depth .l2TableCache l2Offset

def failL2 (table : Option Nat) (l1Index : Nat) (oldL2Offset : UInt64) (ret : Int) :
    Qcow2M Key (Except Int Nat) := do
  let _ ← (match table with
    | some i => qcow2CachePut cbc depth .l2TableCache i
    | none => pure 0)
  modify fun s => { s with l1Table := s.l1Table.set l1Index oldL2Offset }
  return .error ret

/-- The contents of a new L2 table: zeros, or those of the old table. -/
def fillL2 (table : Nat) (oldL2Offset : UInt64) : Qcow2M Key Int := do
  let s ← get
  if oldL2Offset = 0 then do
    setTableAt .l2TableCache table (List.replicate s.clusterSize 0)
    return 0
  else
    match ← qcow2CacheGet cbc depth .l2TableCache oldL2Offset with
    | (ret, none) => return ret
    | (_, some oldTable) => do
      let contents ← tableAt .l2TableCache oldTable
      setTableAt .l2TableCache table contents
      qcow2CachePut cbc depth .l2TableCache oldTable

def l2Allocate (l1Index : Nat) : Qcow2M Key (Except Int Nat) := do
  let s ← get
  let oldL2Offset := s.l1Table.getD l1Index 0
  match ← qcow2AllocClusters cbc depth (s.l2Size * 8) with
  | .error ret => return .error ret
  | .ok l2Offset => do
    let ret ← qcow2CacheFlush cbc depth .refcountBlockCache
    if ret < 0 then failL2 cbc depth none l1Index oldL2Offset ret
    else
      match ← qcow2CacheGetEmpty cbc depth .l2TableCache l2Offset with
      | (ret, none) => return .error ret
      | (_, some table) => do
        let ret ← fillL2 cbc depth table oldL2Offset
        if ret < 0 then failL2 cbc depth (some table) l1Index oldL2Offset ret
        else do
          qcow2CacheEntryMarkDirty .l2TableCache table
          let ret ← qcow2CacheFlush cbc depth .l2TableCache
          if ret < 0 then failL2 cbc depth (some table) l1Index oldL2Offset ret
          else do
            modify fun s =>
              { s with l1Table := s.l1Table.set l1Index (l2Offset ||| QCOW_OFLAG_COPIED) }
            let ret ← writeL1Entry cbc l1Index
            if ret < 0 then failL2 cbc depth (some table) l1Index oldL2Offset ret
            else return .ok table

def getClusterTable (offset : UInt64) : Qcow2M Key (Except Int Nat) := do
  let s ← get
  let ret ←
    (if s.l1Table.length ≤ s.l1Index offset then
      qcow2GrowL1Table cbc depth (s.l1Index offset + 1) false
    else pure 0)
  if ret < 0 then return .error ret
  let s ← get
  let l2Offset := s.l1Table.getD (s.l1Index offset) 0
  if l2Offset &&& QCOW_OFLAG_COPIED ≠ 0 then
    match ← l2Load cbc depth (l2Offset &&& ~~~QCOW_OFLAG_COPIED) with
    | (ret, none) => return .error ret
    | (_, some table) => return .ok table
  else
    match ← l2Allocate cbc depth (s.l1Index offset) with
    | .error ret => return .error ret
    | .ok table => do
      let _ ← (if l2Offset ≠ 0 then qcow2FreeClusters cbc depth l2Offset (s.l2Size * 8)
        else pure ())
      return .ok table

/-- The sectors to the end of the L1 entry, and up to the start of the cluster before it. -/
def availableSectors (s : Image Key) (offset : UInt64) : Nat :=
  let l1Bytes := 1 <<< (s.clusterBits - 3 + s.clusterBits)
  (l1Bytes - offset.toNat % l1Bytes) / 512 + offset.toNat / 512 % s.clusterSectors

def clusterOffsetResult (s : Image Key) (offset : UInt64) (nbAvailable nbNeeded : Nat)
    (clusterOffset : UInt64) : Nat × UInt64 :=
  (min nbAvailable nbNeeded - offset.toNat / 512 % s.clusterSectors,
    clusterOffset &&& ~~~QCOW_OFLAG_COPIED)

/-- How many sectors can be read at once, and from where. -/
def qcow2GetClusterOffset (offset : UInt64) (num : Nat) :
    Qcow2M Key (Except Int (Nat × UInt64)) := do
  let s ← get
  let nbAvailable := s.availableSectors offset
  let nbNeeded := min (num + offset.toNat / 512 % s.clusterSectors) nbAvailable
  let l2Offset := s.l1Table.getD (s.l1Index offset) 0
  if l2Offset = 0 then return .ok (s.clusterOffsetResult offset nbAvailable nbNeeded 0)
  match ← l2Load cbc depth (l2Offset &&& ~~~QCOW_OFLAG_COPIED) with
  | (ret, none) => return .error ret
  | (_, some table) => do
    let l2Table ← tableAt .l2TableCache table
    let l2 := fun i => be64At l2Table (s.l2Index offset + i)
    let nbClusters := s.sizeToClusters (nbNeeded * 512)
    let c :=
      if l2 0 = 0 then countContiguousFreeClusters nbClusters l2
      else countContiguousClusters nbClusters s.clusterSize l2 0 QCOW_OFLAG_COPIED
    let _ ← qcow2CachePut cbc depth .l2TableCache table
    return .ok (s.clusterOffsetResult offset (c * s.clusterSectors) nbNeeded (l2 0))

variable (env : Env)

/-- Sectors that the image does not have: from the backing file, with zeros
after its end. -/
def readBacking (sectorNum n : Nat) : Except Int (List UInt8) :=
  match env.backing with
  | none => .ok (List.replicate (512 * n) 0)
  | some (bdrvRead, totalSectors) =>
    -- `qcow2_backing_read1`
    let n1 := min n (totalSectors - sectorNum)
    if n1 = 0 then .ok (List.replicate (512 * n) 0)
    else
      match bdrvRead sectorNum n1 with
      | none => .error (-1)
      | some buf => .ok (buf ++ List.replicate (512 * (n - n1)) 0)

/-- One round of the loop of `qcow2_read`: `n` sectors at once. -/
def readPart (sectorNum n : Nat) (clusterOffset : UInt64) :
    Qcow2M Key (Except Int (List UInt8)) := do
  let s ← get
  let indexInCluster := sectorNum % s.clusterSectors
  if clusterOffset = 0 then return readBacking env sectorNum n
  else if clusterOffset &&& QCOW_OFLAG_COMPRESSED ≠ 0 then
    match env.decompress clusterOffset with
    | none => return .error (-1)
    | some cluster => return .ok ((cluster.drop (indexInCluster * 512)).take (512 * n))
  else do
    let (ret, buf) ← bdrvPread (clusterOffset + UInt64.ofNat (indexInCluster * 512)) (n * 512)
    if ret < 0 then return .error (-1)
    return .ok
      (if s.bs.cryptMethod ≠ .none then
        qcow2EncryptSectors cbc (UInt64.ofNat sectorNum) buf n false s.bs.aesniCtx
      else buf)

def qcow2Read : Nat → Nat → Nat → List UInt8 → Qcow2M Key (Except Int (List UInt8))
  | 0, _, _, _ => throw .tooDeep
  | fuel + 1, sectorNum, nbSectors, done =>
    if nbSectors = 0 then return .ok done
    else do
      match ← qcow2GetClusterOffset cbc depth (UInt64.ofNat (sectorNum * 512)) nbSectors with
      | .error ret => return .error ret
      | .ok (n, clusterOffset) =>
        match ← readPart cbc env sectorNum n clusterOffset with
        | .error ret => return .error ret
        | .ok buf => qcow2Read fuel (sectorNum + n) (nbSectors - n) (done ++ buf)

/-! ## Entering new clusters -/

def sectorsBuf (s : Image Key) (sectorNum : Nat) (inBuf : List UInt8) (nbSectors : Nat) :
    FileBuf Key :=
  if s.bs.cryptMethod ≠ .none then
    .encryptSectors s.bs.aesniCtx (UInt64.ofNat sectorNum) inBuf nbSectors
  else .plain inBuf

def copySectors (startSect : Nat) (clusterOffset : UInt64) (nStart nEnd : Nat) :
    Qcow2M Key Int :=
  if nEnd ≤ nStart then return 0
  else do
    match ← qcow2Read cbc depth env depth (startSect + nStart) (nEnd - nStart) [] with
    | .error ret => return ret
    | .ok clusterData => do
      let s ← get
      let ret ← bdrvPwrite cbc (UInt64.ofNat ((clusterOffset.toNat / 512 + nStart) * 512))
        (s.sectorsBuf (startSect + nStart) clusterData (nEnd - nStart)) none
      if ret < 0 then return ret
      return 0

/-- The sectors of the first and the last cluster that the guest does not
write. -/
def copyUnmodified (m : QCowL2Meta) : Qcow2M Key Int := do
  let s ← get
  let startSect := m.offset.toNat >>> s.clusterBits * s.clusterSectors
  let ret ← (if m.nStart ≠ 0 then
    copySectors cbc depth env startSect m.clusterOffset 0 m.nStart else pure 0)
  if ret < 0 then return ret
  let last := m.nbAvailable % s.clusterSectors
  if last = 0 then return 0
  else
    copySectors cbc depth env (startSect + (m.nbAvailable - last))
      (m.clusterOffset + UInt64.ofNat ((m.nbAvailable - last) * 512)) last s.clusterSectors

def linkEntries (s : Image Key) (m : QCowL2Meta) (l2Index : Nat) (l2Table : List UInt8) :
    List UInt8 :=
  (List.range m.nbClusters).foldl (fun table i =>
    setBe64 table (l2Index + i)
      ((m.clusterOffset + UInt64.ofNat (i <<< s.clusterBits)) ||| QCOW_OFLAG_COPIED)) l2Table

/-- `old_cluster`: the entries the new ones replace. -/
def oldClusters (m : QCowL2Meta) (l2Index : Nat) (l2Table : List UInt8) : List UInt64 :=
  ((List.range m.nbClusters).map fun i => be64At l2Table (l2Index + i)).filter (· ≠ 0)

def freeAll : List UInt64 → Qcow2M Key Unit
  | [] => return ()
  | offset :: offsets => do
    qcow2FreeAnyClusters cbc depth (offset &&& ~~~QCOW_OFLAG_COPIED) 1
    freeAll offsets

def qcow2AllocClusterLinkL2 (m : QCowL2Meta) : Qcow2M Key Int :=
  if m.nbClusters = 0 then return 0
  else do
    let s ← get
    let ret ← copyUnmodified cbc depth env m
    if ret < 0 then return ret
    let _ ← (if m.nStart ≠ 0 ∨ m.nbAvailable % s.clusterSectors ≠ 0 then
      qcow2CacheDependsOnFlush .l2TableCache else pure ())
    let _ ← qcow2CacheSetDependency cbc depth .l2TableCache .refcountBlockCache
    match ← getClusterTable cbc depth m.offset with
    | .error ret => return ret
    | .ok table => do
      qcow2CacheEntryMarkDirty .l2TableCache table
      let l2Table ← tableAt .l2TableCache table
      setTableAt .l2TableCache table (s.linkEntries m (s.l2Index m.offset) l2Table)
      let ret ← qcow2CachePut cbc depth .l2TableCache table
      if ret < 0 then return ret
      freeAll cbc depth (oldClusters m (s.l2Index m.offset) l2Table)
      return 0

/-! ## Discarding clusters -/

/-- The loop of `discard_single_l2` over entries of an L2 table. -/
def discardEntries (table : Nat) : List Nat → Qcow2M Key Unit
  | [] => return ()
  | i :: is => do
    let l2Table ← tableAt .l2TableCache table
    let oldOffset := be64At l2Table i &&& ~~~QCOW_OFLAG_COPIED
    if oldOffset = 0 then discardEntries table is
    else do
      qcow2CacheEntryMarkDirty .l2TableCache table
      setTableAt .l2TableCache table (setBe64 l2Table i 0)
      qcow2FreeAnyClusters cbc depth oldOffset 1
      discardEntries table is

def discardSingleL2 (offset : UInt64) (nbClusters : Nat) : Qcow2M Key (Except Int Nat) := do
  match ← getClusterTable cbc depth offset with
  | .error ret => return .error ret
  | .ok table => do
    let s ← get
    let n := min nbClusters (s.l2Size - s.l2Index offset)
    discardEntries cbc depth table ((List.range n).map (s.l2Index offset + ·))
    let ret ← qcow2CachePut cbc depth .l2TableCache table
    if ret < 0 then return .error ret
    return .ok n

/-- The loop of `qcow2_discard_clusters`, from cluster `first` of the disk
on. -/
def discardLoop : Nat → Nat → Nat → Qcow2M Key Int
  | 0, _, _ => throw .tooDeep
  | fuel + 1, first, nbClusters =>
    if nbClusters = 0 then return 0
    else do
      let s ← get
      match ← discardSingleL2 cbc depth (s.offsetOf first) nbClusters with
      | .error ret => return ret
      | .ok n => discardLoop fuel (first + n) (nbClusters - n)

def qcow2Discard (sectorNum nbSectors : Nat) : Qcow2M Key Int := do
  let s ← get
  let first := s.sizeToClusters (sectorNum * 512)
  let last := ((sectorNum + nbSectors) * 512) >>> s.clusterBits
  discardLoop cbc depth depth first (last - first)

end Program

/-! ## The invariant of a session -/

section Keeps

variable {set : Settings Key} {W : FileWrite Key → Prop} (hW : WriteRules set W)
  (cbc : AesCbc Key) (depth : Nat)

include hW

theorem keeps_activateL1 (hPlain : AllowsPlain W) (newL1Table : List UInt64)
    (newL1TableOffset : UInt64) :
    Keeps (Session set W) (activateL1 cbc depth newL1Table newL1TableOffset) := by
  refine .get_bind fun s _ => .bind (keeps_freeClusters hW cbc depth _ _) fun _ => ?_
  exact .modify fun s h => { h with l1Size := .inl hPlain }

theorem keeps_failL1 (newL1TableOffset : UInt64) (newL1Size2 : Nat) (ret : Int) :
    Keeps (Session set W) (failL1 cbc depth newL1TableOffset newL1Size2 ret) :=
  .bind (keeps_freeClusters hW cbc depth _ _) fun _ => .pure ret

/-- Growing the L1 table writes it in plaintext. -/
theorem keeps_growL1Table {minSize : Nat} (hSize : AllowsPlain W ∨ minSize ≤ set.l1Size)
    (exactSize : Bool) : Keeps (Session set W) (qcow2GrowL1Table cbc depth minSize exactSize) := by
  refine .get_bind fun s hs => .ite (fun _ => .pure 0) fun hGrow => ?_
  have hPlain : AllowsPlain W := by
    rcases hs.l1Size with hPlain | hLen
    · exact hPlain
    · exact hSize.resolve_right fun h => hGrow (hLen ▸ h)
  refine .bind (keeps_allocClusters hW cbc depth _) ?_
  rintro (ret | newL1TableOffset)
  · exact .pure _
  have hFail := keeps_failL1 hW cbc depth newL1TableOffset
  refine .bind (keeps_qcow2CacheFlush hW cbc depth _) fun ret =>
    .ite (fun _ => hFail _ ret) fun _ => ?_
  refine .bind (keeps_bdrvPwriteSync cbc (hPlain _ _)) fun ret =>
    .ite (fun _ => hFail _ ret) fun _ => ?_
  refine .bind (.ite (fun _ => keeps_bdrvPwriteSync cbc (hPlain _ _))
    fun _ => .pure 0) fun ret => .ite (fun _ => hFail _ ret) fun _ => ?_
  exact .bind (keeps_activateL1 hW cbc depth hPlain _ newL1TableOffset) fun _ => .pure 0

omit hW in
theorem keeps_writeL1Entry (l1Index : Nat) : Keeps (Session set W) (writeL1Entry cbc l1Index) := by
  refine .get_bind fun s hs => ?_
  rw [hs.privDiff]
  exact .pure 0

theorem keeps_failL2 (table : Option Nat) (l1Index : Nat) (oldL2Offset : UInt64) (ret : Int) :
    Keeps (Session set W) (failL2 cbc depth table l1Index oldL2Offset ret) := by
  have hPut : Keeps (Session set W) (match table with
      | some i => qcow2CachePut cbc depth .l2TableCache i
      | none => pure 0) := by
    cases table with
    | none => exact .pure 0
    | some i => exact keeps_put hW cbc depth _ i
  refine .bind hPut fun _ => ?_
  exact .bind (.modify fun s h => h.congr rfl rfl (List.length_set ..) rfl rfl) fun _ => .pure _

theorem keeps_fillL2 (table : Nat) (oldL2Offset : UInt64) :
    Keeps (Session set W) (fillL2 cbc depth table oldL2Offset) := by
  refine .get_bind fun s _ => .ite
    (fun _ => .bind (keeps_setTableAt _ table _) fun _ => .pure 0) fun _ => ?_
  refine .bind (keeps_doGet hW cbc depth _ oldL2Offset true) ?_
  rintro ⟨ret, _ | oldTable⟩
  · exact .pure ret
  · refine .bind (keeps_tableAt _ oldTable) fun _ => ?_
    exact .bind (keeps_setTableAt _ table _) fun _ => keeps_put hW cbc depth _ oldTable

theorem keeps_l2Allocate (l1Index : Nat) :
    Keeps (Session set W) (l2Allocate cbc depth l1Index) := by
  refine .get_bind fun s _ => .bind (keeps_allocClusters hW cbc depth _) ?_
  rintro (ret | l2Offset)
  · exact .pure _
  have hFail := fun table => keeps_failL2 hW cbc depth table l1Index (s.l1Table.getD l1Index 0)
  refine .bind (keeps_qcow2CacheFlush hW cbc depth _) fun ret =>
    .ite (fun _ => hFail none ret) fun _ => ?_
  refine .bind (keeps_doGet hW cbc depth _ l2Offset false) ?_
  rintro ⟨ret, _ | table⟩
  · exact .pure _
  refine .bind (keeps_fillL2 hW cbc depth table _) fun ret =>
    .ite (fun _ => hFail (some table) ret) fun _ => ?_
  refine .bind (keeps_entryMarkDirty _ table) fun _ => ?_
  refine .bind (keeps_qcow2CacheFlush hW cbc depth _) fun ret =>
    .ite (fun _ => hFail (some table) ret) fun _ => ?_
  refine .bind (.modify fun s h => h.congr rfl rfl (List.length_set ..) rfl rfl) fun _ => ?_
  exact .bind (keeps_writeL1Entry cbc l1Index) fun ret =>
    .ite (fun _ => hFail (some table) ret) fun _ => .pure _

theorem keeps_getClusterTable {offset : UInt64} (hReach : AllowsPlain W ∨ set.Reaches offset) :
    Keeps (Session set W) (getClusterTable cbc depth offset) := by
  refine .get_bind fun s hs => ?_
  have hGrow : Keeps (Session set W) (if s.l1Table.length ≤ s.l1Index offset then
      qcow2GrowL1Table cbc depth (s.l1Index offset + 1) false else pure 0) := by
    refine .ite (fun _ => keeps_growL1Table hW cbc depth (hReach.imp_right ?_) false)
      fun _ => .pure 0
    intro h
    rw [Settings.Reaches, ← hs.clusterBits] at h
    exact h
  refine .bind hGrow fun _ => .ite_pure ?_
  refine .get_bind fun s _ => .ite (fun _ => ?_) fun _ => ?_
  · refine .bind (keeps_doGet hW cbc depth _ _ true) ?_
    rintro ⟨ret, _ | table⟩ <;> exact .pure _
  · refine .bind (keeps_l2Allocate hW cbc depth _) ?_
    rintro (ret | table)
    · exact .pure _
    · exact .bind (.ite (fun _ => keeps_freeClusters hW cbc depth _ _)
        fun _ => .pure ()) fun _ => .pure _

/-! ## Reading and copying -/

theorem keeps_getClusterOffset (offset : UInt64) (num : Nat) :
    Keeps (Session set W) (qcow2GetClusterOffset cbc depth offset num) := by
  refine .get_bind fun s _ => .ite_pure ?_
  refine .bind (keeps_doGet hW cbc depth _ _ true) ?_
  rintro ⟨ret, _ | table⟩
  · exact .pure _
  · refine .bind (keeps_tableAt _ table) fun _ => ?_
    exact .bind (keeps_put hW cbc depth _ table) fun _ => .pure _

variable (env : Env)

omit hW in
theorem keeps_readPart (sectorNum n : Nat) (clusterOffset : UInt64) :
    Keeps (Session set W) (readPart cbc env sectorNum n clusterOffset) := by
  refine .get_bind fun s _ => .ite_pure <| Keeps.ite (fun _ => ?_) fun _ => ?_
  · cases env.decompress clusterOffset <;> exact .pure _
  · exact .bind (keeps_bdrvPread _ _) fun _ => .ite_pure <| Keeps.pure _

theorem keeps_read (fuel sectorNum nbSectors : Nat) (done : List UInt8) :
    Keeps (Session set W) (qcow2Read cbc depth env fuel sectorNum nbSectors done) := by
  induction fuel generalizing sectorNum nbSectors done with
  | zero => exact .throw _
  | succ fuel ih =>
    refine .ite_pure <| Keeps.bind (keeps_getClusterOffset hW cbc depth _ _) ?_
    rintro (ret | ⟨n, clusterOffset⟩)
    · exact .pure _
    refine .bind (keeps_readPart cbc env sectorNum n clusterOffset) ?_
    rintro (ret | buf)
    · exact .pure _
    · exact ih _ _ _

theorem keeps_writeSectors {s : Image Key} (hs : Session set W s) (offset : UInt64)
    (sectorNum : Nat) (inBuf : List UInt8) (nbSectors : Nat) :
    Keeps (Session set W) (bdrvPwrite cbc offset (s.sectorsBuf sectorNum inBuf nbSectors) none) := by
  refine keeps_bdrvPwrite cbc ?_
  rw [sectorsBuf, hs.mode, if_pos (by decide), hs.key]
  exact hW.encryptSectors offset _ inBuf nbSectors

theorem keeps_copySectors (startSect : Nat) (clusterOffset : UInt64) (nStart nEnd : Nat) :
    Keeps (Session set W) (copySectors cbc depth env startSect clusterOffset nStart nEnd) := by
  refine .ite_pure <| Keeps.bind (keeps_read hW cbc depth env depth _ _ []) ?_
  rintro (ret | clusterData)
  · exact .pure _
  · refine .get_bind fun s hs => ?_
    exact .bind (keeps_writeSectors hW cbc hs _ _ _ _) fun _ => .ite_pure <| Keeps.pure 0

theorem keeps_copyUnmodified (m : QCowL2Meta) :
    Keeps (Session set W) (copyUnmodified cbc depth env m) := by
  refine .get_bind fun s _ => ?_
  refine .bind (.ite (fun _ => keeps_copySectors hW cbc depth env _ _ _ _)
    fun _ => .pure 0) fun _ => .ite_pure <| Keeps.ite_pure ?_
  exact keeps_copySectors hW cbc depth env _ _ _ _

theorem keeps_freeAll (offsets : List UInt64) :
    Keeps (Session set W) (freeAll cbc depth offsets) := by
  induction offsets with
  | nil => exact .pure ()
  | cons offset offsets ih => exact .bind (keeps_freeAnyClusters hW cbc depth _ 1) fun _ => ih

theorem keeps_linkL2 {m : QCowL2Meta}
    (hReach : AllowsPlain W ∨ (m.nbClusters ≠ 0 → set.Reaches m.offset)) :
    Keeps (Session set W) (qcow2AllocClusterLinkL2 cbc depth env m) := by
  refine .ite (fun _ => .pure 0) fun hNb => .get_bind fun s _ => ?_
  refine .bind (keeps_copyUnmodified hW cbc depth env m) fun _ => .ite_pure ?_
  refine .bind (.ite (fun _ => keeps_dependsOnFlush _) fun _ => .pure ()) fun _ => ?_
  refine .bind (keeps_setDependency hW cbc depth _ _) fun _ => ?_
  refine .bind (keeps_getClusterTable hW cbc depth (hReach.imp_right fun h => h hNb)) ?_
  rintro (ret | table)
  · exact .pure _
  refine .bind (keeps_entryMarkDirty _ table) fun _ => ?_
  refine .bind (keeps_tableAt _ table) fun _ => ?_
  refine .bind (keeps_setTableAt _ table _) fun _ => ?_
  refine .bind (keeps_put hW cbc depth _ table) fun _ => .ite_pure ?_
  exact .bind (keeps_freeAll hW cbc depth _) fun _ => .pure 0

/-! ## Discarding -/

theorem keeps_discardEntries (table : Nat) (is : List Nat) :
    Keeps (Session set W) (discardEntries cbc depth table is) := by
  induction is with
  | nil => exact .pure ()
  | cons i is ih =>
    refine .bind (keeps_tableAt _ table) fun _ => .ite (fun _ => ih) fun _ => ?_
    refine .bind (keeps_entryMarkDirty _ table) fun _ => ?_
    refine .bind (keeps_setTableAt _ table _) fun _ => ?_
    exact .bind (keeps_freeAnyClusters hW cbc depth _ 1) fun _ => ih

theorem keeps_discardSingleL2 {offset : UInt64} (hReach : AllowsPlain W ∨ set.Reaches offset)
    (nbClusters : Nat) :
    Keeps (Session set W) (discardSingleL2 cbc depth offset nbClusters) := by
  refine .bind (keeps_getClusterTable hW cbc depth hReach) ?_
  rintro (ret | table)
  · exact .pure _
  refine .get_bind fun s _ => .bind (keeps_discardEntries hW cbc depth table _) fun _ => ?_
  exact .bind (keeps_put hW cbc depth _ table) fun _ => .ite_pure <| Keeps.pure _

theorem keeps_discardLoop (fuel first nbClusters : Nat)
    (hReach : AllowsPlain W ∨ ∀ i, first ≤ i → i < first + nbClusters →
      set.Reaches (UInt64.ofNat (i <<< set.clusterBits))) :
    Keeps (Session set W) (discardLoop cbc depth fuel first nbClusters) := by
  induction fuel generalizing first nbClusters with
  | zero => exact .throw _
  | succ fuel ih =>
    refine .ite (fun _ => .pure 0) fun hNb => .get_bind fun s hs => ?_
    have hFirst : AllowsPlain W ∨ set.Reaches (s.offsetOf first) := by
      rw [offsetOf, hs.clusterBits]
      exact hReach.imp_right fun h => h first (Nat.le_refl _) (by omega)
    refine .bind (keeps_discardSingleL2 hW cbc depth hFirst nbClusters) ?_
    rintro (ret | n)
    · exact .pure _
    · exact ih _ _ (hReach.imp_right fun h i hi hlt => h i (by omega) (by omega))

theorem keeps_discard {sectorNum nbSectors : Nat}
    (hReach : AllowsPlain W ∨ ∀ i, sectorNum * 512 ≤ i <<< set.clusterBits →
      (i + 1) <<< set.clusterBits ≤ (sectorNum + nbSectors) * 512 →
      set.Reaches (UInt64.ofNat (i <<< set.clusterBits))) :
    Keeps (Session set W) (qcow2Discard cbc depth sectorNum nbSectors) := by
  refine .get_bind fun s hs => keeps_discardLoop hW cbc depth depth _ _ ?_
  refine hReach.imp_right fun h i hi hlt => h i ?_ ?_
  · rw [sizeToClusters, clusterSize, hs.clusterSize, hs.clusterBits, Settings.clusterSize,
      Nat.shiftLeft_eq, Nat.one_mul, Nat.shiftRight_eq_div_pow,
      Nat.div_le_iff_le_mul_add_pred (Nat.two_pow_pos _)] at hi
    rw [Nat.shiftLeft_eq, Nat.mul_comm i]
    exact Nat.le_of_add_le_add_right hi
  · rw [hs.clusterBits, Nat.shiftRight_eq_div_pow] at hlt
    rw [Nat.shiftLeft_eq, ← Nat.le_div_iff_mul_le (Nat.two_pow_pos _)]
    omega

end Keeps

end Image

end Lacuna.Qcow2
