import Lacuna.Qcow2.Session

/-!
# qcow2 — reference counts of clusters

`qcow2-refcount.c`: looking a count up, changing counts, and allocating the blocks and
the table that hold them. Changing a count may need a new block, which has a count
itself: the model closes the circle with a bound on the depth of the calls, and the
loops with the same bound.

In private-diff mode the blocks and the table of a grown table are encrypted
before they are written, the hookup of a block and the header are not written
at all, and everything else goes through the caches.
-/

namespace Lacuna.Qcow2

open Lacuna.Lib

variable {Key : Type}

def EIO : Int := 5
def EINVAL : Int := 22

def REFCOUNT_SHIFT : Nat := 1
def QCOW_OFLAG_COPIED : UInt64 := 1 <<< (63 : UInt64)
def QCOW_OFLAG_COMPRESSED : UInt64 := 1 <<< (62 : UInt64)

def be16At (block : List UInt8) (i : Nat) : Nat := beAt 2 block (2 * i)

def setBe16 (block : List UInt8) (i x : Nat) : List UInt8 := storeAt block (2 * i) (beBytes 2 x)

def be64At (table : List UInt8) (i : Nat) : UInt64 := UInt64.ofNat (beAt 8 table (8 * i))

def setBe64 (table : List UInt8) (i : Nat) (x : UInt64) : List UInt8 :=
  storeAt table (8 * i) (beBytes 8 x.toNat)

def be64s (table : List UInt64) : List UInt8 := table.flatMap fun x => beBytes 8 x.toNat

def be64sTo (buf : List UInt8) (n : Nat) : List UInt64 := (List.range n).map (be64At buf)

namespace Image

/-! ## Geometry -/

def clusterSize (s : Image Key) : Nat := s.bs.clusterSize

def sizeToClusters (s : Image Key) (size : Nat) : Nat :=
  (size + (s.clusterSize - 1)) >>> s.clusterBits

def refcountBlockClusters (s : Image Key) : Nat := 1 <<< (s.clusterBits - REFCOUNT_SHIFT)

def refcountTableIndex (s : Image Key) (clusterIndex : Nat) : Nat :=
  clusterIndex >>> (s.clusterBits - REFCOUNT_SHIFT)

/-- `cluster_index & ((1 << (cluster_bits - REFCOUNT_SHIFT)) - 1)`. -/
def blockIndex (s : Image Key) (clusterIndex : Nat) : Nat :=
  clusterIndex % s.refcountBlockClusters

def growSize (min n : Nat) : Nat :=
  if 0 < n ∧ n < min then growSize min ((n * 3 + 1) / 2) else n
termination_by min - n

def nextRefcountTableSize (s : Image Key) (minSize : Nat) : Nat :=
  growSize (minSize >>> (s.clusterBits - 3) + 1)
    (max 1 (s.refcountTable.length >>> (s.clusterBits - 3))) <<< (s.clusterBits - 3)

def inSameRefcountBlock (s : Image Key) (offsetA offsetB : UInt64) : Bool :=
  offsetA.toNat >>> (2 * s.clusterBits - REFCOUNT_SHIFT) =
    offsetB.toNat >>> (2 * s.clusterBits - REFCOUNT_SHIFT)

def offsetOf (s : Image Key) (clusterIndex : Nat) : UInt64 :=
  UInt64.ofNat (clusterIndex <<< s.clusterBits)

/-! ## Looking counts up -/

section Program

variable (cbc : AesCbc Key) (depth : Nat)

def loadRefcountBlock (refcountBlockOffset : UInt64) : Qcow2M Key (Int × Option Nat) :=
  qcow2CacheGet cbc depth .refcountBlockCache refcountBlockOffset

def getRefcount (clusterIndex : Nat) : Qcow2M Key Int := do
  let s ← get
  let refcountBlockOffset := s.refcountTable.getD (s.refcountTableIndex clusterIndex) 0
  if refcountBlockOffset = 0 then return 0
  match ← qcow2CacheGet cbc depth .refcountBlockCache refcountBlockOffset with
  | (ret, none) => return ret
  | (_, some block) => do
    let refcountBlock ← tableAt .refcountBlockCache block
    let ret ← qcow2CachePut cbc depth .refcountBlockCache block
    if ret < 0 then return ret
    return be16At refcountBlock (s.blockIndex clusterIndex)

/-- The loop of `alloc_clusters_noref`: `i` clusters in a row are free so
far. -/
def allocClustersLoop (nbClusters : Nat) : Nat → Nat → Qcow2M Key Int
  | 0, _ => throw .tooDeep
  | fuel + 1, i =>
    if i < nbClusters then do
      let nextClusterIndex ← modifyGet fun s =>
        (s.freeClusterIndex, { s with freeClusterIndex := s.freeClusterIndex + 1 })
      let refcount ← getRefcount cbc depth nextClusterIndex
      if refcount < 0 then return refcount
      allocClustersLoop nbClusters fuel (if refcount ≠ 0 then 0 else i + 1)
    else return 0

def allocClustersNoref (size : Nat) : Qcow2M Key (Except Int UInt64) := do
  let s ← get
  let ret ← allocClustersLoop cbc depth (s.sizeToClusters size) depth 0
  if ret < 0 then return .error ret
  let t ← get
  return .ok (t.offsetOf (t.freeClusterIndex - s.sizeToClusters size))

/-! ## A new refcount block -/

def putBlock : Option Nat → Qcow2M Key Int
  | none => return 0
  | some block => qcow2CachePut cbc depth .refcountBlockCache block

def failBlock (block : Option Nat) (ret : Int) : Qcow2M Key (Int × Option Nat) := do
  let _ ← putBlock cbc depth block
  return (ret, none)

variable (update : UInt64 → Int → Int → Qcow2M Key Int)

/-- The new block in the cache, with the count of its own cluster if it describes itself. -/
def initRefcountBlock (newBlock : UInt64) (clusterIndex : Nat) :
    Qcow2M Key (Int × Option Nat) := do
  let s ← get
  if s.inSameRefcountBlock newBlock (s.offsetOf clusterIndex) then
    match ← qcow2CacheGetEmpty cbc depth .refcountBlockCache newBlock with
    | (ret, none) => return (ret, none)
    | (_, some block) => do
      setTableAt .refcountBlockCache block (setBe16 (List.replicate s.clusterSize 0)
        (s.blockIndex (newBlock.toNat >>> s.clusterBits)) 1)
      return (0, some block)
  else do
    let ret ← update newBlock s.clusterSize 1
    if ret < 0 then return (ret, none)
    let _ ← bdrvFlush
    match ← qcow2CacheGetEmpty cbc depth .refcountBlockCache newBlock with
    | (ret, none) => return (ret, none)
    | (_, some block) => do
      setTableAt .refcountBlockCache block (List.replicate s.clusterSize 0)
      return (0, some block)

/-- In private-diff mode only the table in memory changes. -/
def hookUpBlock (tableIndex : Nat) (newBlock : UInt64) (block : Nat) :
    Qcow2M Key (Int × Option Nat) := do
  let s ← get
  let ret ←
    (if s.bs.cryptMethod ≠ .aesPriv then
      bdrvPwriteSync cbc (s.refcountTableOffset + UInt64.ofNat (tableIndex * 8))
        (.plain (beBytes 8 newBlock.toNat))
    else pure 0)
  if ret < 0 then failBlock cbc depth (some block) ret
  else do
    modify fun s => { s with refcountTable := s.refcountTable.set tableIndex newBlock }
    return (0, some block)

/-! ## A larger refcount table -/

/-- The loop that settles `table_size` and `blocks_clusters`. -/
def settleTableSize (s : Image Key) (blocksUsed : Nat) : Nat → Nat → Option (Nat × Nat)
  | 0, _ => none
  | fuel + 1, tableSize =>
    let rbc := s.refcountBlockClusters
    let tableClusters := s.sizeToClusters tableSize
    let blocksClusters := 1 + (tableClusters + rbc - 1) / rbc
    let metaClusters := tableClusters + blocksClusters
    let next := s.nextRefcountTableSize (blocksUsed + (metaClusters + rbc - 1) / rbc)
    if tableSize = next then some (next, blocksClusters)
    else settleTableSize s blocksUsed fuel next

structure TableLayout where
  tableSize : Nat
  blocksClusters : Nat
  blocksUsed : Nat
  metaOffset : UInt64
  tableOffset : UInt64

def tableLayout (s : Image Key) : Option TableLayout :=
  let rbc := s.refcountBlockClusters
  let blocksUsed := (s.freeClusterIndex + rbc - 1) / rbc
  (settleTableSize s blocksUsed depth (s.nextRefcountTableSize (blocksUsed + 1))).map fun r =>
    { tableSize := r.1
      blocksClusters := r.2
      blocksUsed := blocksUsed
      metaOffset := UInt64.ofNat (blocksUsed * rbc * s.clusterSize)
      tableOffset := UInt64.ofNat (blocksUsed * rbc * s.clusterSize + r.2 * s.clusterSize) }

def newTable (s : Image Key) (l : TableLayout) (tableIndex : Nat) (newBlock : UInt64) :
    List UInt64 :=
  (List.range l.blocksClusters).foldl
    (fun table i => table.set (l.blocksUsed + i)
      (l.metaOffset + UInt64.ofNat (i * s.clusterSize)))
    ((s.refcountTable ++ List.replicate (l.tableSize - s.refcountTable.length) 0).set
      tableIndex newBlock)

/-- One reference for each cluster of the table and of the blocks. -/
def newBlocks (s : Image Key) (l : TableLayout) : List UInt8 :=
  (List.range (l.blocksClusters * s.clusterSize / 2)).flatMap fun i =>
    beBytes 2 (if i < s.sizeToClusters (l.tableSize * 8) + l.blocksClusters then 1 else 0)

/-- Metadata as it goes to the file: encrypted in private-diff mode. -/
def metadataBuf (s : Image Key) (offset : UInt64) (inBuf : List UInt8) (unitSize nbUnits : Nat) :
    FileBuf Key :=
  if s.bs.cryptMethod = .aesPriv then
    .encryptMetadata s.bs.aesniCtx offset inBuf unitSize nbUnits
  else .plain inBuf

def switchTable (l : TableLayout) (table : List UInt64) (newBlock : UInt64) :
    Qcow2M Key (Int × Option Nat) := do
  let s ← get
  modify fun s => { s with refcountTable := table, refcountTableOffset := l.tableOffset }
  let _ ← update s.refcountTableOffset (s.refcountTable.length * 8) (-1)
  modify fun t => { t with freeClusterIndex := s.freeClusterIndex }
  match ← loadRefcountBlock cbc depth newBlock with
  | (ret, none) => return (ret, none)
  -- an `int64_t` offset returned as an `int`
  | (_, some block) => return ((BitVec.ofNat 32 newBlock.toNat).toInt, some block)

def growRefcountTable (tableIndex : Nat) (newBlock : UInt64) :
    Qcow2M Key (Int × Option Nat) := do
  let s ← get
  match tableLayout depth s with
  | none => throw .tooDeep
  | some l =>
    if l.metaOffset.toNat < s.freeClusterIndex * s.clusterSize then throw .abort
    else do
      let table := newTable s l tableIndex newBlock
      let ret ← bdrvPwriteSync cbc l.metaOffset
        (metadataBuf s l.metaOffset (newBlocks s l) s.clusterSize l.blocksClusters)
      if ret < 0 then return (ret, none)
      let ret ← bdrvPwriteSync cbc l.tableOffset
        (metadataBuf s l.tableOffset (be64s table) (l.tableSize * 8) 1)
      if ret < 0 then return (ret, none)
      let ret ←
        (if !s.bs.privDiff then
          bdrvPwriteSync cbc 48 (.plain (beBytes 8 l.tableOffset.toNat ++
            beBytes 4 (s.sizeToClusters (l.tableSize * 8))))
        else pure 0)
      if ret < 0 then return (ret, none)
      switchTable cbc depth update l table newBlock

def allocNewBlock (clusterIndex : Nat) : Qcow2M Key (Int × Option Nat) := do
  let s ← get
  let tableIndex := s.refcountTableIndex clusterIndex
  let _ ← qcow2CacheFlush cbc depth .l2TableCache
  match ← allocClustersNoref cbc depth s.clusterSize with
  | .error ret => return (ret, none)
  | .ok newBlock =>
    match ← initRefcountBlock cbc depth update newBlock clusterIndex with
    | (ret, none) => return (ret, none)
    | (_, some block) => do
      qcow2CacheEntryMarkDirty .refcountBlockCache block
      let ret ← qcow2CacheFlush cbc depth .refcountBlockCache
      if ret < 0 then failBlock cbc depth (some block) ret
      else do
        let s ← get
        if tableIndex < s.refcountTable.length then hookUpBlock cbc depth tableIndex newBlock block
        else do
          let ret ← qcow2CachePut cbc depth .refcountBlockCache block
          if ret < 0 then return (ret, none)
          growRefcountTable cbc depth update tableIndex newBlock

def allocRefcountBlock (clusterIndex : Nat) : Qcow2M Key (Int × Option Nat) := do
  let s ← get
  let refcountBlockOffset := s.refcountTable.getD (s.refcountTableIndex clusterIndex) 0
  if refcountBlockOffset ≠ 0 then loadRefcountBlock cbc depth refcountBlockOffset
  else allocNewBlock cbc depth update clusterIndex

/-! ## Changing counts -/

/-- The block that describes the cluster, in place of the one before it. -/
def switchBlock (clusterIndex : Nat) (oldTableIndex block : Option Nat) :
    Qcow2M Key (Int × Option Nat) := do
  let s ← get
  if oldTableIndex = some (s.refcountTableIndex clusterIndex) then return (0, block)
  let ret ← putBlock cbc depth block
  if ret < 0 then return (ret, none)
  allocRefcountBlock cbc depth update clusterIndex

def addRefcount (block clusterIndex : Nat) (addend : Int) : Qcow2M Key Int := do
  let s ← get
  let refcountBlock ← tableAt .refcountBlockCache block
  let refcount : Int := be16At refcountBlock (s.blockIndex clusterIndex) + addend
  if refcount < 0 ∨ 0xffff < refcount then return -EINVAL
  modify fun s =>
    { s with
      freeClusterIndex :=
        if refcount = 0 ∧ clusterIndex < s.freeClusterIndex then clusterIndex
        else s.freeClusterIndex }
  setTableAt .refcountBlockCache block
    (setBe16 refcountBlock (s.blockIndex clusterIndex) refcount.toNat)
  return 0

/-- The loop of `update_refcount` over the next `n` clusters: the cluster it has come to and the
block it still holds. -/
def updateRefcountLoop (addend : Int) :
    Nat → Nat → Option Nat → Option Nat → Qcow2M Key (Int × Nat × Option Nat)
  | 0, clusterIndex, _, block => return (0, clusterIndex, block)
  | n + 1, clusterIndex, oldTableIndex, block => do
    let s ← get
    let r ← switchBlock cbc depth update clusterIndex oldTableIndex block
    if r.1 < 0 then return (r.1, clusterIndex, r.2)
    match r.2 with
    | none => throw .abort
    | some block => do
      qcow2CacheEntryMarkDirty .refcountBlockCache block
      let ret ← addRefcount block clusterIndex addend
      if ret < 0 then return (ret, clusterIndex, some block)
      updateRefcountLoop addend n (clusterIndex + 1) (some (s.refcountTableIndex clusterIndex))
        (some block)

def updateRefcount : Nat → UInt64 → Int → Int → Qcow2M Key Int
  | 0, _, _, _ => throw .tooDeep
  | fuel + 1, offset, length, addend =>
    if length < 0 then return -EINVAL
    else if length = 0 then return 0
    else do
      let _ ← (if addend < 0 then
        qcow2CacheSetDependency cbc depth .refcountBlockCache .l2TableCache else pure 0)
      let s ← get
      let start := offset.toNat >>> s.clusterBits
      let last := (offset.toNat + length.toNat - 1) >>> s.clusterBits
      let r ← updateRefcountLoop cbc depth (updateRefcount fuel) addend (last + 1 - start) start
        none none
      let wret ← putBlock cbc depth r.2.2
      if wret < 0 then return (if r.1 < 0 then r.1 else wret)
      let _ ← (if r.1 < 0 then
        updateRefcount fuel offset ((r.2.1 <<< s.clusterBits : Nat) - offset.toNat) (-addend)
        else pure 0)
      return r.1

def updateClusterRefcount (clusterIndex : Nat) (addend : Int) : Qcow2M Key Int := do
  let s ← get
  let ret ← updateRefcount cbc depth depth (s.offsetOf clusterIndex) 1 addend
  if ret < 0 then return ret
  let _ ← bdrvFlush
  getRefcount cbc depth clusterIndex

/-! ## Allocating and freeing clusters -/

def qcow2AllocClusters (size : Nat) : Qcow2M Key (Except Int UInt64) := do
  match ← allocClustersNoref cbc depth size with
  | .error ret => return .error ret
  | .ok offset => do
    let ret ← updateRefcount cbc depth depth offset size 1
    if ret < 0 then return .error ret
    return .ok offset

def qcow2FreeClusters (offset : UInt64) (size : Nat) : Qcow2M Key Unit := do
  let _ ← updateRefcount cbc depth depth offset size (-1)
  return ()

def csizeShift (s : Image Key) : Nat := 62 - (s.clusterBits - 8)

def nbCsectors (s : Image Key) (offset : UInt64) : Nat :=
  (offset.toNat >>> s.csizeShift) % (1 <<< (s.clusterBits - 8)) + 1

def compressedOffset (s : Image Key) (offset : UInt64) : UInt64 :=
  UInt64.ofNat (offset.toNat % (1 <<< s.csizeShift) / 512 * 512)

def qcow2FreeAnyClusters (clusterOffset : UInt64) (nbClusters : Nat) : Qcow2M Key Unit := do
  let s ← get
  if clusterOffset &&& QCOW_OFLAG_COMPRESSED ≠ 0 then
    qcow2FreeClusters cbc depth (s.compressedOffset clusterOffset)
      (s.nbCsectors clusterOffset * 512)
  else qcow2FreeClusters cbc depth clusterOffset (nbClusters <<< s.clusterBits)

end Program

/-! ## The invariant of a session -/

section Keeps

variable {set : Settings Key} {W : FileWrite Key → Prop} (hW : WriteRules set W)
  (cbc : AesCbc Key) (depth : Nat)

include hW

theorem keeps_getRefcount (clusterIndex : Nat) :
    Keeps (Session set W) (getRefcount cbc depth clusterIndex) := by
  refine .get_bind fun s _ => .ite_pure ?_
  refine .bind (keeps_doGet hW cbc depth _ _ true) ?_
  rintro ⟨ret, _ | block⟩
  · exact .pure ret
  · refine .bind (keeps_tableAt _ block) fun _ => ?_
    exact .bind (keeps_put hW cbc depth _ block) fun _ => .ite_pure <| Keeps.pure _

theorem keeps_allocClustersLoop (nbClusters fuel i : Nat) :
    Keeps (Session set W) (allocClustersLoop cbc depth nbClusters fuel i) := by
  induction fuel generalizing i with
  | zero => exact .throw _
  | succ fuel ih =>
    refine .ite (fun _ => ?_) fun _ => .pure 0
    refine .bind (.modifyGet fun s h => h.congr rfl rfl rfl rfl rfl) fun next => ?_
    exact .bind (keeps_getRefcount hW cbc depth next) fun _ => .ite_pure <| ih _

theorem keeps_allocClustersNoref (size : Nat) :
    Keeps (Session set W) (allocClustersNoref cbc depth size) := by
  refine .get_bind fun s _ => ?_
  refine .bind (keeps_allocClustersLoop hW cbc depth _ depth 0) fun _ => .ite_pure ?_
  exact .get_bind fun t _ => .pure _

theorem keeps_putBlock (block : Option Nat) : Keeps (Session set W) (putBlock cbc depth block) := by
  cases block with
  | none => exact .pure 0
  | some block => exact keeps_put hW cbc depth _ block

theorem keeps_failBlock (block : Option Nat) (ret : Int) :
    Keeps (Session set W) (failBlock cbc depth block ret) :=
  .bind (keeps_putBlock hW cbc depth block) fun _ => .pure _

theorem keeps_getEmpty_fill {c : CacheId} {offset : UInt64} {table : List UInt8} :
    Keeps (Session set W) (do
      match ← qcow2CacheGetEmpty cbc depth c offset with
      | (ret, none) => return (ret, none)
      | (_, some i) => do
        setTableAt c i table
        return ((0 : Int), some i)) := by
  refine .bind (keeps_doGet hW cbc depth c offset false) ?_
  rintro ⟨ret, _ | i⟩
  · exact .pure _
  · exact .bind (keeps_setTableAt c i table) fun _ => .pure _

theorem keeps_hookUpBlock (tableIndex : Nat) (newBlock : UInt64)
    (block : Nat) : Keeps (Session set W) (hookUpBlock cbc depth tableIndex newBlock block) := by
  refine .get_bind fun s hs => ?_
  rw [if_neg (not_not.mpr hs.mode)]
  refine .bind (.pure 0) fun ret =>
    .ite (fun _ => keeps_failBlock hW cbc depth _ ret) fun _ => ?_
  exact .bind (.modify fun s h => h.congr rfl rfl rfl rfl rfl) fun _ => .pure _

theorem keeps_writeMetadata {s : Image Key} (hs : Session set W s) (offset : UInt64)
    (inBuf : List UInt8) (unitSize nbUnits : Nat) :
    Keeps (Session set W)
      (bdrvPwriteSync cbc offset (metadataBuf s offset inBuf unitSize nbUnits)) := by
  refine keeps_bdrvPwriteSync cbc ?_
  rw [metadataBuf, if_pos hs.mode, hs.key]
  exact hW.encryptMetadata offset inBuf unitSize nbUnits

section Update

variable {update : UInt64 → Int → Int → Qcow2M Key Int}
  (hUpdate : ∀ offset length addend, Keeps (Session set W) (update offset length addend))

include hUpdate

theorem keeps_initRefcountBlock (newBlock : UInt64) (clusterIndex : Nat) :
    Keeps (Session set W) (initRefcountBlock cbc depth update newBlock clusterIndex) := by
  refine .get_bind fun s _ => .ite (fun _ => keeps_getEmpty_fill hW cbc depth) fun _ => ?_
  refine .bind (hUpdate _ _ _) fun _ => .ite_pure ?_
  exact .bind keeps_bdrvFlush fun _ => keeps_getEmpty_fill hW cbc depth

theorem keeps_switchTable (l : TableLayout) (table : List UInt64) (newBlock : UInt64) :
    Keeps (Session set W) (switchTable cbc depth update l table newBlock) := by
  refine .get_bind fun s _ => ?_
  refine .bind (.modify fun s h => h.congr rfl rfl rfl rfl rfl) fun _ => ?_
  refine .bind (hUpdate _ _ _) fun _ => ?_
  refine .bind (.modify fun s h => h.congr rfl rfl rfl rfl rfl) fun _ => ?_
  refine .bind (keeps_doGet hW cbc depth _ newBlock true) ?_
  rintro ⟨ret, _ | block⟩ <;> exact .pure _

theorem keeps_growRefcountTable (tableIndex : Nat) (newBlock : UInt64) :
    Keeps (Session set W) (growRefcountTable cbc depth update tableIndex newBlock) := by
  refine .get_bind fun s hs => ?_
  cases tableLayout depth s with
  | none => exact .throw _
  | some l =>
    refine .ite (fun _ => .throw _) fun _ => ?_
    refine .bind (keeps_writeMetadata hW cbc hs _ _ _ _) fun _ => .ite_pure ?_
    refine .bind (keeps_writeMetadata hW cbc hs _ _ _ _) fun _ => .ite_pure ?_
    rw [hs.privDiff]
    refine .bind (.pure 0) fun _ => .ite_pure ?_
    exact keeps_switchTable hW cbc depth hUpdate l _ newBlock

theorem keeps_allocNewBlock (clusterIndex : Nat) :
    Keeps (Session set W) (allocNewBlock cbc depth update clusterIndex) := by
  refine .get_bind fun s _ => ?_
  refine .bind (keeps_qcow2CacheFlush hW cbc depth _) fun _ => ?_
  refine .bind (keeps_allocClustersNoref hW cbc depth _) ?_
  rintro (ret | newBlock)
  · exact .pure _
  refine .bind (keeps_initRefcountBlock hW cbc depth hUpdate newBlock clusterIndex) ?_
  rintro ⟨ret, _ | block⟩
  · exact .pure _
  refine .bind (keeps_entryMarkDirty _ block) fun _ => ?_
  refine .bind (keeps_qcow2CacheFlush hW cbc depth _) fun ret =>
    .ite (fun _ => keeps_failBlock hW cbc depth _ ret) fun _ => ?_
  refine .get_bind fun s _ =>
    .ite (fun _ => keeps_hookUpBlock hW cbc depth _ newBlock block) fun _ => ?_
  refine .bind (keeps_put hW cbc depth _ block) fun _ => .ite_pure ?_
  exact keeps_growRefcountTable hW cbc depth hUpdate _ newBlock

theorem keeps_allocRefcountBlock (clusterIndex : Nat) :
    Keeps (Session set W) (allocRefcountBlock cbc depth update clusterIndex) :=
  .get_bind fun _ _ => .ite (fun _ => keeps_doGet hW cbc depth _ _ true) fun _ =>
    keeps_allocNewBlock hW cbc depth hUpdate clusterIndex

theorem keeps_switchBlock (clusterIndex : Nat) (oldTableIndex block : Option Nat) :
    Keeps (Session set W) (switchBlock cbc depth update clusterIndex oldTableIndex block) := by
  refine .get_bind fun s _ => .ite_pure ?_
  refine .bind (keeps_putBlock hW cbc depth block) fun _ => .ite_pure ?_
  exact keeps_allocRefcountBlock hW cbc depth hUpdate clusterIndex

omit hW hUpdate in
theorem keeps_addRefcount (block clusterIndex : Nat) (addend : Int) :
    Keeps (Session set W) (addRefcount block clusterIndex addend) := by
  refine .get_bind fun s _ => .bind (keeps_tableAt _ block) fun _ => .ite_pure ?_
  refine .bind (.modify fun s h => h.congr rfl rfl rfl rfl rfl) fun _ => ?_
  exact .bind (keeps_setTableAt _ block _) fun _ => .pure 0

theorem keeps_updateRefcountLoop (addend : Int) (n clusterIndex : Nat)
    (oldTableIndex block : Option Nat) :
    Keeps (Session set W)
      (updateRefcountLoop cbc depth update addend n clusterIndex oldTableIndex block) := by
  induction n generalizing clusterIndex oldTableIndex block with
  | zero => exact .pure _
  | succ n ih =>
    refine .get_bind fun s _ => ?_
    refine .bind (keeps_switchBlock hW cbc depth hUpdate clusterIndex _ block) ?_
    rintro ⟨ret, _ | block⟩
    · exact .ite_pure <| Keeps.throw _
    · refine .ite_pure <| Keeps.bind (keeps_entryMarkDirty _ block) fun _ => ?_
      exact .bind (keeps_addRefcount block clusterIndex addend) fun _ =>
        .ite_pure <| ih _ _ _

end Update

theorem keeps_updateRefcount (fuel : Nat) (offset : UInt64) (length addend : Int) :
    Keeps (Session set W) (updateRefcount cbc depth fuel offset length addend) := by
  induction fuel generalizing offset length addend with
  | zero => exact .throw _
  | succ fuel ih =>
    refine .ite_pure <| Keeps.ite_pure ?_
    refine .bind (.ite (fun _ => keeps_setDependency hW cbc depth _ _) fun _ => .pure 0) fun _ => ?_
    refine .get_bind fun s _ => ?_
    refine .bind (keeps_updateRefcountLoop hW cbc depth ih addend _ _ none none) fun r => ?_
    refine .bind (keeps_putBlock hW cbc depth _) fun _ => .ite_pure ?_
    exact .bind (.ite (fun _ => ih _ _ _) fun _ => .pure 0) fun _ => .pure _

theorem keeps_updateClusterRefcount (clusterIndex : Nat) (addend : Int) :
    Keeps (Session set W) (updateClusterRefcount cbc depth clusterIndex addend) := by
  refine .get_bind fun s _ => ?_
  refine .bind (keeps_updateRefcount hW cbc depth depth _ 1 addend) fun _ =>
    .ite_pure ?_
  exact .bind keeps_bdrvFlush fun _ => keeps_getRefcount hW cbc depth clusterIndex

theorem keeps_allocClusters (size : Nat) :
    Keeps (Session set W) (qcow2AllocClusters cbc depth size) := by
  refine .bind (keeps_allocClustersNoref hW cbc depth size) ?_
  rintro (ret | offset)
  · exact .pure _
  · exact .bind (keeps_updateRefcount hW cbc depth depth offset size 1) fun _ =>
      .ite_pure <| Keeps.pure _

theorem keeps_freeClusters (offset : UInt64) (size : Nat) :
    Keeps (Session set W) (qcow2FreeClusters cbc depth offset size) :=
  .bind (keeps_updateRefcount hW cbc depth depth offset size (-1)) fun _ => .pure ()

theorem keeps_freeAnyClusters (clusterOffset : UInt64) (nbClusters : Nat) :
    Keeps (Session set W) (qcow2FreeAnyClusters cbc depth clusterOffset nbClusters) :=
  .get_bind fun _ _ => .ite (fun _ => keeps_freeClusters hW cbc depth _ _) fun _ =>
    keeps_freeClusters hW cbc depth _ _

end Keeps

end Image

end Lacuna.Qcow2
