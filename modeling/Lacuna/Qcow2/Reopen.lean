import Lacuna.Qcow2.Coherence
import Lacuna.Qcow2.Driver

/-!
# qcow2 — opening an image in private-diff mode

`qcow2_open` reads the header, the L1 table and the refcount table in
plaintext, and switches the image to private-diff mode
(`qcow2_refcount_init`). From then on every refcount block that is loaded is
decrypted, also those that were in the image before: `get_refcount` returns
what the decryption makes of a block, under the IV of offset 0.
-/

namespace Lacuna.Qcow2

open Lacuna.Lib

variable {Key : Type}

variable {file : Nat → UInt8} {s t : Image Key} {ret : Int} {writethrough : Bool}

def ENOMEM : Int := 12

def QCOW_MAGIC : Nat := 0x514649fb
def QCOW_VERSION : Nat := 2
def QCOW_CRYPT_AES : Nat := 1
def MIN_CLUSTER_BITS : Nat := 9
def MAX_CLUSTER_BITS : Nat := 21
def L2_CACHE_SIZE : Nat := 16
def REFCOUNT_CACHE_SIZE : Nat := 4

/-! ## The header -/

structure QCowHeader where
  magic : Nat
  version : Nat
  clusterBits : Nat
  size : Nat
  cryptMethod : Nat
  l1Size : Nat
  l1TableOffset : UInt64
  refcountTableOffset : UInt64
  refcountTableClusters : Nat
  snapshotsOffset : UInt64

def parseHeader (buf : List UInt8) : QCowHeader where
  magic := beAt 4 buf 0
  version := beAt 4 buf 4
  clusterBits := beAt 4 buf 20
  size := beAt 8 buf 24
  cryptMethod := beAt 4 buf 32
  l1Size := beAt 4 buf 36
  l1TableOffset := UInt64.ofNat (beAt 8 buf 40)
  refcountTableOffset := UInt64.ofNat (beAt 8 buf 48)
  refcountTableClusters := beAt 4 buf 56
  snapshotsOffset := UInt64.ofNat (beAt 8 buf 64)

def QCowHeader.l1VmStateIndex (h : QCowHeader) : Nat :=
  let shift := h.clusterBits + (h.clusterBits - 3)
  (h.size + (1 <<< shift) - 1) >>> shift

def QCowHeader.refcountTableSize (h : QCowHeader) : Nat :=
  h.refcountTableClusters <<< (h.clusterBits - 3)

namespace Image

/-! ## Opening -/

def privMode (bs : BlockDriverState Key) : CryptMethod :=
  if bs.cryptMethodHeader = .aes ∧ bs.privDiff = true then .aesPriv else bs.cryptMethodHeader

def qcow2RefcountInit (refcountTableSize : Nat) : Qcow2M Key Int := do
  let s ← get
  if 0 < refcountTableSize then do
    let r ← bdrvPread s.refcountTableOffset (refcountTableSize * 8)
    if r.1 < 0 then return -ENOMEM
    if s.bs.cryptMethodHeader = .aesPriv then throw .abort
    else do
      modifyBs fun bs => { bs with cryptMethodHeader := privMode bs }
      modify fun s => { s with refcountTable := be64sTo r.2 refcountTableSize }
      return 0
  else do
    modify fun s => { s with refcountTable := [] }
    return 0

/-- The fields that `qcow2_open` takes from the header. -/
def setHeader (header : QCowHeader) : Qcow2M Key Unit :=
  modify fun s =>
    { s with
      bs :=
        { s.bs with
          clusterSize := 1 <<< header.clusterBits
          cryptMethod := .none
          cryptMethodHeader := if header.cryptMethod = QCOW_CRYPT_AES then .aes else .none }
      clusterBits := header.clusterBits
      totalSectors := header.size / 512
      refcountTableOffset := header.refcountTableOffset
      snapshotsOffset := header.snapshotsOffset
      l1TableOffset := header.l1TableOffset
      freeClusterIndex := 0
      requests := fun _ => none
      clusterAllocs := [] }

/-- The L1 table and empty caches; `junk` is what new buffers hold. -/
def setTables (l1Table : List UInt64) (writethrough : Bool)
    (junk : CacheId → Nat → List UInt8) : Qcow2M Key Unit :=
  modify fun s =>
    { s with
      l1Table := l1Table
      bs :=
        { s.bs with
          l2TableCache :=
            qcow2CacheCreate ((List.range L2_CACHE_SIZE).map (junk .l2TableCache)) writethrough
          refcountBlockCache :=
            qcow2CacheCreate ((List.range REFCOUNT_CACHE_SIZE).map (junk .refcountBlockCache))
              writethrough } }

def checkHeader (header : QCowHeader) : Int :=
  if header.magic ≠ QCOW_MAGIC then -EINVAL
  else if header.version ≠ QCOW_VERSION then -ENOTSUP
  else if header.clusterBits < MIN_CLUSTER_BITS ∨ MAX_CLUSTER_BITS < header.clusterBits then
    -EINVAL
  else if QCOW_CRYPT_AES < header.cryptMethod then -EINVAL
  else if header.l1Size < header.l1VmStateIndex then -EINVAL
  else 0

def openTables (header : QCowHeader) (writethrough : Bool) (junk : CacheId → Nat → List UInt8) :
    Qcow2M Key Int := do
  setHeader header
  let r ←
    (if 0 < header.l1Size then bdrvPread header.l1TableOffset (header.l1Size * 8)
    else pure (0, []))
  if r.1 < 0 then return r.1
  setTables (be64sTo r.2 header.l1Size) writethrough junk
  qcow2RefcountInit header.refcountTableSize

/-- `names` is what reading the extensions, the name of the backing file and the snapshots comes
to. -/
def qcow2Open (writethrough : Bool) (junk : CacheId → Nat → List UInt8)
    (names : Except Int (Nat × List QCowSnapshot × Nat)) : Qcow2M Key Int := do
  let r ← bdrvPread 0 72
  if r.1 < 0 then return r.1
  let header := parseHeader r.2
  if checkHeader header < 0 then return checkHeader header
  let ret ← openTables header writethrough junk
  if ret ≠ 0 then return ret
  match names with
  | .error ret => return ret
  | .ok (ret, snapshots, snapshotsSize) => do
    modify fun s => { s with snapshots := snapshots, snapshotsSize := snapshotsSize }
    return ret

end Image

/-! ## The image on disk -/

def diskHeader (file : Nat → UInt8) : QCowHeader := parseHeader (readAt file 0 72)

def diskRefcountTable (file : Nat → UInt8) : List UInt64 :=
  let header := diskHeader file
  be64sTo (readAt file header.refcountTableOffset.toNat (header.refcountTableSize * 8))
    header.refcountTableSize

def diskCluster (file : Nat → UInt8) (offset : UInt64) : List UInt8 :=
  readAt file offset.toNat (1 <<< (diskHeader file).clusterBits)

/-- The reference count of a cluster, with the blocks as given. -/
def refcountIn (file : Nat → UInt8) (block : UInt64 → List UInt8) (clusterIndex : Nat) : Nat :=
  let bits := (diskHeader file).clusterBits - REFCOUNT_SHIFT
  let offset := (diskRefcountTable file).getD (clusterIndex >>> bits) 0
  if offset = 0 then 0 else be16At (block offset) (clusterIndex % (1 <<< bits))

def storedRefcount (file : Nat → UInt8) (clusterIndex : Nat) : Nat :=
  refcountIn file (diskCluster file) clusterIndex

/-- What a stored cluster becomes in the cache: decrypted, under the IV of offset 0. -/
def loadedCluster (cbc : AesCbc Key) (key : Key) (file : Nat → UInt8) (offset : UInt64) :
    List UInt8 :=
  qcow2EncryptMetadata cbc 0 (diskCluster file offset) (1 <<< (diskHeader file).clusterBits) 1
    false key

theorem length_diskCluster (file : Nat → UInt8) (offset : UInt64) :
    (diskCluster file offset).length = 1 <<< (diskHeader file).clusterBits :=
  length_readAt ..

theorem loadedCluster_eq (cbc : AesCbc Key) (key : Key) (file : Nat → UInt8) (offset : UInt64) :
    loadedCluster cbc key file offset =
      cbc.crypt key (setIv 0 true) false (diskCluster file offset) :=
  qcow2EncryptMetadata_one cbc 0 false key (length_diskCluster file offset)

theorem length_loadedCluster {cbc : AesCbc Key} {key : Key} {offset : UInt64}
    (hBits : MIN_CLUSTER_BITS ≤ (diskHeader file).clusterBits) :
    (loadedCluster cbc key file offset).length = 1 <<< (diskHeader file).clusterBits := by
  rw [loadedCluster_eq, cbc.length_crypt, length_diskCluster]
  · rfl
  · rw [length_diskCluster, Nat.one_shiftLeft]
    exact Nat.pow_dvd_pow 2 (Nat.le_trans (by decide : 4 ≤ MIN_CLUSTER_BITS) hBits)

theorem refcountIn_congr {block block' : UInt64 → List UInt8}
    (h : ∀ offset ∈ diskRefcountTable file, offset ≠ 0 → block offset = block' offset) (i : Nat) :
    refcountIn file block i = refcountIn file block' i := by
  simp only [refcountIn]
  split
  · rfl
  · rename_i h0
    rw [h _ ?_ h0]
    rw [List.getD_eq_getElem?_getD] at h0 ⊢
    cases hGet : (diskRefcountTable file)[i >>> ((diskHeader file).clusterBits - REFCOUNT_SHIFT)]? with
    | none => exact absurd (by rw [hGet, Option.getD_none]) h0
    | some offset => exact List.mem_of_getElem? hGet

structure Image.HeaderSet (file : Nat → UInt8) (s : Image Key) : Prop where
  file_eq : s.bs.file = file
  io : ∀ n, 0 ≤ s.bs.io n
  clusterBits : s.clusterBits = (diskHeader file).clusterBits
  minBits : MIN_CLUSTER_BITS ≤ s.clusterBits
  clusterSize : s.bs.clusterSize = 1 <<< s.clusterBits

structure Image.Opened (file : Nat → UInt8) (s : Image Key) : Prop extends
    Image.HeaderSet file s where
  refcountTable : s.refcountTable = diskRefcountTable file
  caches : ∃ tables writethrough, tables.length = REFCOUNT_CACHE_SIZE ∧
    s.bs.refcountBlockCache = qcow2CacheCreate tables writethrough

theorem Image.HeaderSet.ioNext (h : s.HeaderSet file) :
    { s with bs := s.bs.ioNext }.HeaderSet file :=
  ⟨h.file_eq, fun n => h.io (n + 1), h.clusterBits, h.minBits, h.clusterSize⟩

theorem qcow2RefcountInit_opened {n : Nat}
    (h : Image.qcow2RefcountInit n s = .ok ret t) (hRet : 0 ≤ ret) (hs : s.HeaderSet file)
    (hTable : be64sTo (readAt file s.refcountTableOffset.toNat (n * 8)) n = diskRefcountTable file)
    (hCaches : ∃ tables writethrough, tables.length = REFCOUNT_CACHE_SIZE ∧
      s.bs.refcountBlockCache = qcow2CacheCreate tables writethrough) : t.Opened file := by
  rw [← hs.file_eq] at hTable
  change (if 0 < n then _ else _ : Qcow2M Key Int) s = .ok ret t at h
  split at h
  · change (if s.bs.io 0 < 0 then _ else if s.bs.cryptMethodHeader = .aesPriv then _ else _ :
      Qcow2M Key Int) _ = .ok ret t at h
    split at h
    · cases h
      exact absurd hRet (by decide)
    split at h
    · cases h
    · cases h
      exact ⟨⟨hs.file_eq, hs.ioNext.io, hs.clusterBits, hs.minBits, hs.clusterSize⟩,
        hTable.trans (by rw [hs.file_eq]), hCaches⟩
  · cases h
    cases (by omega : n = 0)
    exact ⟨⟨hs.file_eq, hs.io, hs.clusterBits, hs.minBits, hs.clusterSize⟩,
      hTable.trans (by rw [hs.file_eq]), hCaches⟩

theorem checkHeader_ok {header : QCowHeader} (h : ¬ Image.checkHeader header < 0) :
    MIN_CLUSTER_BITS ≤ header.clusterBits := by
  unfold Image.checkHeader at h
  by_contra hBits
  rw [if_pos (Or.inl (Nat.lt_of_not_le hBits))] at h
  split at h
  · exact h (by decide)
  · split at h <;> exact h (by decide)

theorem openTables_opened
    {junk : CacheId → Nat → List UInt8}
    (h : Image.openTables (diskHeader file) writethrough junk s = .ok ret t) (hRet : 0 ≤ ret)
    (hFile : s.bs.file = file) (hIo : ∀ n, 0 ≤ s.bs.io n)
    (hBits : MIN_CLUSTER_BITS ≤ (diskHeader file).clusterBits) : t.Opened file := by
  obtain ⟨⟨⟩, u, hHeader, h⟩ := bind_eq_ok.mp h
  have hu : u.HeaderSet file ∧ u.refcountTableOffset = (diskHeader file).refcountTableOffset := by
    cases hHeader
    exact ⟨⟨hFile, hIo, rfl, hBits, rfl⟩, rfl⟩
  obtain ⟨r, v, hRead, h⟩ := bind_eq_ok.mp h
  have hv : v.HeaderSet file ∧ v.refcountTableOffset = u.refcountTableOffset := by
    split at hRead
    · cases hRead
      exact ⟨hu.1.ioNext, rfl⟩
    · cases hRead
      exact ⟨hu.1, rfl⟩
  split at h
  · cases h
    exact absurd hRet (not_le.mpr ‹r.1 < 0›)
  obtain ⟨⟨⟩, w, hTables, h⟩ := bind_eq_ok.mp h
  cases hTables
  refine qcow2RefcountInit_opened h hRet ⟨hv.1.file_eq, hv.1.io, hv.1.clusterBits, hv.1.minBits,
    hv.1.clusterSize⟩ ?_ ⟨_, writethrough, ?_, rfl⟩
  · show be64sTo (readAt file v.refcountTableOffset.toNat _) _ = _
    rw [hv.2, hu.2]
    rfl
  · rw [List.length_map, List.length_range]

theorem qcow2Open_opened
    {junk : CacheId → Nat → List UInt8} {names : Except Int (Nat × List QCowSnapshot × Nat)} (hIo : ∀ n, 0 ≤ s.bs.io n)
    (h : Image.qcow2Open writethrough junk names s = .ok ret t) (hRet : 0 ≤ ret) :
    t.Opened s.bs.file := by
  change (if s.bs.io 0 < 0 then _ else if Image.checkHeader (diskHeader s.bs.file) < 0 then _
    else _ : Qcow2M Key Int) _ = .ok ret t at h
  rw [if_neg (not_lt.mpr (hIo 0))] at h
  split at h
  · cases h
    exact absurd hRet (not_le.mpr ‹_›)
  rename_i hCheck
  obtain ⟨ret', u, hTables, h⟩ := bind_eq_ok.mp h
  change Image.openTables (diskHeader s.bs.file) writethrough junk _ = _ at hTables
  have hOpened := fun hRet => openTables_opened hTables hRet rfl (fun n => hIo (n + 1))
    (checkHeader_ok hCheck)
  split at h
  · cases h
    exact hOpened hRet
  · rename_i hZero
    have hu := hOpened (by omega)
    cases names with
    | error ret => cases h; exact hu
    | ok r =>
      cases h
      exact ⟨⟨hu.file_eq, hu.io, hu.clusterBits, hu.minBits, hu.clusterSize⟩, hu.refcountTable,
        hu.caches⟩

/-! ## Loading refcount blocks -/

section Run

variable {cbc : AesCbc Key} {s : Image Key} {c : CacheId} {i : Nat} {e : Qcow2CachedTable}

theorem run_entryFlush_clean (flush : CacheId → Qcow2M Key Int) (he : s.bs.entry c i = some e)
    (hDirty : e.dirty = false) : Image.qcow2CacheEntryFlush cbc flush c i s = .ok 0 s := by
  rw [BlockDriverState.entry] at he
  rw [Image.qcow2CacheEntryFlush, run_bind (Image.run_getBs s), he]
  dsimp only
  rw [hDirty]
  rfl

theorem run_tableAt (he : s.bs.entry c i = some e) : Image.tableAt c i s = .ok e.table s := by
  rw [BlockDriverState.entry] at he
  rw [Image.tableAt, run_bind (Image.run_getBs s), he]
  rfl

theorem run_put_clean (depth : Nat) (he : s.bs.entry c i = some e) (hRef : e.ref ≠ 0)
    (hDirty : e.dirty = false) : Image.qcow2CachePut cbc depth c i s =
      .ok 0 { s with bs := s.bs.modifyEntry c i fun e => { e with ref := e.ref - 1 } } := by
  have hPut : (s.bs.modifyEntry c i fun e => { e with ref := e.ref - 1 }).entry c i =
      some { e with ref := e.ref - 1 } := by
    rw [BlockDriverState.entry_modifyEntry_self, he, Option.map_some]
  rw [BlockDriverState.entry] at he
  rw [Image.qcow2CachePut, run_bind (Image.run_getBs s), he]
  dsimp only
  rw [if_neg hRef]
  show (if _ then Image.qcow2CacheEntryFlush cbc _ c i else pure 0 : Qcow2M Key Int)
    { s with bs := s.bs.modifyEntry c i fun e => { e with ref := e.ref - 1 } } = _
  split
  · exact run_entryFlush_clean _ hPut hDirty
  · rfl

end Run

/-- As long as refcount blocks have only been loaded: a cached block is what `loadedCluster`
says. -/
structure Loaded (cbc : AesCbc Key) (key : Key) (file : Nat → UInt8) (s : Image Key) : Prop
    extends Image.HeaderSet file s where
  refcountTable : s.refcountTable = diskRefcountTable file
  mode : s.bs.cryptMethod = .aesPriv
  header : s.bs.cryptMethodHeader ≠ .aes
  key_eq : s.bs.aesniCtx = key
  entries : ∀ i e, s.bs.entry .refcountBlockCache i = some e → e.ref = 0 ∧ e.dirty = false ∧
    (e.offset ≠ 0 → e.table = loadedCluster cbc key file e.offset)

section Loaded

variable {cbc : AesCbc Key} {key : Key} {file : Nat → UInt8} {s : Image Key}

variable {b : BlockDriverState Key} {offset : UInt64} {k : Qcow2Cache} {clusterIndex : Nat}
  {u : Image Key}

theorem Loaded.setEntry (h : Loaded cbc key file s) {i : Nat}
    {f : Qcow2CachedTable → Qcow2CachedTable} (hMode : SameMode s.bs b)
    (hHeader : b.cryptMethodHeader = s.bs.cryptMethodHeader) (hFile : b.file = s.bs.file)
    (hIo : ∀ n, 0 ≤ b.io n)
    (hEntries : ∀ j, (b.entry .refcountBlockCache j).map (fun e => { e with cacheHits := 0 }) =
      (s.bs.entry .refcountBlockCache j).map fun e => { e with cacheHits := 0 })
    (hNew : ∀ e, e.ref = 0 → e.dirty = false →
      (e.offset ≠ 0 → e.table = loadedCluster cbc key file e.offset) →
      (f e).ref = 0 ∧ (f e).dirty = false ∧
        ((f e).offset ≠ 0 → (f e).table = loadedCluster cbc key file (f e).offset)) :
    Loaded cbc key file { s with bs := b.modifyEntry .refcountBlockCache i f } := by
  have hOld : ∀ j e, b.entry .refcountBlockCache j = some e → e.ref = 0 ∧ e.dirty = false ∧
      (e.offset ≠ 0 → e.table = loadedCluster cbc key file e.offset) := by
    intro j e he
    have hj := hEntries j
    rw [he, Option.map_some, eq_comm, Option.map_eq_some_iff] at hj
    obtain ⟨e₀, he₀, hEq⟩ := hj
    have hOk := h.entries j e₀ he₀
    simp only [Qcow2CachedTable.mk.injEq] at hEq
    obtain ⟨hTable, hOff, hDirty, -, hRef⟩ := hEq
    rw [← hTable, ← hOff, ← hDirty, ← hRef]
    exact hOk
  refine ⟨⟨hFile.trans h.file_eq, hIo, h.clusterBits, h.minBits,
    hMode.clusterSize.trans h.clusterSize⟩, h.refcountTable, hMode.cryptMethod.trans h.mode,
    (hHeader ▸ h.header : b.cryptMethodHeader ≠ .aes), hMode.aesniCtx.trans h.key_eq, ?_⟩
  intro j e he
  by_cases hj : j = i
  · subst hj
    rw [BlockDriverState.entry_modifyEntry_self, Option.map_eq_some_iff] at he
    obtain ⟨e₀, he₀, rfl⟩ := he
    obtain ⟨hRef, hDirty, hTable⟩ := hOld j e₀ he₀
    exact hNew e₀ hRef hDirty hTable
  · rw [BlockDriverState.entry_modifyEntry_of_ne b f (Or.inr hj)] at he
    exact hOld j e he

variable (depth : Nat) {i : Nat} {e : Qcow2CachedTable}

theorem run_get_found
    (hFind : findOffset (s.bs.cache .refcountBlockCache) offset = some i) :
    Image.qcow2CacheGet cbc depth .refcountBlockCache offset s =
      .ok (0, some i) { s with bs := (doGetFound s.bs .refcountBlockCache i).2.2 } := by
  rw [Image.qcow2CacheGet, Image.qcow2CacheDoGet, run_bind (Image.run_getBs s), hFind]
  rfl

def readInto (b : BlockDriverState Key) (i : Nat) (offset : UInt64) (table : List UInt8) :
    BlockDriverState Key :=
  b.ioNext.modifyEntry .refcountBlockCache i fun e =>
    { e with table := table, offset := offset, cacheHits := 33, ref := e.ref + 1 }

/-- The block is decrypted under the IV of the entry's offset, which has just been reset. -/
theorem doGetRead_reset
    (he : b.entry .refcountBlockCache i = some e) (hOff : e.offset = 0)
    (hIo : 0 ≤ b.io 0) (hMode : b.cryptMethod = .aesPriv) (hHeader : b.cryptMethodHeader ≠ .aes)
    (hKey : b.aesniCtx = key) (hFile : b.file = file)
    (hSize : b.clusterSize = 1 <<< (diskHeader file).clusterBits) :
    doGetRead cbc b .refcountBlockCache i offset =
      some (0, b.ioNext.modifyEntry .refcountBlockCache i fun e =>
        { e with table := loadedCluster cbc key file offset }) := by
  rw [BlockDriverState.entry] at he
  have hTable : qcow2EncryptMetadata cbc e.offset (readAt b.file offset.toNat b.clusterSize)
      b.clusterSize 1 false b.aesniCtx = loadedCluster cbc key file offset := by
    rw [hOff, hFile, hSize, hKey]
    rfl
  unfold doGetRead
  rw [he]
  have hRet : ¬ (bdrvPread b offset).1 < 0 := not_lt.mpr hIo
  have hAbort : ¬ ((bdrvPread b offset).2.2.cryptMethodHeader = .aes ∧
      (bdrvPread b offset).2.2.privDiff = true) := fun h => hHeader h.1
  have hCrypt : (bdrvPread b offset).2.2.cryptMethod = .aesPriv := hMode
  simp only [if_neg hRet, if_neg hAbort, if_pos hCrypt]
  exact congrArg (fun table => some ((0 : Int), b.ioNext.modifyEntry .refcountBlockCache i
    fun e => { e with table := table })) hTable

theorem Loaded.clean_of_replace (h : Loaded cbc key file s)
    (hReplace : qcow2CacheFindEntryToReplace (s.bs.cache .refcountBlockCache) = some (i, k))
    (he : (s.bs.setCache .refcountBlockCache k).entry .refcountBlockCache i = some e) :
    e.dirty = false := by
  have hi := (qcow2CacheFindEntryToReplace_some hReplace).2 .refcountBlockCache i
  rw [he, Option.map_some, eq_comm, Option.map_eq_some_iff] at hi
  obtain ⟨e₀, he₀, hEq⟩ := hi
  exact (congrArg Qcow2CachedTable.dirty hEq).symm.trans (h.entries i e₀ he₀).2.1

theorem run_get_missing (h : Loaded cbc key file s)
    (hFind : findOffset (s.bs.cache .refcountBlockCache) offset = none)
    (hReplace : qcow2CacheFindEntryToReplace (s.bs.cache .refcountBlockCache) = some (i, k)) :
    Image.qcow2CacheGet cbc depth .refcountBlockCache offset s =
      .ok (0, some i)
        { s with
          bs := readInto (s.bs.setCache .refcountBlockCache k) i offset
            (loadedCluster cbc key file offset) } := by
  obtain ⟨⟨e, he, -⟩, -⟩ := qcow2CacheFindEntryToReplace_some hReplace
  have hDirty : e.dirty = false := h.clean_of_replace hReplace he
  rw [Image.qcow2CacheGet, Image.qcow2CacheDoGet, run_bind (Image.run_getBs s), hFind]
  dsimp only
  have hRep : Image.qcow2CacheFindEntryToReplace .refcountBlockCache s =
      .ok i { s with bs := s.bs.setCache .refcountBlockCache k } := by
    rw [Image.qcow2CacheFindEntryToReplace, Image.liftBs, hReplace]
    rfl
  rw [run_bind hRep, run_bind (run_entryFlush_clean _ he hDirty)]
  let b := (s.bs.setCache .refcountBlockCache k).modifyEntry .refcountBlockCache i
    fun e => { e with offset := 0 }
  have hReset : b.entry .refcountBlockCache i = some { e with offset := 0 } := by
    rw [BlockDriverState.entry_modifyEntry_self, he, Option.map_some]
  have hRead : doGetRead cbc b .refcountBlockCache i offset = some (0,
      b.ioNext.modifyEntry .refcountBlockCache i fun e =>
        { e with table := loadedCluster cbc key file offset }) :=
    doGetRead_reset hReset rfl (h.io 0) h.mode h.header h.key_eq h.file_eq
      (h.clusterSize.trans (congrArg _ h.clusterBits))
  show (do
    let ret ← Image.liftBs fun bs => doGetRead cbc bs .refcountBlockCache i offset
    _ : Qcow2M Key (Int × Option Nat)) { s with bs := b } = _
  rw [run_bind (show Image.liftBs (fun bs => doGetRead cbc bs .refcountBlockCache i offset)
    { s with bs := b } = .ok 0 _ by rw [Image.liftBs, hRead])]
  show EStateM.Result.ok _ { s with bs := (doGetFound _ _ i).2.2 } = _
  simp only [b, readInto, doGetFound, BlockDriverState.ioNext_modifyEntry,
    BlockDriverState.modifyEntry_modifyEntry]
  rfl

/-- Without an entry to replace, all hit counts are at their limit. -/
theorem minHits_none {es : List Qcow2CachedTable} {k n : Nat} {m : Option Nat}
    (h : minHits es k m n = none) : m = none ∧ ∀ e ∈ es, e.ref = 0 → n ≤ e.cacheHits := by
  induction es generalizing k m n with
  | nil => exact ⟨h, fun e he => absurd he List.not_mem_nil⟩
  | cons e es ih =>
    rw [minHits] at h
    split at h
    · obtain ⟨hm, hes⟩ := ih h
      exact ⟨hm, List.forall_mem_cons.mpr ⟨fun hRef => absurd hRef ‹_›, hes⟩⟩
    split at h
    · cases (ih h).1
    · obtain ⟨hm, hes⟩ := ih h
      exact ⟨hm, List.forall_mem_cons.mpr ⟨fun _ => Nat.le_of_not_lt ‹_›, hes⟩⟩

theorem run_get_abort
    (hFind : findOffset (s.bs.cache .refcountBlockCache) offset = none)
    (hReplace : qcow2CacheFindEntryToReplace (s.bs.cache .refcountBlockCache) = none) :
    Image.qcow2CacheGet cbc depth .refcountBlockCache offset s = .error .abort s := by
  rw [Image.qcow2CacheGet, Image.qcow2CacheDoGet, run_bind (Image.run_getBs s), hFind]
  dsimp only
  refine run_bind_error ?_
  rw [Image.qcow2CacheFindEntryToReplace, Image.liftBs, hReplace]
  rfl

theorem run_getRefcount_of_get
    {f : Qcow2CachedTable → Qcow2CachedTable}
    (hOffset : s.refcountTable.getD (s.refcountTableIndex clusterIndex) 0 = offset)
    (h0 : offset ≠ 0)
    (hGet : Image.qcow2CacheGet cbc depth .refcountBlockCache offset s =
      .ok (0, some i) { s with bs := b.modifyEntry .refcountBlockCache i f })
    (he : b.entry .refcountBlockCache i = some e) (hRef : (f e).ref ≠ 0)
    (hDirty : (f e).dirty = false) :
    Image.getRefcount cbc depth clusterIndex s =
      .ok (be16At (f e).table (s.blockIndex clusterIndex) : Nat)
        { s with
          bs := b.modifyEntry .refcountBlockCache i
            ((fun e => { e with ref := e.ref - 1 }) ∘ f) } := by
  subst hOffset
  have hEntry : (b.modifyEntry .refcountBlockCache i f).entry .refcountBlockCache i =
      some (f e) := by
    rw [BlockDriverState.entry_modifyEntry_self, he, Option.map_some]
  show (if s.refcountTable.getD (s.refcountTableIndex clusterIndex) 0 = 0 then pure 0
    else _ : Qcow2M Key Int) s = _
  rw [if_neg h0, run_bind hGet]
  show (do
    let refcountBlock ← Image.tableAt .refcountBlockCache i
    _ : Qcow2M Key Int) { s with bs := b.modifyEntry .refcountBlockCache i f } = _
  rw [run_bind (run_tableAt hEntry), run_bind (run_put_clean depth hEntry hRef hDirty),
    BlockDriverState.modifyEntry_modifyEntry]
  rfl

theorem Loaded.getRefcount_found (h : Loaded cbc key file s)
    (hOffset : s.refcountTable.getD (s.refcountTableIndex clusterIndex) 0 = offset)
    (h0 : offset ≠ 0) (hFind : findOffset (s.bs.cache .refcountBlockCache) offset = some i) :
    ∃ t, Image.getRefcount cbc depth clusterIndex s =
        .ok (be16At (loadedCluster cbc key file offset) (s.blockIndex clusterIndex) : Nat) t ∧
      Loaded cbc key file t ∧ t.freeClusterIndex = s.freeClusterIndex := by
  obtain ⟨e, he, rfl⟩ := findOffset_some hFind
  obtain ⟨-, hDirty, hTable⟩ := h.entries i e he
  rw [← hTable h0]
  refine ⟨_, run_getRefcount_of_get depth hOffset h0 (run_get_found depth hFind) he
    (Nat.succ_ne_zero _) hDirty, ?_, rfl⟩
  exact h.setEntry ⟨rfl, rfl, rfl, rfl⟩ rfl rfl h.io (fun _ => rfl)
    fun e hRef hDirty hTable => ⟨hRef, hDirty, hTable⟩

theorem Loaded.getRefcount_missing (h : Loaded cbc key file s)
    (hOffset : s.refcountTable.getD (s.refcountTableIndex clusterIndex) 0 = offset)
    (h0 : offset ≠ 0) (hFind : findOffset (s.bs.cache .refcountBlockCache) offset = none)
    (hReplace : qcow2CacheFindEntryToReplace (s.bs.cache .refcountBlockCache) = some (i, k)) :
    ∃ t, Image.getRefcount cbc depth clusterIndex s =
        .ok (be16At (loadedCluster cbc key file offset) (s.blockIndex clusterIndex) : Nat) t ∧
      Loaded cbc key file t ∧ t.freeClusterIndex = s.freeClusterIndex := by
  obtain ⟨⟨e, he, -⟩, hEntries⟩ := qcow2CacheFindEntryToReplace_some hReplace
  have hDirty : e.dirty = false := h.clean_of_replace hReplace he
  have hRun := run_getRefcount_of_get depth hOffset h0 (run_get_missing depth h hFind hReplace)
    (he : (s.bs.setCache .refcountBlockCache k).ioNext.entry .refcountBlockCache i = some e)
    (Nat.succ_ne_zero _) hDirty
  refine ⟨_, hRun, ?_, rfl⟩
  refine h.setEntry ((sameMode_setCache ..).trans (sameMode_ioNext _)) rfl rfl
    (fun n => h.io (n + 1)) (hEntries .refcountBlockCache) fun e hRef hDirty _ => ?_
  exact ⟨hRef, hDirty, fun _ => rfl⟩

/-- **What `get_refcount` returns** is the count in the decrypted block, if there is an entry to
load it into. -/
theorem Loaded.getRefcount (h : Loaded cbc key file s) (clusterIndex : Nat) :
    (∃ t, Image.getRefcount cbc depth clusterIndex s =
        .ok (refcountIn file (loadedCluster cbc key file) clusterIndex : Nat) t ∧
      Loaded cbc key file t ∧ t.freeClusterIndex = s.freeClusterIndex) ∨
    (∃ t, Image.getRefcount cbc depth clusterIndex s = .error .abort t) ∧
      ∀ e ∈ s.bs.refcountBlockCache.entries, INT_MAX ≤ e.cacheHits := by
  obtain ⟨offset, hOffset⟩ :
      ∃ o, s.refcountTable.getD (s.refcountTableIndex clusterIndex) 0 = o := ⟨_, rfl⟩
  have hTable : (diskRefcountTable file).getD
      (clusterIndex >>> ((diskHeader file).clusterBits - REFCOUNT_SHIFT)) 0 = offset := by
    rw [← h.refcountTable, ← h.clusterBits]
    exact hOffset
  have hIndex : clusterIndex % (1 <<< ((diskHeader file).clusterBits - REFCOUNT_SHIFT)) =
      s.blockIndex clusterIndex := by
    rw [← h.clusterBits]
    rfl
  rw [refcountIn, hTable, hIndex]
  by_cases h0 : offset = 0
  · refine Or.inl ⟨s, ?_, h, rfl⟩
    rw [if_pos h0]
    show (if s.refcountTable.getD (s.refcountTableIndex clusterIndex) 0 = 0 then pure 0
      else _ : Qcow2M Key Int) s = _
    rw [if_pos (hOffset.trans h0)]
    rfl
  simp only [if_neg h0]
  cases hFind : findOffset (s.bs.cache .refcountBlockCache) offset with
  | some i => exact Or.inl (h.getRefcount_found depth hOffset h0 hFind)
  | none =>
    cases hReplace : qcow2CacheFindEntryToReplace (s.bs.cache .refcountBlockCache) with
    | none =>
      refine Or.inr ⟨⟨s, ?_⟩, fun e he => ?_⟩
      · show (if s.refcountTable.getD (s.refcountTableIndex clusterIndex) 0 = 0 then pure 0
          else _ : Qcow2M Key Int) s = _
        rw [hOffset, if_neg h0]
        exact run_bind_error (run_get_abort depth hFind hReplace)
      · obtain ⟨i, he⟩ := List.getElem?_of_mem he
        have hMin := Option.eq_none_iff_forall_ne_some.mpr fun j hj =>
          Option.some_ne_none _ (Option.bind_eq_none_iff.mp hReplace j hj)
        exact (minHits_none hMin).2 e (List.mem_of_getElem? he) (h.entries i e he).1
    | some r => exact Or.inl (h.getRefcount_missing depth hOffset h0 hFind hReplace)

theorem Loaded.mapM_getRefcount (h : Loaded cbc key file s) {is : List Nat} {rs : List Int} (hRun : is.mapM (Image.getRefcount cbc depth) s = .ok rs u) :
    rs = is.map fun i => (refcountIn file (loadedCluster cbc key file) i : Int) := by
  induction is generalizing s rs with
  | nil =>
    cases hRun
    rfl
  | cons i is ih =>
    rw [List.mapM_cons] at hRun
    obtain ⟨r, t, hGet, hRun⟩ := bind_eq_ok.mp hRun
    obtain ⟨rs', t', hRest, hRun⟩ := bind_eq_ok.mp hRun
    cases hRun
    rcases h.getRefcount depth i with ⟨t₀, hOk, ht, -⟩ | ⟨⟨t₀, hAbort⟩, -⟩
    · cases hOk.symm.trans hGet
      rw [ih ht hRest, List.map_cons]
    · cases hAbort.symm.trans hGet

def FreeBefore (file : Nat → UInt8) (block : UInt64 → List UInt8) (n free : Nat) : Prop :=
  n ≤ free ∧ ∀ i, free - n ≤ i → i < free → refcountIn file block i = 0

theorem FreeBefore.succ {block : UInt64 → List UInt8} {n free : Nat}
    (h : FreeBefore file block n free) (hFree : refcountIn file block free = 0) :
    FreeBefore file block (n + 1) (free + 1) := by
  refine ⟨Nat.succ_le_succ h.1, fun i hLow hHigh => ?_⟩
  rcases Nat.lt_or_eq_of_le (Nat.le_of_lt_succ hHigh) with hLt | rfl
  · exact h.2 i (by omega) hLt
  · exact hFree

theorem Loaded.allocClustersLoop (h : Loaded cbc key file s) {nbClusters fuel i : Nat} {ret : Int} (hRun : Image.allocClustersLoop cbc depth nbClusters fuel i s = .ok ret u)
    (hi : i ≤ nbClusters)
    (hFree : FreeBefore file (loadedCluster cbc key file) i s.freeClusterIndex) :
    Loaded cbc key file u ∧
      FreeBefore file (loadedCluster cbc key file) nbClusters u.freeClusterIndex := by
  induction fuel generalizing s i with
  | zero => cases hRun
  | succ fuel ih =>
    rw [Image.allocClustersLoop] at hRun
    split at hRun
    · rename_i hMore
      let s' : Image Key := { s with freeClusterIndex := s.freeClusterIndex + 1 }
      have hs' : Loaded cbc key file s' :=
        ⟨⟨h.file_eq, h.io, h.clusterBits, h.minBits, h.clusterSize⟩, h.refcountTable, h.mode,
          h.header, h.key_eq, h.entries⟩
      change (do
        let refcount ← Image.getRefcount cbc depth s.freeClusterIndex
        _ : Qcow2M Key Int) s' = .ok ret u at hRun
      rcases hs'.getRefcount depth s.freeClusterIndex with ⟨t, hOk, ht, hNext⟩ | ⟨⟨t, hAbort⟩, -⟩
      · rw [run_bind hOk, if_neg (Int.not_lt.mpr (Int.natCast_nonneg _))] at hRun
        split at hRun
        · exact ih ht hRun (Nat.zero_le _) ⟨Nat.zero_le _, fun i hLow hHigh => by omega⟩
        · rename_i hZero
          refine ih ht hRun hMore ?_
          rw [hNext]
          exact hFree.succ (Int.ofNat_eq_zero.mp (not_not.mp hZero))
      · rw [run_bind_error hAbort] at hRun
        cases hRun
    · cases hRun
      rw [show nbClusters = i by omega]
      exact ⟨h, hFree⟩

/-- **What `alloc_clusters_noref` hands out** has the count 0 in the decrypted
blocks. -/
theorem Loaded.allocClustersNoref (h : Loaded cbc key file s) {size : Nat} (hRun : Image.allocClustersNoref cbc depth size s = .ok (.ok offset) u) :
    ∃ first, offset = s.offsetOf first ∧ ∀ k < s.sizeToClusters size,
      refcountIn file (loadedCluster cbc key file) (first + k) = 0 := by
  change (do
    let ret ← Image.allocClustersLoop cbc depth (s.sizeToClusters size) depth 0
    _ : Qcow2M Key (Except Int UInt64)) s = .ok (.ok offset) u at hRun
  obtain ⟨ret, t, hLoop, hRun⟩ := bind_eq_ok.mp hRun
  obtain ⟨ht, hLe, hFree⟩ := h.allocClustersLoop depth hLoop (Nat.zero_le _)
    ⟨Nat.zero_le _, fun i hLow hHigh => by omega⟩
  split at hRun
  · cases hRun
  · cases hRun
    refine ⟨u.freeClusterIndex - s.sizeToClusters size, ?_, fun k hk => hFree _ ?_ ?_⟩
    · rw [Image.offsetOf, Image.offsetOf, ht.clusterBits, h.clusterBits]
    · omega
    · omega

end Loaded

/-! ## Reference counts after reopening -/

theorem mem_qcow2CacheCreate {tables : List (List UInt8)}
    {e : Qcow2CachedTable} (he : e ∈ (qcow2CacheCreate tables writethrough).entries) :
    e.offset = 0 ∧ e.dirty = false ∧ e.cacheHits = 0 ∧ e.ref = 0 := by
  obtain ⟨table, -, rfl⟩ := List.mem_map.mp he
  exact ⟨rfl, rfl, rfl, rfl⟩

theorem loaded_of_setKey (cbc : AesCbc Key)
    {aesniSetKey : List UInt8 → Nat → Option Key} {key : List UInt8} {ctx : Key} (hOpen : s.Opened file)
    (hKey : Image.qcow2SetKey aesniSetKey key s = .ok 0 t)
    (hCtx : aesniSetKey (Image.keybuf key) (min key.length 16) = some ctx)
    (hMode : t.bs.cryptMethod = .aesPriv) :
    Loaded cbc ctx file t ∧ ∃ e ∈ t.bs.refcountBlockCache.entries, e.cacheHits = 0 := by
  rw [Image.run_qcow2SetKey hCtx] at hKey
  cases hKey
  obtain ⟨tables, writethrough, hLen, hCache⟩ := hOpen.caches
  have hHeader : s.bs.cryptMethodHeader = .aesPriv := hMode
  refine ⟨⟨⟨hOpen.file_eq, hOpen.io, hOpen.clusterBits, hOpen.minBits, hOpen.clusterSize⟩,
    hOpen.refcountTable, hMode, ?_, rfl, fun i e he => ?_⟩, ?_⟩
  · rw [show _ = s.bs.cryptMethodHeader from rfl, hHeader]
    exact fun h => CryptMethod.noConfusion h
  · have he : e ∈ s.bs.refcountBlockCache.entries := List.mem_of_getElem? he
    rw [hCache] at he
    obtain ⟨hOff, hDirty, -, hRef⟩ := mem_qcow2CacheCreate he
    exact ⟨hRef, hDirty, fun h0 => absurd hOff h0⟩
  · show ∃ e ∈ s.bs.refcountBlockCache.entries, e.cacheHits = 0
    rw [hCache]
    cases tables with
    | nil => cases hLen
    | cons table tables =>
      have he : _ ∈ (qcow2CacheCreate (table :: tables) writethrough).entries :=
        List.mem_cons_self
      exact ⟨_, he, (mem_qcow2CacheCreate he).2.2.1⟩

theorem block_eq_of_counts {block : UInt64 → List UInt8} {offset : UInt64}
    (hBits : MIN_CLUSTER_BITS ≤ (diskHeader file).clusterBits)
    (hLen : (block offset).length = 1 <<< (diskHeader file).clusterBits)
    (hMem : offset ∈ diskRefcountTable file) (h0 : offset ≠ 0)
    (h : ∀ i, refcountIn file block i = storedRefcount file i) :
    block offset = diskCluster file offset := by
  obtain ⟨bits, hEq⟩ : ∃ bits, (diskHeader file).clusterBits = bits + 1 :=
    ⟨(diskHeader file).clusterBits - 1, by rw [MIN_CLUSTER_BITS] at hBits; omega⟩
  have hSize : 1 <<< (diskHeader file).clusterBits = 2 * 2 ^ bits := by
    rw [hEq, Nat.one_shiftLeft, Nat.pow_succ, Nat.mul_comm]
  refine eq_of_beAt (hLen.trans hSize) ?_ fun k hk => ?_
  · rw [length_diskCluster, hSize]
  -- the cluster whose count is number `k` of the block
  obtain ⟨n, hn⟩ := List.getElem?_of_mem hMem
  have hIndex : (n * 2 ^ bits + k) >>> bits = n := by
    rw [Nat.shiftRight_eq_div_pow, Nat.add_comm, Nat.add_mul_div_right _ _ (Nat.two_pow_pos bits),
      Nat.div_eq_of_lt hk, Nat.zero_add]
  have hBlock : (n * 2 ^ bits + k) % (1 <<< bits) = k := by
    rw [Nat.one_shiftLeft, Nat.add_comm, Nat.add_mul_mod_self_right, Nat.mod_eq_of_lt hk]
  have hCount := h (n * 2 ^ bits + k)
  have hGet : (diskRefcountTable file).getD n 0 = offset := by
    rw [List.getD_eq_getElem?_getD, hn, Option.getD_some]
  simp only [storedRefcount, refcountIn, hEq, REFCOUNT_SHIFT, Nat.add_sub_cancel, hIndex, hBlock,
    hGet, if_neg h0] at hCount
  exact hCount

/-- **Reference counts after reopening** in private-diff mode, with all operations on the file
successful. `get_refcount` returns the stored counts, and `alloc_clusters_noref` hands out only
clusters whose stored count is 0, exactly if decrypting a refcount block leaves it as it is. -/
theorem reopen_refcounts_iff (cbc : AesCbc Key) {aesniSetKey : List UInt8 → Nat → Option Key}
    {s t u : Image Key} {writethrough : Bool} {junk : CacheId → Nat → List UInt8}
    {names : Except Int (Nat × List QCowSnapshot × Nat)} {ret : Int} {key : List UInt8} {ctx : Key}
    (hIo : ∀ n, 0 ≤ s.bs.io n)
    (hOpen : Image.qcow2Open writethrough junk names s = .ok ret t) (hRet : 0 ≤ ret)
    (hKey : Image.qcow2SetKey aesniSetKey key t = .ok 0 u)
    (hCtx : aesniSetKey (Image.keybuf key) (min key.length 16) = some ctx)
    (hMode : u.bs.cryptMethod = .aesPriv) :
    ((∀ depth i, ∃ v, Image.getRefcount cbc depth i u = .ok (storedRefcount s.bs.file i : Nat) v) ∧
      (∀ depth is rs v, List.mapM (Image.getRefcount cbc depth) is u = .ok rs v →
        rs = is.map fun i => (storedRefcount s.bs.file i : Int)) ∧
      ∀ depth size offset v, Image.allocClustersNoref cbc depth size u = .ok (.ok offset) v →
        ∃ first, offset = u.offsetOf first ∧
          ∀ k < u.sizeToClusters size, storedRefcount s.bs.file (first + k) = 0) ↔
    ∀ offset ∈ diskRefcountTable s.bs.file, offset ≠ 0 →
      loadedCluster cbc ctx s.bs.file offset = diskCluster s.bs.file offset := by
  obtain ⟨hu, e, he, hHits⟩ :=
    loaded_of_setKey cbc (qcow2Open_opened hIo hOpen hRet) hKey hCtx hMode
  have hGet : ∀ depth i, ∃ v, Image.getRefcount cbc depth i u =
      .ok (refcountIn s.bs.file (loadedCluster cbc ctx s.bs.file) i : Nat) v := by
    intro depth i
    rcases hu.getRefcount depth i with ⟨v, hRun, -⟩ | ⟨-, hFull⟩
    · exact ⟨v, hRun⟩
    · exact absurd (hFull e he) (by rw [hHits]; decide)
  have hBits := hu.clusterBits ▸ hu.minBits
  constructor
  · rintro ⟨hStored, -, -⟩ offset hMem h0
    refine block_eq_of_counts hBits (length_loadedCluster hBits) hMem h0 fun i => ?_
    obtain ⟨v, hv⟩ := hGet 0 i
    obtain ⟨v', hv'⟩ := hStored 0 i
    have hEq := hv.symm.trans hv'
    simp only [EStateM.Result.ok.injEq, Nat.cast_inj] at hEq
    exact hEq.1
  · intro h
    have hCount : ∀ i, refcountIn s.bs.file (loadedCluster cbc ctx s.bs.file) i =
        storedRefcount s.bs.file i := refcountIn_congr h
    refine ⟨fun depth i => ?_, fun depth is rs v hRun => ?_, fun depth size offset v hRun => ?_⟩
    · rw [← hCount]
      exact hGet depth i
    · rw [hu.mapM_getRefcount depth hRun]
      simp only [hCount]
    · obtain ⟨first, hOffset, hFree⟩ := hu.allocClustersNoref depth hRun
      exact ⟨first, hOffset, fun k hk => (hCount _).symm.trans (hFree k hk)⟩

/-- Clusters of 512 bytes: the header, the refcount table in cluster 1 and a block in cluster 2,
where cluster 0 has the count `count`. -/
def sampleFile (count : Nat) (j : Nat) : UInt8 :=
  if j < 0x200 then
    ([0x51, 0x46, 0x49, 0xfb, 0, 0, 0, 2, 0, 0, 0, 0, 0, 0, 0, 0, 0, 0, 0, 0, 0, 0, 0, 9,
      0, 0, 0, 0, 0, 0, 0, 0, 0, 0, 0, 1, 0, 0, 0, 0, 0, 0, 0, 0, 0, 0, 0, 0,
      0, 0, 0, 0, 0, 0, 2, 0, 0, 0, 0, 1, 0, 0, 0, 0, 0, 0, 0, 0, 0, 0, 0, 0] : List UInt8).getD j 0
  else if j < 0x400 then (beBytes 8 0x400).getD (j - 0x200) 0
  else (beBytes 2 count).getD (j - 0x400) 0

def closedImage (count : Nat) : Image UInt8 :=
  { sampleImage with bs := { sampleImage.bs with file := sampleFile count } }

def openSample : Qcow2M UInt8 Int := Image.qcow2Open false (fun _ _ => []) (.ok (0, [], 0))

def keySample (key : UInt8) : Qcow2M UInt8 Int :=
  Image.qcow2SetKey (fun buf _ => buf.head?) [key]

/-- With the key 1, a block whose first count is 257 reads as one where the header is free, and
it is handed out. -/
theorem reopen_loses_refcount :
    storedRefcount (sampleFile 257) 0 = 257 ∧
      outcome (fun u => u.bs.cryptMethod)
        ((do let _ ← openSample; let _ ← keySample 1; Image.getRefcount .xorKey 1 0)
          (closedImage 257)) = some (0, .aesPriv) ∧
      outcome (fun u => u.bs.cryptMethod)
        ((do let _ ← openSample; let _ ← keySample 1; Image.allocClustersNoref .xorKey 2 512)
          (closedImage 257)) = some (.ok 0, .aesPriv) := by
  refine ⟨?_, ?_, ?_⟩
  · decide +kernel
  · decide +kernel
  · decide +kernel

theorem reopen_keeps_refcount :
    ∃ t u, openSample (closedImage 257) = .ok 0 t ∧ keySample 0 t = .ok 0 u ∧
      ∀ i, ∃ v, Image.getRefcount .xorKey 1 i u = .ok (storedRefcount (sampleFile 257) i : Nat) v := by
  obtain ⟨t, hOpen, hMode⟩ : ∃ t, openSample (closedImage 257) = .ok 0 t ∧
      t.bs.cryptMethodHeader = .aesPriv := outcome_eq_some.mp (by decide +kernel)
  obtain ⟨u, hKey, hu⟩ : ∃ u, keySample 0 t = .ok 0 u ∧ u.bs.cryptMethod = t.bs.cryptMethodHeader :=
    ⟨_, rfl, rfl⟩
  have hCounts := (reopen_refcounts_iff .xorKey (fun _ => Int.le_refl 0) hOpen (Int.le_refl 0) hKey
    rfl (hu.trans hMode)).mpr fun offset _ _ =>
      (loadedCluster_eq ..).trans (AesCbc.xorKey_zero ..)
  exact ⟨t, u, hOpen, hKey, hCounts.1 1⟩

end Lacuna.Qcow2
