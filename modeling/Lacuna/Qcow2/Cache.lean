import Lacuna.Qcow2.Encrypt

/-!
# qcow2 — the metadata cache

`block/qcow2-cache.c` with `CONFIG_PRIV_DIFF`. An image has two caches of
cluster-sized tables, for L2 tables and for refcount blocks, over one image file; a
cache may have to be flushed after another (`depends`).

Modelling conventions:

* a table pointer is the index of its entry, which owns one buffer for its life;
* the result of the `n`-th file operation from now on is `io n`, negative on
  failure; a failed write leaves the file as it was;
* `none` is a run that does not return: `abort()`, a failed `assert`, or a
  chain of dependencies deeper than `depth`.
-/

namespace Lacuna.Qcow2

open Lacuna.Lib

inductive CacheId where
  | l2TableCache
  | refcountBlockCache
  deriving DecidableEq

/-- `QCOW_CRYPT_NONE`, `QCOW_CRYPT_AES`, `QCOW_CRYPT_AES_PRIV`. -/
inductive CryptMethod where
  | none
  | aes
  | aesPriv
  deriving DecidableEq

structure Qcow2CachedTable where
  table : List UInt8
  offset : UInt64
  dirty : Bool
  cacheHits : Nat
  ref : Nat
  deriving DecidableEq

structure Qcow2Cache where
  entries : List Qcow2CachedTable
  depends : Option CacheId
  dependsOnFlush : Bool
  writethrough : Bool
  deriving DecidableEq

/-- The fields of `BDRVQcowState` that the caches read, and the image file `bs->file`. -/
structure BlockDriverState (Key : Type) where
  clusterSize : Nat
  cryptMethod : CryptMethod
  cryptMethodHeader : CryptMethod
  privDiff : Bool
  aesniCtx : Key
  l2TableCache : Qcow2Cache
  refcountBlockCache : Qcow2Cache
  file : Nat → UInt8
  io : Nat → Int

variable {Key : Type}

namespace BlockDriverState

def cache (bs : BlockDriverState Key) : CacheId → Qcow2Cache
  | .l2TableCache => bs.l2TableCache
  | .refcountBlockCache => bs.refcountBlockCache

def setCache (bs : BlockDriverState Key) (c : CacheId) (cache : Qcow2Cache) :
    BlockDriverState Key :=
  match c with
  | .l2TableCache => { bs with l2TableCache := cache }
  | .refcountBlockCache => { bs with refcountBlockCache := cache }

def modifyEntry (bs : BlockDriverState Key) (c : CacheId) (i : Nat)
    (f : Qcow2CachedTable → Qcow2CachedTable) : BlockDriverState Key :=
  bs.setCache c { bs.cache c with entries := (bs.cache c).entries.modify i f }

end BlockDriverState

/-- `tables` is what the new buffers happen to hold. -/
def qcow2CacheCreate (tables : List (List UInt8)) (writethrough : Bool) : Qcow2Cache where
  entries := tables.map fun table =>
    { table, offset := 0, dirty := false, cacheHits := 0, ref := 0 }
  depends := none
  dependsOnFlush := false
  writethrough := writethrough

/-! ## The image file -/

def readAt (file : Nat → UInt8) (offset len : Nat) : List UInt8 :=
  (List.range len).map fun j => file (offset + j)

def writeAt (file : Nat → UInt8) (offset : Nat) (buf : List UInt8) : Nat → UInt8 :=
  fun j => if offset ≤ j then (buf[j - offset]?).getD (file j) else file j

def BlockDriverState.ioNext (bs : BlockDriverState Key) : BlockDriverState Key :=
  { bs with io := fun n => bs.io (n + 1) }

def bdrvFlush (bs : BlockDriverState Key) : Int × BlockDriverState Key :=
  (bs.io 0, bs.ioNext)

def bdrvPwrite (bs : BlockDriverState Key) (offset : UInt64) (buf : List UInt8) :
    Int × BlockDriverState Key :=
  if bs.io 0 < 0 then (bs.io 0, bs.ioNext)
  else (bs.io 0, { bs.ioNext with file := writeAt bs.file offset.toNat buf })

def bdrvPread (bs : BlockDriverState Key) (offset : UInt64) :
    Int × List UInt8 × BlockDriverState Key :=
  (bs.io 0, readAt bs.file offset.toNat bs.clusterSize, bs.ioNext)

/-! ## Writing tables back -/

def ENOENT : Int := 2
def ENOSPC : Int := 28
def INT_MAX : Nat := 2147483647

section Flush

variable (cbc : AesCbc Key)

def qcow2CacheFlushDependency
    (flush : BlockDriverState Key → CacheId → Option (Int × BlockDriverState Key))
    (bs : BlockDriverState Key) (c : CacheId) : Option (Int × BlockDriverState Key) :=
  match (bs.cache c).depends with
  | none => none
  | some d => do
    let (ret, bs) ← flush bs d
    if ret < 0 then return (ret, bs)
    return (0, bs.setCache c { bs.cache c with depends := none, dependsOnFlush := false })

/-- What has to reach the disk before a table of `c` is written. -/
def flushBefore
    (flush : BlockDriverState Key → CacheId → Option (Int × BlockDriverState Key))
    (bs : BlockDriverState Key) (c : CacheId) : Option (Int × BlockDriverState Key) :=
  if (bs.cache c).depends.isSome then
    qcow2CacheFlushDependency flush bs c
  else if (bs.cache c).dependsOnFlush then
    let (ret, bs) := bdrvFlush bs
    if 0 ≤ ret then some (ret, bs.setCache c { bs.cache c with dependsOnFlush := false })
    else some (ret, bs)
  else some (0, bs)

/-- In private-diff mode the encryption under the IV of the entry's offset, otherwise the table
itself. -/
def bufWrite (bs : BlockDriverState Key) (e : Qcow2CachedTable) : List UInt8 :=
  if bs.cryptMethod = .aesPriv then
    qcow2EncryptMetadata cbc e.offset e.table bs.clusterSize 1 true bs.aesniCtx
  else e.table

def writeEntry (bs : BlockDriverState Key) (c : CacheId) (i : Nat) :
    Option (Int × BlockDriverState Key) :=
  match (bs.cache c).entries[i]? with
  | none => none
  | some e =>
    let (ret, bs) := bdrvPwrite bs e.offset (bufWrite cbc bs e)
    if ret < 0 then some (ret, bs)
    else some (0, bs.modifyEntry c i fun e => { e with dirty := false })

def qcow2CacheEntryFlush
    (flush : BlockDriverState Key → CacheId → Option (Int × BlockDriverState Key))
    (bs : BlockDriverState Key) (c : CacheId) (i : Nat) :
    Option (Int × BlockDriverState Key) :=
  match (bs.cache c).entries[i]? with
  | none => none
  | some e =>
    if !e.dirty || e.offset = 0 then some (0, bs)
    else do
      let (ret, bs) ← flushBefore flush bs c
      if ret < 0 then return (ret, bs)
      writeEntry cbc bs c i

/-- The loop of `qcow2_cache_flush`: the first error stays unless it is
`-ENOSPC`. -/
def flushEntries
    (flush : BlockDriverState Key → CacheId → Option (Int × BlockDriverState Key))
    (c : CacheId) :
    List Nat → Int → BlockDriverState Key → Option (Int × BlockDriverState Key)
  | [], result, bs => some (result, bs)
  | i :: is, result, bs => do
    let (ret, bs) ← qcow2CacheEntryFlush cbc flush bs c i
    flushEntries flush c is (if ret < 0 ∧ result ≠ -ENOSPC then ret else result) bs

def qcow2CacheFlush : Nat → BlockDriverState Key → CacheId →
    Option (Int × BlockDriverState Key)
  | 0, _, _ => none
  | depth + 1, bs, c => do
    let (result, bs) ← flushEntries cbc (qcow2CacheFlush depth) c
      (List.range (bs.cache c).entries.length) 0 bs
    if result = 0 then
      let (ret, bs) := bdrvFlush bs
      return (if ret < 0 then ret else result, bs)
    return (result, bs)

/-! ## Dependencies between the caches -/

def qcow2CacheSetDependency (depth : Nat) (bs : BlockDriverState Key)
    (c dependency : CacheId) : Option (Int × BlockDriverState Key) := do
  let (ret, bs) ←
    (if (bs.cache dependency).depends.isSome then
      qcow2CacheFlushDependency (qcow2CacheFlush cbc depth) bs dependency
    else some (0, bs))
  if ret < 0 then return (ret, bs)
  let (ret, bs) ←
    (if (bs.cache c).depends.isSome ∧ (bs.cache c).depends ≠ some dependency then
      qcow2CacheFlushDependency (qcow2CacheFlush cbc depth) bs c
    else some (0, bs))
  if ret < 0 then return (ret, bs)
  return (0, bs.setCache c { bs.cache c with depends := some dependency })

def qcow2CacheDependsOnFlush (bs : BlockDriverState Key) (c : CacheId) :
    BlockDriverState Key :=
  bs.setCache c { bs.cache c with dependsOnFlush := true }

def qcow2CacheSetWritethrough (depth : Nat) (bs : BlockDriverState Key) (c : CacheId)
    (enable : Bool) : Option (Bool × BlockDriverState Key) := do
  let old := (bs.cache c).writethrough
  let (_, bs) ← (if !old && enable then qcow2CacheFlush cbc depth bs c else some (0, bs))
  return (old, bs.setCache c { bs.cache c with writethrough := enable })

/-! ## Looking tables up -/

/-- Of the unreferenced entries, the first with the fewest hits. -/
def minHits : List Qcow2CachedTable → Nat → Option Nat → Nat → Option Nat
  | [], _, minIndex, _ => minIndex
  | e :: es, i, minIndex, minCount =>
    if e.ref ≠ 0 then minHits es (i + 1) minIndex minCount
    else if e.cacheHits < minCount then minHits es (i + 1) (some i) e.cacheHits
    else minHits es (i + 1) minIndex minCount

/-- With the halved hit counts; `none` is its `abort()`. -/
def qcow2CacheFindEntryToReplace (cache : Qcow2Cache) : Option (Nat × Qcow2Cache) := do
  let i ← minHits cache.entries 0 none INT_MAX
  return (i, { cache with
    entries := cache.entries.map fun e =>
      if e.ref ≠ 0 then e else { e with cacheHits := e.cacheHits / 2 } })

def doGetFound (bs : BlockDriverState Key) (c : CacheId) (i : Nat) :
    Int × Option Nat × BlockDriverState Key :=
  (0, some i, bs.modifyEntry c i fun e =>
    { e with cacheHits := e.cacheHits + 1, ref := e.ref + 1 })

/-- The `read_from_disk` part of `qcow2_cache_do_get`. The IV is that of the entry's offset as
it stands at this point. -/
def doGetRead (bs : BlockDriverState Key) (c : CacheId) (i : Nat) (offset : UInt64) :
    Option (Int × BlockDriverState Key) :=
  match (bs.cache c).entries[i]? with
  | none => none
  | some e =>
    let (ret, bufRead, bs) := bdrvPread bs offset
    if ret < 0 then some (ret, bs)
    else
      let table :=
        if bs.cryptMethod = .aesPriv then
          qcow2EncryptMetadata cbc e.offset bufRead bs.clusterSize 1 false bs.aesniCtx
        else bufRead
      if bs.cryptMethodHeader = .aes ∧ bs.privDiff then none
      else some (0, bs.modifyEntry c i fun e => { e with table := table })

def findOffset (cache : Qcow2Cache) (offset : UInt64) : Option Nat :=
  cache.entries.findIdx? fun e => e.offset = offset

/-- The return code, the table handed out and the new state. -/
def qcow2CacheDoGet (depth : Nat) (bs : BlockDriverState Key) (c : CacheId)
    (offset : UInt64) (readFromDisk : Bool) :
    Option (Int × Option Nat × BlockDriverState Key) :=
  match findOffset (bs.cache c) offset with
  | some i => some (doGetFound bs c i)
  | none => do
    let (i, cache) ← qcow2CacheFindEntryToReplace (bs.cache c)
    let (ret, bs) ←
      qcow2CacheEntryFlush cbc (qcow2CacheFlush cbc depth) (bs.setCache c cache) c i
    if ret < 0 then return (ret, none, bs)
    let bs := bs.modifyEntry c i fun e => { e with offset := 0 }
    let (ret, bs) ← (if readFromDisk then doGetRead cbc bs c i offset else some (0, bs))
    if ret < 0 then return (ret, none, bs)
    return doGetFound
      (bs.modifyEntry c i fun e => { e with cacheHits := 32, offset := offset }) c i

def qcow2CacheGet (depth : Nat) (bs : BlockDriverState Key) (c : CacheId) (offset : UInt64) :
    Option (Int × Option Nat × BlockDriverState Key) :=
  qcow2CacheDoGet cbc depth bs c offset true

def qcow2CacheGetEmpty (depth : Nat) (bs : BlockDriverState Key) (c : CacheId)
    (offset : UInt64) : Option (Int × Option Nat × BlockDriverState Key) :=
  qcow2CacheDoGet cbc depth bs c offset false

/-- A put that was not preceded by a get fails its assertion. -/
def qcow2CachePut (depth : Nat) (bs : BlockDriverState Key) (c : CacheId) (i : Nat) :
    Option (Int × BlockDriverState Key) :=
  match (bs.cache c).entries[i]? with
  | none => some (-ENOENT, bs)
  | some e =>
    if e.ref = 0 then none
    else
      let bs := bs.modifyEntry c i fun e => { e with ref := e.ref - 1 }
      if (bs.cache c).writethrough then
        qcow2CacheEntryFlush cbc (qcow2CacheFlush cbc depth) bs c i
      else some (0, bs)

def qcow2CacheEntryMarkDirty (bs : BlockDriverState Key) (c : CacheId) (i : Nat) :
    Option (BlockDriverState Key) :=
  match (bs.cache c).entries[i]? with
  | none => none
  | some _ => some (bs.modifyEntry c i fun e => { e with dirty := true })

end Flush

end Lacuna.Qcow2
