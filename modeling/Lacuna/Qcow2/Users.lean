import Mathlib.Logic.Function.Basic
import Lacuna.Qcow2.Flush

/-!
# qcow2 — the metadata caches and their users

`Sys` puts beside the driver's state what the users of the caches have done:
the contents last stored for each offset, and which entries have been edited in
place but not yet marked dirty. `Step` is one call of the users, with what the
users owe the caches: tables are edited while they are referenced, and an
edited table is marked dirty before its last reference is dropped.
-/

namespace Lacuna.Qcow2

open Lacuna.Lib

variable {Key : Type}

structure Sys (Key : Type) where
  bs : BlockDriverState Key
  /-- the contents last stored for each offset -/
  stored : UInt64 → Option (List UInt8)
  /-- entries edited in place and not yet marked dirty -/
  pending : CacheId → Nat → Bool

inductive Op where
  | get (c : CacheId) (offset : UInt64)
  | getEmpty (c : CacheId) (offset : UInt64)
  | edit (c : CacheId) (i : Nat) (table : List UInt8)
  | entryMarkDirty (c : CacheId) (i : Nat)
  | put (c : CacheId) (i : Nat)
  | flush (c : CacheId)
  | setDependency (c dependency : CacheId)
  | dependsOnFlush (c : CacheId)
  | setWritethrough (c : CacheId) (enable : Bool)

def setPending (pending : CacheId → Nat → Bool) (c : CacheId) (i : Nat) (b : Bool) :
    CacheId → Nat → Bool :=
  fun d j => if d = c ∧ j = i then b else pending d j

/-- The non-zero offset of a cluster that holds a table of cache `c` (an L2 table is never a
refcount block). -/
structure ValidOffset (owner : UInt64 → CacheId) (clusterSize : Nat) (c : CacheId)
    (offset : UInt64) : Prop where
  ne_zero : offset ≠ 0
  aligned : clusterSize ∣ offset.toNat
  owner_eq : owner offset = c

section Step

variable (cbc : AesCbc Key) (owner : UInt64 → CacheId) (depth : Nat)

/-- A table is edited only while it is referenced, and marked dirty before its last reference is
dropped. The contents of one obtained by `qcow2_cache_get_empty` are undefined until it is
edited. -/
inductive Step : Sys Key → Op → Sys Key → Prop
  | get (s c offset ret table bs') (hOff : ValidOffset owner s.bs.clusterSize c offset)
      (h : qcow2CacheGet cbc depth s.bs c offset = some (ret, table, bs')) :
      Step s (.get c offset) { s with bs := bs' }
  | getEmpty (s c offset ret table bs') (hOff : ValidOffset owner s.bs.clusterSize c offset)
      (h : qcow2CacheGetEmpty cbc depth s.bs c offset = some (ret, table, bs')) :
      Step s (.getEmpty c offset)
        { s with
          bs := bs'
          stored := if (findOffset (s.bs.cache c) offset).isSome then s.stored
            else Function.update s.stored offset none }
  | edit (s c i e table) (he : s.bs.entry c i = some e) (hRef : e.ref ≠ 0)
      (hLen : table.length = s.bs.clusterSize) :
      Step s (.edit c i table)
        { bs := s.bs.modifyEntry c i fun e => { e with table := table }
          stored := Function.update s.stored e.offset (some table)
          pending := setPending s.pending c i true }
  | entryMarkDirty (s c i e bs') (he : s.bs.entry c i = some e) (hRef : e.ref ≠ 0)
      (h : qcow2CacheEntryMarkDirty s.bs c i = some bs') :
      Step s (.entryMarkDirty c i)
        { s with bs := bs', pending := setPending s.pending c i false }
  | put (s c i e ret bs') (he : s.bs.entry c i = some e)
      (hDone : s.pending c i = false ∨ 1 < e.ref)
      (h : qcow2CachePut cbc depth s.bs c i = some (ret, bs')) :
      Step s (.put c i) { s with bs := bs' }
  | flush (s c ret bs') (h : qcow2CacheFlush cbc depth s.bs c = some (ret, bs')) :
      Step s (.flush c) { s with bs := bs' }
  | setDependency (s c d ret bs')
      (h : qcow2CacheSetDependency cbc depth s.bs c d = some (ret, bs')) :
      Step s (.setDependency c d) { s with bs := bs' }
  | dependsOnFlush (s c) :
      Step s (.dependsOnFlush c) { s with bs := qcow2CacheDependsOnFlush s.bs c }
  | setWritethrough (s c enable old bs')
      (h : qcow2CacheSetWritethrough cbc depth s.bs c enable = some (old, bs')) :
      Step s (.setWritethrough c enable) { s with bs := bs' }

end Step

/-- A fresh image in private-diff mode: both caches as `qcow2_cache_create` makes them, nothing
stored yet, all file operations succeeding. -/
structure Fresh (s : Sys Key) : Prop where
  mode : s.bs.cryptMethod = .aesPriv
  blocks : 16 ∣ s.bs.clusterSize
  pos : 0 < s.bs.clusterSize
  io : ∀ n, 0 ≤ s.bs.io n
  caches : ∀ c, ∃ tables writethrough, s.bs.cache c = qcow2CacheCreate tables writethrough ∧
    ∀ table ∈ tables, table.length = s.bs.clusterSize
  stored : ∀ offset, s.stored offset = none
  pending : ∀ c i, s.pending c i = false

end Lacuna.Qcow2
