import Lacuna.Qcow2.Image

/-!
# qcow2 — what a session in private-diff mode keeps

`Session` is the invariant of an image between `qcow2_set_key` and
`qcow2_close`: the mode, the key and the geometry stay, and every write issued
so far meets a property `W` of writes. The properties of interest (`WriteRules`) allow
the writes that `qcow2_cache_entry_flush`, `qcow2_encrypt_metadata` and
`qcow2_encrypt_sectors` lead to; whether they also allow a buffer that was not
encrypted (`AllowsPlain`) is left open.
-/

namespace Lacuna.Qcow2

open Lacuna.Lib

variable {Key : Type}

/-- What stays the same: the key, the geometry, and, as long as nothing is written in plaintext,
the size of the L1 table. -/
structure Settings (Key : Type) where
  key : Key
  clusterBits : Nat
  l1Size : Nat

def Settings.clusterSize (set : Settings Key) : Nat := 1 <<< set.clusterBits

/-- A property of writes that encrypted metadata and guest data meet. -/
structure WriteRules (set : Settings Key) (W : FileWrite Key → Prop) : Prop where
  entry : ∀ e : Qcow2CachedTable,
    W ⟨e.offset, .encryptMetadata set.key e.offset e.table set.clusterSize 1, some e⟩
  encryptMetadata : ∀ offset inBuf unitSize nbUnits,
    W ⟨offset, .encryptMetadata set.key offset inBuf unitSize nbUnits, none⟩
  encryptSectors : ∀ offset sectorNum inBuf nbSectors,
    W ⟨offset, .encryptSectors set.key sectorNum inBuf nbSectors, none⟩

/-- Buffers that were not encrypted are allowed as well. -/
def AllowsPlain (W : FileWrite Key → Prop) : Prop :=
  ∀ offset bytes, W ⟨offset, .plain bytes, none⟩

def Settings.Reaches (set : Settings Key) (offset : UInt64) : Prop :=
  offset.toNat >>> (set.clusterBits - 3 + set.clusterBits) < set.l1Size

structure InReach (set : Settings Key) (acb : QCowAIOCB) : Prop where
  sectors : ∀ sector, acb.sectorNum ≤ sector → sector < acb.sectorNum + acb.remainingSectors →
    set.Reaches (UInt64.ofNat (sector * 512))
  l2meta : acb.l2meta.nbClusters ≠ 0 → set.Reaches acb.l2meta.offset

theorem InReach.of_l2meta {set : Settings Key} {acb acb' : QCowAIOCB} (h : InReach set acb)
    (hSector : acb'.sectorNum = acb.sectorNum)
    (hRemaining : acb'.remainingSectors = acb.remainingSectors)
    (hMeta : acb'.l2meta.nbClusters ≠ 0 → set.Reaches acb'.l2meta.offset) : InReach set acb' :=
  ⟨by rw [hSector, hRemaining]; exact h.sectors, hMeta⟩

theorem InReach.advance {set : Settings Key} {acb : QCowAIOCB} (h : InReach set acb) (qiov : List UInt8) :
    InReach set { acb with
        remainingSectors := acb.remainingSectors - acb.curNrSectors
        sectorNum := acb.sectorNum + acb.curNrSectors
        qiov := qiov } := by
  refine ⟨fun sector hLo hHi => h.sectors sector ?_ ?_, h.l2meta⟩
  · exact Nat.le_trans (Nat.le_add_right ..) hLo
  · have hHi : sector < acb.sectorNum + acb.curNrSectors +
        (acb.remainingSectors - acb.curNrSectors) := hHi
    have hLo : acb.sectorNum + acb.curNrSectors ≤ sector := hLo
    omega

/-- **The invariant of a session.** As long as only encrypted buffers are
allowed, the L1 table keeps its size and the guest writes stay within it. -/
structure Session (set : Settings Key) (W : FileWrite Key → Prop) (s : Image Key) : Prop where
  mode : s.bs.cryptMethod = .aesPriv
  privDiff : s.bs.privDiff = true
  key : s.bs.aesniCtx = set.key
  clusterSize : s.bs.clusterSize = set.clusterSize
  clusterBits : s.clusterBits = set.clusterBits
  l1Size : AllowsPlain W ∨ s.l1Table.length = set.l1Size
  requests : AllowsPlain W ∨ ∀ id acb, s.requests id = some acb → InReach set acb
  log : ∀ w ∈ s.log, W w

/-! ## Changes that do not matter -/

/-- The two states of the driver agree on mode, key and cluster size. -/
structure SameMode (b b' : BlockDriverState Key) : Prop where
  cryptMethod : b'.cryptMethod = b.cryptMethod
  privDiff : b'.privDiff = b.privDiff
  aesniCtx : b'.aesniCtx = b.aesniCtx
  clusterSize : b'.clusterSize = b.clusterSize

theorem SameMode.trans {b b' b'' : BlockDriverState Key} (h : SameMode b b')
    (h' : SameMode b' b'') : SameMode b b'' :=
  ⟨h'.cryptMethod.trans h.cryptMethod, h'.privDiff.trans h.privDiff,
    h'.aesniCtx.trans h.aesniCtx, h'.clusterSize.trans h.clusterSize⟩

theorem sameMode_setCache (b : BlockDriverState Key) (c : CacheId) (k : Qcow2Cache) :
    SameMode b (b.setCache c k) := by
  cases c <;> exact ⟨rfl, rfl, rfl, rfl⟩

theorem sameMode_modifyEntry (b : BlockDriverState Key) (c : CacheId) (i : Nat)
    (f : Qcow2CachedTable → Qcow2CachedTable) : SameMode b (b.modifyEntry c i f) :=
  sameMode_setCache ..

theorem sameMode_ioNext (b : BlockDriverState Key) : SameMode b b.ioNext := ⟨rfl, rfl, rfl, rfl⟩

theorem sameMode_bdrvPwrite (b : BlockDriverState Key) (offset : UInt64) (buf : List UInt8) :
    SameMode b (bdrvPwrite b offset buf).2 := by
  unfold bdrvPwrite
  split <;> exact ⟨rfl, rfl, rfl, rfl⟩

theorem sameMode_doGetFound (b : BlockDriverState Key) (c : CacheId) (i : Nat) :
    SameMode b (doGetFound b c i).2.2 :=
  sameMode_modifyEntry ..

theorem sameMode_doGetRead {cbc : AesCbc Key} {b b' : BlockDriverState Key} {c : CacheId}
    {i : Nat} {offset : UInt64} {ret : Int} (h : doGetRead cbc b c i offset = some (ret, b')) :
    SameMode b b' := by
  unfold doGetRead at h
  split at h
  · cases h
  · simp only at h
    split at h
    · cases h
      exact sameMode_ioNext b
    · split at h
      · cases h
      · cases h
        exact (sameMode_ioNext b).trans (sameMode_modifyEntry ..)

section Caches

variable {set : Settings Key} {W : FileWrite Key → Prop} {s : Image Key}

theorem Session.of_sameMode (h : Session set W s) {b : BlockDriverState Key}
    (hb : SameMode s.bs b) : Session set W { s with bs := b } :=
  ⟨hb.cryptMethod.trans h.mode, hb.privDiff.trans h.privDiff, hb.aesniCtx.trans h.key,
    hb.clusterSize.trans h.clusterSize, h.clusterBits, h.l1Size, h.requests, h.log⟩

theorem Session.congr (h : Session set W s) {t : Image Key} (hbs : t.bs = s.bs)
    (hBits : t.clusterBits = s.clusterBits) (hL1 : t.l1Table.length = s.l1Table.length)
    (hReq : t.requests = s.requests) (hLog : t.log = s.log) : Session set W t where
  mode := hbs ▸ h.mode
  privDiff := hbs ▸ h.privDiff
  key := hbs ▸ h.key
  clusterSize := hbs ▸ h.clusterSize
  clusterBits := hBits ▸ h.clusterBits
  l1Size := hL1 ▸ h.l1Size
  requests := hReq ▸ h.requests
  log := hLog ▸ h.log

theorem Session.write (h : Session set W s) {w : FileWrite Key} (hw : W w) :
    Session set W { s with log := w :: s.log } :=
  ⟨h.mode, h.privDiff, h.key, h.clusterSize, h.clusterBits, h.l1Size, h.requests,
    List.forall_mem_cons.mpr ⟨hw, h.log⟩⟩

namespace Image

theorem keeps_getBs_bind {β : Type} {f : BlockDriverState Key → Qcow2M Key β}
    (hf : ∀ s, Session set W s → Keeps (Session set W) (f s.bs)) :
    Keeps (Session set W) (getBs >>= f) :=
  fun s h => hf s h s h

theorem keeps_modifyBs {f : BlockDriverState Key → BlockDriverState Key}
    (hf : ∀ b, SameMode b (f b)) : Keeps (Session set W) (modifyBs f) :=
  .modify fun s h => h.of_sameMode (hf s.bs)

theorem keeps_liftBs {α : Type} {f : BlockDriverState Key → Option (α × BlockDriverState Key)}
    (hf : ∀ b a b', f b = some (a, b') → SameMode b b') : Keeps (Session set W) (liftBs f) := by
  intro s h
  unfold liftBs
  cases hRun : f s.bs with
  | none => exact h
  | some r => exact h.of_sameMode (hf s.bs r.1 r.2 hRun)

theorem keeps_bdrvFlush : Keeps (Session set W) bdrvFlush :=
  .modifyGet fun s h => h.of_sameMode (sameMode_ioNext s.bs)

theorem keeps_bdrvPread (offset : UInt64) (len : Nat) :
    Keeps (Session set W) (bdrvPread offset len) :=
  .modifyGet fun s h => h.of_sameMode (sameMode_ioNext s.bs)

theorem keeps_bdrvPwrite (cbc : AesCbc Key) {offset : UInt64} {buf : FileBuf Key}
    {entry : Option Qcow2CachedTable} (hw : W ⟨offset, buf, entry⟩) :
    Keeps (Session set W) (bdrvPwrite cbc offset buf entry) :=
  .modifyGet fun s h => (h.write hw).of_sameMode (sameMode_bdrvPwrite s.bs offset _)

theorem keeps_bdrvPwriteSync (cbc : AesCbc Key) {offset : UInt64} {buf : FileBuf Key}
    (hw : W ⟨offset, buf, none⟩) : Keeps (Session set W) (bdrvPwriteSync cbc offset buf) :=
  .bind (keeps_bdrvPwrite cbc hw) fun _ => .ite_pure <| .bind keeps_bdrvFlush fun _ => .pure 0

/-! ## Writing tables back -/

section Flush

variable {flush : CacheId → Qcow2M Key Int}

theorem keeps_flushDependency (hFlush : ∀ d, Keeps (Session set W) (flush d)) (c : CacheId) :
    Keeps (Session set W) (qcow2CacheFlushDependency flush c) := by
  refine keeps_getBs_bind fun s _ => ?_
  cases (s.bs.cache c).depends with
  | none => exact .throw _
  | some d =>
    exact .bind (hFlush d) fun _ => .ite_pure <|
      .bind (keeps_modifyBs fun _ => sameMode_setCache ..) fun _ => .pure 0

theorem keeps_flushBefore (hFlush : ∀ d, Keeps (Session set W) (flush d)) (c : CacheId) :
    Keeps (Session set W) (flushBefore flush c) := by
  refine keeps_getBs_bind fun s _ => .ite (fun _ => keeps_flushDependency hFlush c)
    fun _ => .ite (fun _ => ?_) fun _ => .pure 0
  exact .bind keeps_bdrvFlush fun ret => .ite
    (fun _ => .bind (keeps_modifyBs fun _ => sameMode_setCache ..) fun _ => .pure ret)
    fun _ => .pure ret

end Flush

variable (hW : WriteRules set W) (cbc : AesCbc Key)
include hW

theorem keeps_writeEntry (c : CacheId) (i : Nat) : Keeps (Session set W) (writeEntry cbc c i) := by
  refine keeps_getBs_bind fun s hs => ?_
  cases (s.bs.cache c).entries[i]? with
  | none => exact .throw _
  | some e =>
    have hBuf : entryBuf s.bs e = .encryptMetadata set.key e.offset e.table set.clusterSize 1 := by
      rw [entryBuf, if_pos hs.mode, hs.key, hs.clusterSize]
    have hw : W ⟨e.offset, entryBuf s.bs e, some e⟩ := hBuf ▸ hW.entry e
    exact .bind (keeps_bdrvPwrite cbc hw) fun _ => .ite_pure <|
      .bind (keeps_modifyBs fun _ => sameMode_modifyEntry ..) fun _ => .pure 0

theorem keeps_entryFlush {flush : CacheId → Qcow2M Key Int}
    (hFlush : ∀ d, Keeps (Session set W) (flush d)) (c : CacheId) (i : Nat) :
    Keeps (Session set W) (qcow2CacheEntryFlush cbc flush c i) := by
  refine keeps_getBs_bind fun s _ => ?_
  cases (s.bs.cache c).entries[i]? with
  | none => exact .throw _
  | some e =>
    exact .ite_pure <| Keeps.bind (keeps_flushBefore hFlush c) fun _ =>
      .ite_pure <| keeps_writeEntry hW cbc c i

theorem keeps_flushEntries {flush : CacheId → Qcow2M Key Int}
    (hFlush : ∀ d, Keeps (Session set W) (flush d)) (c : CacheId) (is : List Nat)
    (result : Int) : Keeps (Session set W) (flushEntries cbc flush c is result) := by
  induction is generalizing result with
  | nil => exact .pure result
  | cons i is ih => exact .bind (keeps_entryFlush hW cbc hFlush c i) fun ret => ih _

theorem keeps_qcow2CacheFlush (depth : Nat) (c : CacheId) :
    Keeps (Session set W) (qcow2CacheFlush cbc depth c) := by
  induction depth generalizing c with
  | zero => exact .throw _
  | succ depth ih =>
    refine keeps_getBs_bind fun s _ =>
      .bind (keeps_flushEntries hW cbc (fun d => ih d) c _ 0) fun result => ?_
    exact .ite (fun _ => .bind keeps_bdrvFlush fun ret => .pure _) fun _ => .pure result

/-! ## The other functions of the caches -/

variable (depth : Nat)

theorem keeps_setDependency (c d : CacheId) :
    Keeps (Session set W) (qcow2CacheSetDependency cbc depth c d) := by
  have hDep := keeps_flushDependency (keeps_qcow2CacheFlush hW cbc depth)
  refine keeps_getBs_bind fun s _ => ?_
  refine .bind (.ite (fun _ => hDep d) fun _ => .pure 0) fun _ => .ite_pure ?_
  refine keeps_getBs_bind fun s _ => ?_
  refine .bind (.ite (fun _ => hDep c) fun _ => .pure 0) fun _ => .ite_pure ?_
  exact .bind (keeps_modifyBs fun _ => sameMode_setCache ..) fun _ => .pure 0

omit hW in
theorem keeps_dependsOnFlush (c : CacheId) : Keeps (Session set W) (qcow2CacheDependsOnFlush c) :=
  keeps_modifyBs fun _ => sameMode_setCache ..

theorem keeps_setWritethrough (c : CacheId) (enable : Bool) :
    Keeps (Session set W) (qcow2CacheSetWritethrough cbc depth c enable) := by
  refine keeps_getBs_bind fun s _ => ?_
  refine .bind (.ite (fun _ => keeps_qcow2CacheFlush hW cbc depth c) fun _ => .pure 0) fun _ => ?_
  exact .bind (keeps_modifyBs fun _ => sameMode_setCache ..) fun _ => .pure _

omit hW in
theorem keeps_findEntryToReplace (c : CacheId) :
    Keeps (Session set W) (qcow2CacheFindEntryToReplace c) := by
  refine keeps_liftBs fun b i b' hFind => ?_
  obtain ⟨r, -, hr⟩ := Option.map_eq_some_iff.mp hFind
  cases hr
  exact sameMode_setCache ..

theorem keeps_doGet (c : CacheId) (offset : UInt64) (readFromDisk : Bool) :
    Keeps (Session set W) (qcow2CacheDoGet cbc depth c offset readFromDisk) := by
  refine keeps_getBs_bind fun s _ => ?_
  cases findOffset (s.bs.cache c) offset with
  | some i =>
    refine keeps_liftBs fun b r b' hFound => ?_
    cases hFound
    exact sameMode_doGetFound b c i
  | none =>
    refine .bind (keeps_findEntryToReplace c) fun i => ?_
    refine .bind (keeps_entryFlush hW cbc (keeps_qcow2CacheFlush hW cbc depth) c i)
      fun ret => .ite_pure ?_
    refine .bind (keeps_modifyBs fun _ => sameMode_modifyEntry ..) fun _ => ?_
    have hRead : Keeps (Session set W) (if readFromDisk = true then
        liftBs fun bs => doGetRead cbc bs c i offset else pure 0) :=
      .ite (fun _ => keeps_liftBs fun b r b' h => sameMode_doGetRead h) fun _ => .pure 0
    refine .bind hRead fun ret => .ite_pure ?_
    exact .bind (keeps_modifyBs fun b =>
      (sameMode_modifyEntry b ..).trans (sameMode_doGetFound ..)) fun _ => .pure _

theorem keeps_put (c : CacheId) (i : Nat) :
    Keeps (Session set W) (qcow2CachePut cbc depth c i) := by
  refine keeps_getBs_bind fun s _ => ?_
  cases (s.bs.cache c).entries[i]? with
  | none => exact .pure _
  | some e =>
    refine .ite (fun _ => .throw _) fun _ => ?_
    refine .bind (keeps_modifyBs fun _ => sameMode_modifyEntry ..) fun _ => ?_
    refine keeps_getBs_bind fun s _ => .ite (fun _ => ?_) fun _ => .pure 0
    exact keeps_entryFlush hW cbc (keeps_qcow2CacheFlush hW cbc depth) c i

omit hW

theorem keeps_entryMarkDirty (c : CacheId) (i : Nat) :
    Keeps (Session set W) (qcow2CacheEntryMarkDirty c i) := by
  refine keeps_liftBs fun b r b' hMark => ?_
  obtain ⟨b', hb', hr⟩ := Option.map_eq_some_iff.mp hMark
  cases hr
  unfold Qcow2.qcow2CacheEntryMarkDirty at hb'
  split at hb'
  · cases hb'
  · cases hb'
    exact sameMode_modifyEntry ..

theorem keeps_tableAt (c : CacheId) (i : Nat) : Keeps (Session set W) (tableAt c i) := by
  refine keeps_getBs_bind fun s _ => ?_
  cases (s.bs.cache c).entries[i]? with
  | none => exact .throw _
  | some e => exact .pure _

theorem keeps_setTableAt (c : CacheId) (i : Nat) (table : List UInt8) :
    Keeps (Session set W) (setTableAt c i table) :=
  keeps_modifyBs fun _ => sameMode_modifyEntry ..

end Image

end Caches

end Lacuna.Qcow2
