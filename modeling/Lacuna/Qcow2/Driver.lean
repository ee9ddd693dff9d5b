import Lacuna.Lib.Trace
import Lacuna.Qcow2.Users
import Lacuna.Qcow2.Aio
import Lacuna.Qcow2.Snapshot

/-!
# qcow2 — sessions in private-diff mode

A session is what happens to an open image from `qcow2_set_key` to
`qcow2_close`: guest writes and their callbacks, discards, resizes, snapshots,
flushes, and single calls of the metadata caches, in any order. A call that
stops half way (`abort()`) ends the session as well.

`qcow2_close` wipes the key before it flushes the caches, and `qcow2_snapshot_goto`
writes the L1 table as it is: the two exceptions to what is wanted of the writes.
-/

namespace Lacuna.Qcow2

open Lacuna.Lib

variable {Key : Type}

namespace Image

/-! ## The key -/

def keybuf (key : List UInt8) : List UInt8 :=
  key.take 16 ++ List.replicate (16 - (key.take 16).length) 0

def qcow2SetKey (aesniSetKey : List UInt8 → Nat → Option Key) (key : List UInt8) :
    Qcow2M Key Int := do
  modifyBs fun bs => { bs with cryptMethod := bs.cryptMethodHeader }
  match aesniSetKey (keybuf key) (min key.length 16) with
  | none => return -1
  | some aesniCtx => do
    modifyBs fun bs => { bs with aesniCtx := aesniCtx }
    return 0

theorem run_qcow2SetKey {aesniSetKey : List UInt8 → Nat → Option Key} {key : List UInt8} {ctx : Key}
    (hCtx : aesniSetKey (keybuf key) (min key.length 16) = some ctx) (s : Image Key) :
    qcow2SetKey aesniSetKey key s = .ok 0 { s with
          bs := { s.bs with cryptMethod := s.bs.cryptMethodHeader, aesniCtx := ctx } } := by
  rw [qcow2SetKey, hCtx]
  rfl

section Program

variable (cbc : AesCbc Key) (depth : Nat)

def qcow2CacheDestroy (c : CacheId) : Qcow2M Key Unit := do
  let b ← getBs
  if (b.cache c).entries.all (·.ref = 0) then return () else throw .abort

/-- The key is wiped first; `freed` is what the flushes then find there. -/
def qcow2Close (freed : Key) : Qcow2M Key Unit := do
  modifyBs fun bs => { bs with aesniCtx := freed }
  let _ ← qcow2CacheFlush cbc depth .l2TableCache
  let _ ← qcow2CacheFlush cbc depth .refcountBlockCache
  qcow2CacheDestroy .l2TableCache
  qcow2CacheDestroy .refcountBlockCache

def qcow2Flush : Qcow2M Key Int := do
  let ret ← qcow2CacheFlush cbc depth .l2TableCache
  if ret < 0 then return ret
  let ret ← qcow2CacheFlush cbc depth .refcountBlockCache
  if ret < 0 then return ret
  bdrvFlush

def bdrvTruncate (offset : Nat) : Qcow2M Key Int := do
  let ret ← qcow2Truncate cbc depth offset
  if ret = 0 then do
    modify fun s => { s with totalSectors := offset / 512 }
    return ret
  else return ret

def cacheCall : Op → Qcow2M Key Unit
  | .get c offset => do let _ ← qcow2CacheGet cbc depth c offset
  | .getEmpty c offset => do let _ ← qcow2CacheGetEmpty cbc depth c offset
  | .edit c i table => setTableAt c i table
  | .entryMarkDirty c i => qcow2CacheEntryMarkDirty c i
  | .put c i => do let _ ← qcow2CachePut cbc depth c i
  | .flush c => do let _ ← qcow2CacheFlush cbc depth c
  | .setDependency c dependency => do let _ ← qcow2CacheSetDependency cbc depth c dependency
  | .dependsOnFlush c => qcow2CacheDependsOnFlush c
  | .setWritethrough c enable => do let _ ← qcow2CacheSetWritethrough cbc depth c enable

end Program

end Image

section Refines

variable {cbc : AesCbc Key} {owner : UInt64 → CacheId} {depth : Nat} {s t : Sys Key}

theorem Step.cacheCall {op : Op} (h : Step cbc owner depth s op t) {im : Image Key}
    (hBs : im.bs = s.bs) :
    ∃ im', Image.cacheCall cbc depth op im = .ok () im' ∧ im'.bs = t.bs := by
  cases h with
  | get c offset ret table bs' hOff h =>
    exact (Image.simulates_doGet cbc depth c offset true).run_unit
      (by rw [hBs]; exact congrArg Image.pairCode h)
  | getEmpty c offset ret table bs' hOff h =>
    exact (Image.simulates_doGet cbc depth c offset false).run_unit
      (by rw [hBs]; exact congrArg Image.pairCode h)
  | edit c i e table =>
    exact ⟨_, rfl, congrArg (·.modifyEntry c i fun e => { e with table := table }) hBs⟩
  | entryMarkDirty c i e bs' he hRef h =>
    refine ⟨{ im with bs := bs' }, ?_, rfl⟩
    simp only [Image.cacheCall, Image.qcow2CacheEntryMarkDirty, Image.liftBs, hBs, h,
      Option.map_some]
  | put c i e ret bs' he hDone h => exact (Image.simulates_put cbc depth c i).run_unit (hBs ▸ h)
  | flush c ret bs' h => exact (Image.simulates_qcow2CacheFlush cbc depth c).run_unit (hBs ▸ h)
  | setDependency c d ret bs' h =>
    exact (Image.simulates_setDependency cbc depth c d).run_unit (hBs ▸ h)
  | dependsOnFlush c => exact ⟨_, rfl, congrArg (qcow2CacheDependsOnFlush · c) hBs⟩
  | setWritethrough c enable old bs' h =>
    exact (Image.simulates_setWritethrough cbc depth c enable).run_unit (hBs ▸ h)

/-- **The two models of the caches agree.** What the users of the caches may do in the model
without a history, the programs over an image do, with the same caches and the same file. -/
theorem cache_run_refines {tr : Trace (Sys Key) Op} (hTr : IsTrace (Step cbc owner depth) s tr)
    (im : Image Key) (hBs : im.bs = s.bs) :
    ∃ im', (tr.forM fun p => Image.cacheCall cbc depth p.1) im = .ok () im' ∧
      im'.bs = (lastState s tr).bs := by
  induction tr generalizing s im with
  | nil => exact ⟨im, rfl, hBs⟩
  | cons p tr ih =>
    obtain ⟨im₁, hFirst, hBs₁⟩ := hTr.1.cacheCall hBs
    obtain ⟨im', hRest, hEnd⟩ := ih hTr.2 im₁ hBs₁
    refine ⟨im', ?_, hEnd⟩
    show EStateM.bind _ _ im = _
    rw [EStateM.bind, hFirst]
    exact hRest

end Refines

inductive Call (Key : Type) where
  | cache (op : Op)
  | getClusterOffset (offset : UInt64) (num : Nat)
  | aioWritev (id sectorNum : Nat) (qiov : List UInt8) (nbSectors : Nat)
  | aioWriteCb (id : Nat) (ret : Int)
  | discard (sectorNum nbSectors : Nat)
  | flush
  | truncate (offset : Nat)
  | snapshotCreate (snInfo : QCowSnapshot)
  | snapshotGoto (snapshotId : String)
  | snapshotDelete (snapshotId : String)
  | updateExtHeader (backingFile backingFmt : Option String)
  | close (freed : Key)

structure Driver (Key : Type) where
  image : Image Key
  isOpen : Bool

section Session

variable (cbc : AesCbc Key)

/-- What a call runs. `env` and `strtoul` are what it finds outside the driver. -/
def Call.run (depth : Nat) (env : Env) (strtoul : String → Nat) : Call Key → Qcow2M Key Unit
  | .cache op => Image.cacheCall cbc depth op
  | .getClusterOffset offset num => do
    let _ ← Image.qcow2GetClusterOffset cbc depth offset num
  | .aioWritev id sectorNum qiov nbSectors => Image.qcow2AioWritev id sectorNum qiov nbSectors
  | .aioWriteCb id ret => Image.qcow2AioWriteCb cbc depth env depth id ret
  | .discard sectorNum nbSectors => do let _ ← Image.qcow2Discard cbc depth sectorNum nbSectors
  | .flush => do let _ ← Image.qcow2Flush cbc depth
  | .truncate offset => do let _ ← Image.bdrvTruncate cbc depth offset
  | .snapshotCreate snInfo => do let _ ← Image.qcow2SnapshotCreate cbc depth strtoul snInfo
  | .snapshotGoto snapshotId => do let _ ← Image.qcow2SnapshotGoto cbc depth snapshotId
  | .snapshotDelete snapshotId => do let _ ← Image.qcow2SnapshotDelete cbc depth snapshotId
  | .updateExtHeader backingFile backingFmt => do
    let _ ← Image.qcow2UpdateExtHeader cbc backingFile backingFmt
  | .close freed => Image.qcow2Close cbc depth freed

/-- The session goes on after a call that returned, except `qcow2_close`. -/
def goesOn {ε σ α : Type} (call : Call Key) (r : EStateM.Result ε σ α) : Bool :=
  match call, r with
  | .close _, _ => false
  | _, .ok _ _ => true
  | _, .error _ _ => false

inductive Call.Step : Driver Key → Call Key → Driver Key → Prop
  | call (s : Image Key) (call : Call Key) (depth : Nat) (env : Env) (strtoul : String → Nat) :
    Step ⟨s, true⟩ call
      ⟨finalState (call.run cbc depth env strtoul s),
        goesOn call (call.run cbc depth env strtoul s)⟩

end Session

/-! ## Calls keep the invariant of the session -/

/-- The calls that need no larger L1 table and touch no snapshot. -/
def Call.Confined (s : Image Key) : Call Key → Prop
  | .aioWritev _ sectorNum _ nbSectors =>
    ∀ sector, sectorNum ≤ sector → sector < sectorNum + nbSectors →
      s.l1Index (UInt64.ofNat (sector * 512)) < s.l1Table.length
  | .discard sectorNum nbSectors =>
    ∀ i, sectorNum * 512 ≤ i <<< s.clusterBits →
      (i + 1) <<< s.clusterBits ≤ (sectorNum + nbSectors) * 512 →
      s.l1Index (UInt64.ofNat (i <<< s.clusterBits)) < s.l1Table.length
  | .truncate offset =>
    offset % 512 ≠ 0 ∨ s.snapshots ≠ [] ∨ offset < s.totalSectors * 512 ∨
      s.sizeToL1 offset ≤ s.l1Table.length
  | .snapshotCreate snInfo =>
    ∀ strtoul, (s.findSnapshotById (s.newSnapshotId strtoul snInfo)).isSome
  | .snapshotGoto snapshotId => s.findSnapshotByIdOrName snapshotId = none
  | .snapshotDelete snapshotId => s.findSnapshotByIdOrName snapshotId = none
  | _ => True

section Keeps

variable {set : Settings Key} {W : FileWrite Key → Prop} {cbc : AesCbc Key}

variable {s : Image Key}

theorem Session.reaches_iff (hs : Session set W s) (hNot : ¬ AllowsPlain W)
    (offset : UInt64) : set.Reaches offset ↔ s.l1Index offset < s.l1Table.length := by
  rw [Settings.Reaches, Image.l1Index, hs.clusterBits, hs.l1Size.resolve_left hNot]

variable (hW : WriteRules set W) (depth : Nat)

include hW

theorem keeps_cacheCall (op : Op) : Keeps (Session set W) (Image.cacheCall cbc depth op) := by
  cases op with
  | get c offset => exact Keeps.discard (Image.keeps_doGet hW cbc depth c offset true)
  | getEmpty c offset => exact Keeps.discard (Image.keeps_doGet hW cbc depth c offset false)
  | edit c i table => exact Image.keeps_setTableAt c i table
  | entryMarkDirty c i => exact Image.keeps_entryMarkDirty c i
  | put c i => exact Keeps.discard (Image.keeps_put hW cbc depth c i)
  | flush c => exact Keeps.discard (Image.keeps_qcow2CacheFlush hW cbc depth c)
  | setDependency c d => exact Keeps.discard (Image.keeps_setDependency hW cbc depth c d)
  | dependsOnFlush c => exact Image.keeps_dependsOnFlush c
  | setWritethrough c enable =>
    exact Keeps.discard (Image.keeps_setWritethrough hW cbc depth c enable)

theorem keeps_flush : Keeps (Session set W) (Image.qcow2Flush cbc depth) :=
  Keeps.bind (Image.keeps_qcow2CacheFlush hW cbc depth _) fun _ => Keeps.ite_pure <|
    Keeps.bind (Image.keeps_qcow2CacheFlush hW cbc depth _) fun _ => Keeps.ite_pure <|
      Image.keeps_bdrvFlush

/-- **Every call but `qcow2_close` keeps the invariant**, if it is confined or
plaintext is allowed. -/
theorem Session.call (hs : Session set W s) (env : Env) (strtoul : String → Nat)
    {call : Call Key} (hOk : AllowsPlain W ∨ call.Confined s) (hClose : ∀ freed, call ≠ .close freed) :
    Session set W (finalState (call.run cbc depth env strtoul s)) := by
  cases call with
  | cache op => exact keeps_cacheCall hW depth op s hs
  | getClusterOffset offset num =>
    exact Keeps.discard (Image.keeps_getClusterOffset hW cbc depth offset num) s hs
  | aioWritev id sectorNum qiov nbSectors =>
    refine Image.keeps_aioWritev id qiov (or_iff_not_imp_left.mpr fun hNot => ?_) s hs
    exact fun sector hLo hHi =>
      (hs.reaches_iff hNot _).mpr (hOk.resolve_left hNot sector hLo hHi)
  | aioWriteCb id ret => exact Image.keeps_aioWriteCb hW cbc depth env depth id ret s hs
  | discard sectorNum nbSectors =>
    refine Keeps.discard (Image.keeps_discard hW cbc depth
      (or_iff_not_imp_left.mpr fun hNot => ?_)) s hs
    rw [← hs.clusterBits]
    exact fun i hLo hHi => (hs.reaches_iff hNot _).mpr (hOk.resolve_left hNot i hLo hHi)
  | flush => exact Keeps.discard (keeps_flush hW depth) s hs
  | truncate offset =>
    rw [Call.run, finalState_discard]
    refine Keeps.after (Image.keeps_truncate hW cbc depth offset hs hOk) fun ret => Keeps.ite
      (fun _ => ?_) fun _ => Keeps.pure ret
    exact Keeps.bind (Keeps.modify fun _ h => h.congr rfl rfl rfl rfl rfl) fun _ => Keeps.pure ret
  | snapshotCreate snInfo =>
    rw [Call.run, finalState_discard]
    exact Image.keeps_snapshotCreate hW cbc depth strtoul snInfo hs (hOk.imp_right fun h => h strtoul)
  | snapshotGoto snapshotId =>
    rw [Call.run, finalState_discard]
    exact Image.keeps_snapshotGoto hW cbc depth snapshotId hs hOk
  | snapshotDelete snapshotId =>
    rw [Call.run, finalState_discard]
    exact Image.keeps_snapshotDelete hW cbc depth snapshotId hs hOk
  | updateExtHeader backingFile backingFmt =>
    exact Keeps.discard (Image.keeps_updateExtHeader cbc backingFile backingFmt) s hs
  | close freed => exact absurd rfl (hClose freed)

omit hW in
theorem keeps_cacheDestroy {I : Image Key → Prop} (c : CacheId) :
    Keeps I (Image.qcow2CacheDestroy c) :=
  fun s hs => Keeps.ite (fun _ => Keeps.pure ()) (fun _ => Keeps.throw _) s hs

omit hW in
theorem Session.close (hs : Session set W s)
    (hAny : ∀ key, WriteRules { set with key := key } W) (freed : Key) :
    ∀ w ∈ (finalState (Image.qcow2Close cbc depth freed s)).log, W w := by
  have hFreed : Session { set with key := freed } W
      { s with bs := { s.bs with aesniCtx := freed } } :=
    { hs with key := rfl, requests := hs.requests.imp_right fun h id acb hId =>
        ⟨(h id acb hId).sectors, (h id acb hId).l2meta⟩ }
  have hRest : Keeps (Session { set with key := freed } W) (do
      let _ ← Image.qcow2CacheFlush cbc depth .l2TableCache
      let _ ← Image.qcow2CacheFlush cbc depth .refcountBlockCache
      Image.qcow2CacheDestroy .l2TableCache
      Image.qcow2CacheDestroy .refcountBlockCache) := by
    refine Keeps.bind (Image.keeps_qcow2CacheFlush (hAny freed) cbc depth _) fun _ => ?_
    refine Keeps.bind (Image.keeps_qcow2CacheFlush (hAny freed) cbc depth _) fun _ => ?_
    exact Keeps.bind (keeps_cacheDestroy _) fun _ => keeps_cacheDestroy _
  exact (hRest _ hFreed).log

end Keeps

/-! ## Closing without dirty tables -/

def BlockDriverState.Clean (b : BlockDriverState Key) : Prop :=
  ∀ c, ∀ e ∈ (b.cache c).entries, e.dirty = true → e.offset = 0

section Clean

variable {cbc : AesCbc Key} {log : List (FileWrite Key)}

/-- The caches are clean and nothing has been written. -/
abbrev CleanWith (log : List (FileWrite Key)) (s : Image Key) : Prop :=
  s.bs.Clean ∧ s.log = log

theorem clean_entryFlush (flush : CacheId → Qcow2M Key Int) (c : CacheId) (i : Nat) :
    Keeps (CleanWith log) (Image.qcow2CacheEntryFlush cbc flush c i) := by
  intro s hs
  rw [Image.qcow2CacheEntryFlush, run_bind (Image.run_getBs s)]
  cases he : (s.bs.cache c).entries[i]? with
  | none => exact hs
  | some e =>
    have hClean := hs.1 c e (List.mem_of_getElem? he)
    have hSkip : (!e.dirty || decide (e.offset = 0)) = true := by
      cases hDirty : e.dirty with
      | false => rfl
      | true => simp [hClean hDirty]
    dsimp only
    rw [if_pos hSkip]
    exact hs

theorem clean_flush (depth : Nat) (c : CacheId) :
    Keeps (CleanWith log) (Image.qcow2CacheFlush cbc depth c) := by
  cases depth with
  | zero => exact Keeps.throw _
  | succ depth =>
    have hEntries : ∀ is result, Keeps (CleanWith log)
        (Image.flushEntries cbc (Image.qcow2CacheFlush cbc depth) c is result) := by
      intro is
      induction is with
      | nil => exact fun result => Keeps.pure result
      | cons i is ih => exact fun result => Keeps.bind (clean_entryFlush _ c i) fun _ => ih _
    have hFlush : Keeps (CleanWith log) Image.bdrvFlush := fun s hs => hs
    intro s hs
    exact Keeps.bind (hEntries _ 0) (fun result => Keeps.ite
      (fun _ => Keeps.bind hFlush fun _ => Keeps.pure _) fun _ => Keeps.pure result) s hs

theorem log_close_of_clean {s : Image Key} (hs : s.bs.Clean) (depth : Nat) (freed : Key) :
    (finalState (Image.qcow2Close cbc depth freed s)).log = s.log := by
  have hWipe : Keeps (CleanWith s.log)
      (Image.modifyBs fun bs : BlockDriverState Key => { bs with aesniCtx := freed }) :=
    Keeps.modify fun t ht => ⟨fun c => ht.1 c, ht.2⟩
  have hClose : Keeps (CleanWith s.log) (Image.qcow2Close cbc depth freed) := by
    refine Keeps.bind hWipe fun _ => ?_
    refine Keeps.bind (clean_flush depth _) fun _ => ?_
    refine Keeps.bind (clean_flush depth _) fun _ => ?_
    exact Keeps.bind (keeps_cacheDestroy _) fun _ => keeps_cacheDestroy _
  exact (hClose s ⟨hs, rfl⟩).2

end Clean

/-! ## Whole sessions -/

/-- An image that `qcow2_open` has opened in private-diff mode. The history
starts here. -/
structure Image.OpenedPrivate (s : Image Key) : Prop where
  cryptMethodHeader : s.bs.cryptMethodHeader = .aesPriv
  privDiff : s.bs.privDiff = true
  clusterSize : s.bs.clusterSize = 1 <<< s.clusterBits
  requests : ∀ id, s.requests id = none
  log : s.log = []

theorem qcow2SetKey_session {aesniSetKey : List UInt8 → Nat → Option Key} {key : List UInt8}
    {s t : Image Key} (hOpen : s.OpenedPrivate)
    (hKey : Image.qcow2SetKey aesniSetKey key s = .ok 0 t) (W : FileWrite Key → Prop) :
    ∃ ctx, aesniSetKey (Image.keybuf key) (min key.length 16) = some ctx ∧
      Session ⟨ctx, s.clusterBits, s.l1Table.length⟩ W t := by
  cases hCtx : aesniSetKey (Image.keybuf key) (min key.length 16) with
  | none =>
    rw [Image.qcow2SetKey, hCtx] at hKey
    cases hKey
  | some ctx =>
    rw [Image.run_qcow2SetKey hCtx] at hKey
    cases hKey
    refine ⟨ctx, rfl, hOpen.cryptMethodHeader, hOpen.privDiff, rfl, hOpen.clusterSize, rfl,
      .inr rfl, .inr fun id acb hId => ?_, ?_⟩
    · cases (hOpen.requests id).symm.trans hId
    · rw [hOpen.log]
      exact fun w hw => absurd hw List.not_mem_nil

/-- While the session goes on its invariant holds, and all writes so far are
allowed. -/
structure DriverInv (set : Settings Key) (W : FileWrite Key → Prop) (d : Driver Key) : Prop where
  session : d.isOpen = true → Session set W d.image
  log : ∀ w ∈ d.image.log, W w

theorem DriverInv.start {set : Settings Key} {W : FileWrite Key → Prop} {s : Image Key}
    (hs : Session set W s) : DriverInv set W ⟨s, true⟩ :=
  ⟨fun _ => hs, hs.log⟩

theorem DriverInv.step {set : Settings Key} {W : FileWrite Key → Prop} {cbc : AesCbc Key}
    (hW : WriteRules set W) {d d' : Driver Key} {call : Call Key} (hd : DriverInv set W d)
    (hStep : Call.Step cbc d call d') (hOk : AllowsPlain W ∨ call.Confined d.image)
    (hClose : ∀ freed depth, call = .close freed →
      ∀ w ∈ (finalState (Image.qcow2Close cbc depth freed d.image)).log, W w) :
    DriverInv set W d' := by
  obtain ⟨s, call, depth, env, strtoul⟩ := hStep
  have hs := hd.session rfl
  by_cases hEnd : ∃ freed, call = .close freed
  · obtain ⟨freed, rfl⟩ := hEnd
    exact ⟨fun h => (nomatch h), hClose freed depth rfl⟩
  · have hNext : Session set W (finalState (call.run cbc depth env strtoul s)) :=
      hs.call hW depth env strtoul hOk fun freed h => hEnd ⟨freed, h⟩
    exact ⟨fun _ => hNext, hNext.log⟩

/-! ## The session's key -/

/-- What `qcow2_cache_entry_flush` wrote is the table, under the key and the table's own offset. -/
def FileWrite.UnderKey (cbc : AesCbc Key) (key : Key) (clusterSize : Nat) (w : FileWrite Key) :
    Prop :=
  ∀ e, w.entry = some e → w.offset = e.offset ∧
    w.buf.bytes cbc = qcow2EncryptMetadata cbc e.offset e.table clusterSize 1 true key

theorem underKey_writeRules (cbc : AesCbc Key) (set : Settings Key) :
    WriteRules set (FileWrite.UnderKey cbc set.key set.clusterSize) where
  entry e e' he := by
    cases he
    exact ⟨rfl, rfl⟩
  encryptMetadata _ _ _ _ _ he := nomatch he
  encryptSectors _ _ _ _ _ he := nomatch he

theorem underKey_allowsPlain (cbc : AesCbc Key) (key : Key) (clusterSize : Nat) :
    AllowsPlain (FileWrite.UnderKey cbc key clusterSize) :=
  fun _ _ _ he => nomatch he

def Call.KeyInPlace (s : Image Key) : Call Key → Prop
  | .close _ => s.bs.Clean
  | _ => True

/-- **Metadata is written under the session's key**, in every session that is
closed without dirty tables. -/
theorem metadata_under_session_key (cbc : AesCbc Key)
    (aesniSetKey : List UInt8 → Nat → Option Key) (key : List UInt8) (s t : Image Key)
    (hOpen : s.OpenedPrivate) (hKey : Image.qcow2SetKey aesniSetKey key s = .ok 0 t)
    (tr : Trace (Driver Key) (Call Key)) (hTr : IsTrace (Call.Step cbc) ⟨t, true⟩ tr)
    (hClean : EachStep (fun d call => call.KeyInPlace d.image) ⟨t, true⟩ tr) :
    ∃ ctx, aesniSetKey (Image.keybuf key) (min key.length 16) = some ctx ∧
      EachState (fun d => ∀ w ∈ d.image.log, w.UnderKey cbc ctx s.bs.clusterSize) ⟨t, true⟩ tr := by
  obtain ⟨ctx, hCtx, -⟩ := qcow2SetKey_session hOpen hKey fun _ => True
  refine ⟨ctx, hCtx, ?_⟩
  let set : Settings Key := ⟨ctx, s.clusterBits, s.l1Table.length⟩
  let W := FileWrite.UnderKey cbc ctx (1 <<< s.clusterBits)
  have hStart : Session set W t := by
    obtain ⟨ctx', hCtx', hs⟩ := qcow2SetKey_session hOpen hKey W
    cases hCtx.symm.trans hCtx'
    exact hs
  rw [hOpen.clusterSize]
  refine eachState_of_inv (fun d (hd : DriverInv set W d) => hd.log) ?_ (.start hStart) hTr
    hClean
  intro d call d' hd hStep hCall
  refine hd.step (underKey_writeRules cbc set) hStep (Or.inl (underKey_allowsPlain cbc _ _)) ?_
  rintro freed depth rfl
  rw [log_close_of_clean hCall]
  exact hd.log

def sampleImage : Image UInt8 where
  bs :=
    { clusterSize := 512
      cryptMethod := .none
      cryptMethodHeader := .aesPriv
      privDiff := true
      aesniCtx := 0
      l2TableCache := qcow2CacheCreate ([List.replicate 512 0]) false
      refcountBlockCache := qcow2CacheCreate ([List.replicate 512 0]) false
      file := fun _ => 0
      io := fun _ => 0 }
  clusterBits := 9
  totalSectors := 64
  l1Table := [0]
  l1TableOffset := 0x600
  refcountTable := List.replicate 64 0
  refcountTableOffset := 0x200
  freeClusterIndex := 6
  snapshots := [⟨0x800, 1, "1", "base", 0, 0, 0, 0⟩]
  snapshotsOffset := 0xa00
  snapshotsSize := 45
  requests := fun _ => none
  clusterAllocs := []
  log := []

theorem sampleImage_opened : sampleImage.OpenedPrivate :=
  ⟨rfl, rfl, rfl, fun _ => rfl, rfl⟩

theorem cache_run_refines_sample : ∃ im',
    Image.cacheCall .xorKey 1 (.flush .l2TableCache) sampleImage = .ok () im' ∧
      im'.bs = { sampleImage.bs with io := fun n => sampleImage.bs.io (n + 1) } := by
  have hTr : IsTrace (Step .xorKey (fun _ => .l2TableCache) 1)
      ⟨sampleImage.bs, fun _ => none, fun _ _ => false⟩ [(.flush .l2TableCache, _)] :=
    ⟨.flush _ _ _ _ rfl, trivial⟩
  exact cache_run_refines hTr sampleImage rfl

def noEnv : Env := ⟨none, fun _ => none⟩

/-- A table that is still dirty at the close is written under what the wiped
key has left. -/
theorem close_writes_under_wiped_key :
    ∃ t tr, Image.qcow2SetKey (fun buf _ => buf.head?) [1] sampleImage = .ok 0 t ∧
      IsTrace (Call.Step .xorKey) ⟨t, true⟩ tr ∧
      ¬ EachState (fun d => ∀ w ∈ d.image.log, w.UnderKey .xorKey 1 512) ⟨t, true⟩ tr := by
  refine ⟨_, [(.cache (.getEmpty .l2TableCache 0x200), _),
    (.cache (.entryMarkDirty .l2TableCache 0), _), (.cache (.put .l2TableCache 0), _),
    (.close 0, _)], rfl,
    ⟨.call _ _ 3 noEnv fun _ => 0, .call _ _ 3 noEnv fun _ => 0, .call _ _ 3 noEnv fun _ => 0,
      .call _ _ 3 noEnv fun _ => 0, trivial⟩, fun h => ?_⟩
  have hw := h.last ⟨0x200, .encryptMetadata 0 0x200 (List.replicate 512 0) 512 1,
    some ⟨List.replicate 512 0, 0x200, true, 33, 0⟩⟩ (List.Mem.head _)
  exact absurd (congrArg List.head? (hw _ rfl).2) (by decide)

theorem flushed_before_close_under_key :
    ∃ t tr ctx, Image.qcow2SetKey (fun buf _ => buf.head?) [1] sampleImage = .ok 0 t ∧
      IsTrace (Call.Step .xorKey) ⟨t, true⟩ tr ∧
      EachState (fun d => ∀ w ∈ d.image.log, w.UnderKey .xorKey ctx 512) ⟨t, true⟩ tr ∧
      (lastState ⟨t, true⟩ tr).image.log.length = 1 := by
  have hTr : IsTrace (Call.Step .xorKey) ⟨finalState
      (Image.qcow2SetKey (fun buf _ => buf.head?) [1] sampleImage), true⟩
      [(.cache (.getEmpty .l2TableCache 0x200), _),
        (.cache (.entryMarkDirty .l2TableCache 0), _), (.cache (.put .l2TableCache 0), _),
        (.flush, _), (.close 0, _)] :=
    ⟨.call _ _ 3 noEnv fun _ => 0, .call _ _ 3 noEnv fun _ => 0, .call _ _ 3 noEnv fun _ => 0,
      .call _ _ 3 noEnv fun _ => 0, .call _ _ 3 noEnv fun _ => 0, trivial⟩
  obtain ⟨ctx, -, hAll⟩ := metadata_under_session_key .xorKey (fun buf _ => buf.head?) [1]
    sampleImage _ sampleImage_opened rfl _ hTr ⟨trivial, trivial, trivial, trivial, by
      intro c
      cases c <;> decide, trivial⟩
  exact ⟨_, _, ctx, rfl, hTr, hAll, by decide +kernel⟩

/-! ## No plaintext -/

/-- Made by `qcow2_encrypt_metadata` or, for guest data, by `qcow2_encrypt_sectors`. -/
def FileBuf.IsEncrypted : FileBuf Key → Prop
  | .plain _ => False
  | .encryptMetadata _ _ _ _ _ => True
  | .encryptSectors _ _ _ _ => True

instance (buf : FileBuf Key) : Decidable buf.IsEncrypted :=
  match buf with
  | .plain _ => isFalse id
  | .encryptMetadata _ _ _ _ _ => isTrue trivial
  | .encryptSectors _ _ _ _ => isTrue trivial

theorem isEncrypted_writeRules (set : Settings Key) : WriteRules set fun w => w.buf.IsEncrypted :=
  ⟨fun _ => trivial, fun _ _ _ _ => trivial, fun _ _ _ _ => trivial⟩

/-- **No plaintext metadata is written**, in every session whose calls need no
larger L1 table and leave snapshots alone. -/
theorem no_plaintext_metadata (cbc : AesCbc Key)
    (aesniSetKey : List UInt8 → Nat → Option Key) (key : List UInt8) (s t : Image Key)
    (hOpen : s.OpenedPrivate) (hKey : Image.qcow2SetKey aesniSetKey key s = .ok 0 t)
    (tr : Trace (Driver Key) (Call Key)) (hTr : IsTrace (Call.Step cbc) ⟨t, true⟩ tr)
    (hConfined : EachStep (fun d call => call.Confined d.image) ⟨t, true⟩ tr) :
    EachState (fun d => ∀ w ∈ d.image.log, w.buf.IsEncrypted) ⟨t, true⟩ tr := by
  obtain ⟨ctx, -, hs⟩ := qcow2SetKey_session hOpen hKey fun w => w.buf.IsEncrypted
  refine eachState_of_inv (fun d hd => hd.log) ?_ (DriverInv.start hs) hTr hConfined
  intro d call d' hd hStep hCall
  refine hd.step (isEncrypted_writeRules _) hStep (Or.inr hCall) ?_
  rintro freed depth rfl
  cases hStep
  exact (hd.session rfl).close depth (fun _ => isEncrypted_writeRules _) freed

/-- Going back to a snapshot writes the L1 table in plaintext. -/
theorem goto_writes_plain_l1 :
    ∃ t tr, Image.qcow2SetKey (fun buf _ => buf.head?) [1] sampleImage = .ok 0 t ∧
      IsTrace (Call.Step .xorKey) ⟨t, true⟩ tr ∧
      ¬ EachState (fun d => ∀ w ∈ d.image.log, w.buf.IsEncrypted) ⟨t, true⟩ tr := by
  refine ⟨_, [(.snapshotGoto "base", _)], rfl, ⟨.call _ _ 3 noEnv fun _ => 0, trivial⟩, fun h => ?_⟩
  exact absurd h.last (by decide +kernel)

theorem guest_write_encrypted :
    ∃ t tr, Image.qcow2SetKey (fun buf _ => buf.head?) [1] sampleImage = .ok 0 t ∧
      IsTrace (Call.Step .xorKey) ⟨t, true⟩ tr ∧
      EachState (fun d => ∀ w ∈ d.image.log, w.buf.IsEncrypted) ⟨t, true⟩ tr := by
  have hTr : IsTrace (Call.Step .xorKey) ⟨finalState
      (Image.qcow2SetKey (fun buf _ => buf.head?) [1] sampleImage), true⟩
      [(.flush, _), (.aioWritev 0 0 (List.replicate 512 7) 1, _), (.aioWriteCb 0 0, _)] :=
    ⟨.call _ _ 20 noEnv fun _ => 0, .call _ _ 20 noEnv fun _ => 0, .call _ _ 20 noEnv fun _ => 0,
      trivial⟩
  have hReach : ∀ sector, 0 ≤ sector → sector < 0 + 1 →
      sampleImage.l1Index (UInt64.ofNat (sector * 512)) < 1 := by
    intro sector _ hHi
    cases (by omega : sector = 0)
    decide
  have hAll := no_plaintext_metadata .xorKey (fun buf _ => buf.head?) [1]
    sampleImage _ sampleImage_opened rfl _ hTr ⟨trivial, hReach, trivial, trivial⟩
  exact ⟨_, _, rfl, hTr, hAll⟩

end Lacuna.Qcow2
