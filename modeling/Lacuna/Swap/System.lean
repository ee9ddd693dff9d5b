import Lacuna.Swap.Life

/-!
# Private swap — many pages and swap entries

The swap cache, the swap map and the swap device with any number of pages that share
processes and swap entries. What happens to one page in the swap cache is the code of
`Lacuna.Swap.Life`, run on the part of the system that belongs to its entry
(`SwapSystem.life`, `SwapSystem.put`).

Modelling conventions, beside those of `Lacuna.Swap.Life`:

* any frame that is neither in the swap cache nor a scratch page may be a page
  outside the swap cache;
* `dirty` is the page's dirty flag or a dirty bit in one of the page table entries;
* a page is read in two steps, `read_swap_cache_async` and `end_swap_bio_read`, and
  locked in between;
* a write fault takes a page over in two steps. `reuse_swap_page` drops the
  reference of the swap cache, and `do_swap_page` that of the page table entry at its
  end, in `swap_free`. The entry is locked throughout, so nobody duplicates or drops
  that reference, but readahead goes by the swap map alone;
* `free_swap_and_cache` is `swap_free` followed by the freeing of `try_to_free_swap`.
-/

namespace Lacuna.Swap

open Function

structure CachedPage extends AnonPage where
  mapcount : Nat
  /-- locked, its contents on the way from the swap device -/
  reading : Bool
  uptodate : Bool
  deriving DecidableEq

structure SwapSlot (Data : Type) where
  map : SwapCount
  page : Option CachedPage
  bio : Option Bio
  disk : Data
  /-- a write fault has taken the page out of the swap cache and still has to
  drop the entry -/
  taken : Bool
  /-- history: the contents of the page when `swap_writepage` last wrote it -/
  written : Option Data
  /-- history: what it then submitted was the scratch page -/
  encrypted : Bool
  /-- history: the page in the swap cache was read while the entry was taken -/
  orphan : Bool

structure SwapSystem (Data : Type) where
  priv : Privos Data
  slot : Nat → SwapSlot Data

variable {Data : Type}

/-! ## One entry -/

/-- The system as the code for the page under `e` sees it. -/
def SwapSystem.life (s : SwapSystem Data) (e : Nat) : Life Data where
  priv := s.priv
  swapMap := fun e => (s.slot e).map
  page := (s.slot e).page.map CachedPage.toAnonPage
  pte := if (s.slot e).page.any fun p => p.mapcount != 0 then .present false else .swap e
  bio := (s.slot e).bio
  disk := fun e => (s.slot e).disk
  tracked := false

def SwapSystem.modify (s : SwapSystem Data) (e : Nat) (f : SwapSlot Data → SwapSlot Data) :
    SwapSystem Data :=
  { s with slot := update s.slot e (f (s.slot e)) }

/-- The system after that code: `e` has no cached page once the page has left the swap cache. -/
def SwapSystem.put (s : SwapSystem Data) (e : Nat) (l : Life Data) : SwapSystem Data :=
  SwapSystem.modify { s with priv := l.priv } e fun slot =>
    { slot with
      map := l.swapMap e
      page := (l.page.filter AnonPage.swapCache).bind fun q =>
        slot.page.map fun p => { p with toAnonPage := q }
      bio := l.bio
      disk := l.disk e }

def SwapSystem.enter (s : SwapSystem Data) (e : Nat) (p : CachedPage) (orphan : Bool) :
    SwapSystem Data :=
  s.modify e fun slot =>
    { slot with map := { slot.map with hasCache := true }, page := some p, orphan := orphan }

/-- `shrink_page_list` for an anonymous page that is not in the swap cache, mapped `mapcount`
times by `vmas`. -/
def SwapSystem.shrinkPageList (s : SwapSystem Data) (frame mapcount : Nat)
    (vmas : Option (List AnonVma)) (r : ReclaimOutcome) : SwapSystem Data :=
  let e := r.swapEntry
  let p : AnonPage := ⟨frame, false, false, false⟩
  match addToSwap (s.life e) p e r.cacheInsert with
  | (false, l) => s.put e l
  | (true, l) =>
    let q : CachedPage := ⟨⟨frame, true, true, false⟩, mapcount, false, true⟩
    match addToPriv l.priv r.alloc frame mapcount vmas with
    | (true, priv) => SwapSystem.enter { s with priv := priv } e q false
    | (false, priv) =>
      let s := SwapSystem.enter { s with priv := priv } e q false
      if r.vmSwapFull then s.put e (tryToFreeSwap (s.life e) q.toAnonPage r.gfpIo).2 else s

/-- As `put`; a write that has been submitted is noted. -/
def SwapSystem.putWritten (s : SwapSystem Data) (e : Nat) (p : CachedPage) (l : Life Data) :
    SwapSystem Data :=
  match l.bio with
  | none => s.put e l
  | some b => (s.put e l).modify e fun slot =>
      { slot with
        written := some (s.priv.mem p.frame)
        encrypted := b.bvPage != p.frame }

def SwapSystem.swapWritepage (enc : Nat → Data → Data) (s : SwapSystem Data) (e : Nat)
    (p : CachedPage) (bio gfpIo : Bool) : Option (SwapSystem Data) :=
  (Swap.swapWritepage enc (s.life e) { p.toAnonPage with dirty := false } bio gfpIo).map
    (s.putWritten e p)

def SwapSystem.readSwapCacheAsync (s : SwapSystem Data) (e frame : Nat) : SwapSystem Data :=
  SwapSystem.enter
    { s with priv := { s.priv with
        pagePrivate := update s.priv.pagePrivate frame e } }
    e ⟨⟨frame, true, false, false⟩, 0, true, false⟩ (s.slot e).taken

def SwapSystem.endSwapBioRead (dec : Nat → Data → Data) (s : SwapSystem Data) (e : Nat)
    (p : CachedPage) (uptodate : Bool) : SwapSystem Data :=
  if uptodate then
    let priv := { s.priv with mem := update s.priv.mem p.frame (s.slot e).disk }
    SwapSystem.modify { s with priv := privDecryptPage dec priv p.frame } e fun slot =>
      { slot with page := some { p with reading := false, uptodate := true } }
  else s.modify e fun slot => { slot with page := some { p with reading := false } }

/-- `reuse_swap_page` of a page that nobody else uses. -/
def SwapSystem.reuseSwapPage (s : SwapSystem Data) (e : Nat) (p : CachedPage) : SwapSystem Data :=
  (s.put e (deleteFromSwapCache (s.life e) { p.toAnonPage with dirty := true })).modify e
    fun slot => { slot with taken := slot.map.count == 1 }

def SwapSystem.swapFree (s : SwapSystem Data) (e : Nat) : SwapSystem Data :=
  (s.put e (swapEntryFree (s.life e) e false)).modify e fun slot => { slot with taken := false }

/-- The end of `do_swap_page` for a page that stays in the swap cache. -/
def SwapSystem.doSwapPage (s : SwapSystem Data) (e : Nat) (p : CachedPage) : SwapSystem Data :=
  (s.put e (swapEntryFree (s.life e) e false)).modify e fun slot =>
    { slot with page := some { p with mapcount := p.mapcount + 1 } }

inductive SwapOp (Data : Type) where
  | shrinkPageList (frame mapcount : Nat) (vmas : Option (List AnonVma)) (r : ReclaimOutcome)
  /-- one page table entry gives way to the swap entry -/
  | tryToUnmap (entry : Nat) (pteDirty : Bool)
  | swapWritepage (entry : Nat) (bio gfpIo : Bool)
  | endSwapBioWrite (entry : Nat) (uptodate : Bool)
  /-- a process writes `data` to the page in the swap cache -/
  | setPageDirty (entry : Nat) (data : Data)
  /-- a process writes `data` to a page outside the swap cache -/
  | storePage (frame : Nat) (data : Data)
  | tryToFreeSwap (entry : Nat) (gfpIo : Bool)
  | removeMapping (entry : Nat)
  | readSwapCacheAsync (entry frame : Nat)
  | endSwapBioRead (entry : Nat) (uptodate : Bool)
  | doSwapPage (entry : Nat)
  | reuseSwapPage (entry : Nat)
  | swapFree (entry : Nat)
  /-- `fork` copies a page table entry that holds the swap entry -/
  | swapDuplicate (entry : Nat)
  /-- `fork` copies a page table entry that maps the page -/
  | pageDupRmap (entry : Nat)
  /-- a process that maps the page unmaps it -/
  | pageRemoveRmap (entry : Nat)

/-- `f` on the page in the swap cache under `e`, if it meets `guard`. -/
def SwapSystem.onPage (s : SwapSystem Data) (e : Nat) (guard : CachedPage → Bool)
    (f : CachedPage → Option (SwapSystem Data)) : Option (SwapSystem Data) :=
  (s.slot e).page.bind fun p => if guard p then f p else none

/-- `s` with `count` page table entries that hold `e`, and `p` in the swap
cache. -/
def SwapSystem.remap (s : SwapSystem Data) (e count : Nat) (p : CachedPage) : SwapSystem Data :=
  s.modify e fun slot => { slot with map := { slot.map with count := count }, page := some p }

section Step

variable (enc dec : Nat → Data → Data)

/-- One step, `none` if the code does not take it. The guards are the page lock, held while a
page is read, and the conditions under which the callers get there. -/
def swapStep (s : SwapSystem Data) : SwapOp Data → Option (SwapSystem Data)
  | .shrinkPageList frame mapcount vmas r =>
    if r.swapEntry != 0 && (s.slot r.swapEntry).map != .unused then none
    else some (s.shrinkPageList frame mapcount vmas r)
  | .tryToUnmap e pteDirty => s.onPage e (fun p => !p.reading && p.mapcount != 0) fun p =>
      some (s.remap e ((s.slot e).map.count + 1)
        { p with mapcount := p.mapcount - 1, dirty := p.dirty || pteDirty })
  | .swapWritepage e bio gfpIo => s.onPage e (fun p => !p.reading && !p.writeback && p.dirty)
      fun p => s.swapWritepage enc e p bio gfpIo
  | .endSwapBioWrite e uptodate => s.onPage e (fun _ => true) fun p =>
      (s.slot e).bio.bind fun b =>
        (endSwapBioWrite (s.life e) p.toAnonPage b uptodate).map (s.put e)
  | .setPageDirty e data => s.onPage e (fun p => !p.reading && p.mapcount != 0) fun p =>
      some (SwapSystem.modify
        { s with priv := { s.priv with mem := update s.priv.mem p.frame data } } e
        fun slot => { slot with page := some { p with dirty := true } })
  | .storePage frame data =>
    some { s with priv := { s.priv with mem := update s.priv.mem frame data } }
  | .tryToFreeSwap e gfpIo => s.onPage e (fun p => !p.reading) fun p =>
      some (s.put e (tryToFreeSwap (s.life e) p.toAnonPage gfpIo).2)
  | .removeMapping e =>
    s.onPage e (fun p => !p.reading && !p.dirty && !p.writeback && p.mapcount == 0) fun p =>
      some (s.put e (removeMapping (s.life e) p.toAnonPage))
  | .readSwapCacheAsync e frame =>
    if (s.slot e).map.count = 0 || (s.slot e).map.hasCache then none
    else some (s.readSwapCacheAsync e frame)
  | .endSwapBioRead e uptodate => s.onPage e CachedPage.reading fun p =>
      some (s.endSwapBioRead dec e p uptodate)
  | .doSwapPage e => s.onPage e
      (fun p => !p.reading && p.uptodate && (s.slot e).map.count != 0 && !(s.slot e).taken)
      fun p => some (s.doSwapPage e p)
  | .reuseSwapPage e => s.onPage e
      (fun p => !p.reading && p.uptodate && !p.writeback && !(s.slot e).taken &&
        p.mapcount + (s.slot e).map.count == 1)
      fun p => some (s.reuseSwapPage e p)
  | .swapFree e => if (s.slot e).map.count = 0 then none else some (s.swapFree e)
  | .swapDuplicate e =>
    if (s.slot e).map.count = 0 || (s.slot e).taken then none
    else some (s.modify e fun slot =>
      { slot with map := { slot.map with count := slot.map.count + 1 } })
  | .pageDupRmap e => s.onPage e (fun p => p.mapcount != 0) fun p =>
      some (s.remap e (s.slot e).map.count { p with mapcount := p.mapcount + 1 })
  | .pageRemoveRmap e => s.onPage e (fun p => p.mapcount != 0) fun p =>
      some (s.remap e (s.slot e).map.count { p with mapcount := p.mapcount - 1 })

/-- `frame` belongs to entry `e`: the page in the swap cache, or its scratch
page. -/
def SwapSystem.Owns (s : SwapSystem Data) (e frame : Nat) : Prop :=
  (∃ p, (s.slot e).page = some p ∧ p.frame = frame) ∨
    ∃ swpd, s.priv.tree e = some swpd ∧ swpd.scratch = some frame

/-- `frame` is none of the pages and scratch pages of the swap cache. -/
def SwapSystem.Idle (s : SwapSystem Data) (frame : Nat) : Prop :=
  ∀ e, ¬ s.Owns e frame

def LiveCtx (st : Privos Data) (ctx : Nat) : Prop :=
  ∃ k, st.ctxs ctx = some k ∧ k.mapcount ≠ 0

/-- Page frames and scratch pages handed out are not in use, and a VMA's context is alive. -/
def SwapSystem.Admits (s : SwapSystem Data) : SwapOp Data → Prop
  | .shrinkPageList frame _ vmas r => s.Idle frame ∧
      (∀ sc, r.alloc.scratch = some sc → s.Idle sc ∧ sc ≠ frame) ∧
      ∀ vs, vmas = some vs → ∀ v ∈ vs, ∀ ctx, v.privCtx = some ctx → LiveCtx s.priv ctx
  | .storePage frame _ => s.Idle frame
  | .readSwapCacheAsync _ frame => s.Idle frame
  | _ => True

def SwapStep (s : SwapSystem Data) (op : SwapOp Data) (t : SwapSystem Data) : Prop :=
  s.Admits op ∧ swapStep enc dec s op = some t

end Step

end Lacuna.Swap
