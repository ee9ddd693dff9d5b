import Lacuna.Swap.Privos

/-!
# Private swap — the life of an anonymous page

One anonymous page, mapped once, as `mm/vmscan.c`, `mm/swap_state.c`, `mm/swapfile.c`,
`mm/memory.c` and `mm/page_io.c` move it about. Each step holds the page lock from
beginning to end, or touches nothing that the lock protects.

Modelling conventions:

* the page table entry is present, with its dirty bit, or holds a swap entry,
  so `page_mapcount` is 1 or 0;
* the swap map keeps, for each swap entry, the number of page table entries
  that hold it and whether the swap cache does; entry 0 is never handed out;
* a bio in flight remembers the page it was given and the entry it is for;
* answers of the environment are part of the step.
-/

namespace Lacuna.Swap

open Function

structure SwapCount where
  count : Nat
  hasCache : Bool
  deriving DecidableEq

def SwapCount.unused : SwapCount := ⟨0, false⟩

structure AnonPage where
  frame : Nat
  swapCache : Bool
  dirty : Bool
  writeback : Bool
  deriving DecidableEq

inductive Pte where
  | present (dirty : Bool)
  | swap (entry : Nat)
  deriving DecidableEq

structure Bio where
  bvPage : Nat
  sector : Nat
  deriving DecidableEq

structure Life (Data : Type) where
  priv : Privos Data
  swapMap : Nat → SwapCount
  /-- the struct page, while the page is in memory -/
  page : Option AnonPage
  pte : Pte
  bio : Option Bio
  disk : Nat → Data
  /-- history: the last `add_to_priv` succeeded, and no write has completed
  since -/
  tracked : Bool

variable {Data : Type}

def Life.mapcount (s : Life Data) : Nat :=
  match s.pte with
  | .present _ => 1
  | .swap _ => 0

/-! ## Swap entries and the swap cache -/

/-- The counts after dropping the reference of the swap cache (`SWAP_HAS_CACHE`) or of a page
table entry. -/
def SwapCount.drop (m : SwapCount) (swapHasCache : Bool) : SwapCount :=
  if swapHasCache then { m with hasCache := false } else { m with count := m.count - 1 }

/-- The last reference takes the private descriptor with it. -/
def swapEntryFree (s : Life Data) (entry : Nat) (swapHasCache : Bool) : Life Data :=
  let m := (s.swapMap entry).drop swapHasCache
  { s with
    swapMap := update s.swapMap entry m
    priv := if m = .unused then deleteFromPriv (setSwappedBit s.priv entry 0) entry
      else s.priv }

def pageSwapcount (s : Life Data) (p : AnonPage) : Nat :=
  (s.swapMap (s.priv.pagePrivate p.frame)).count

def deleteFromSwapCache (s : Life Data) (p : AnonPage) : Life Data :=
  let entry := s.priv.pagePrivate p.frame
  swapEntryFree
    { s with
      priv := { s.priv with pagePrivate := update s.priv.pagePrivate p.frame 0 }
      page := some { p with swapCache := false } }
    entry true

def tryToFreeSwap (s : Life Data) (p : AnonPage) (gfpIo : Bool) : Bool × Life Data :=
  if !p.swapCache || p.writeback || pageSwapcount s p != 0 || !gfpIo then (false, s)
  else (true, deleteFromSwapCache s { p with dirty := true })

def reuseSwapPage (s : Life Data) (p : AnonPage) : Bool × Life Data :=
  if s.mapcount ≤ 1 ∧ p.swapCache then
    let count := s.mapcount + pageSwapcount s p
    if count = 1 ∧ !p.writeback then
      (true, deleteFromSwapCache s { p with dirty := true })
    else (decide (count ≤ 1), s)
  else (decide (s.mapcount ≤ 1), s)

/-- `entry` is what `get_swap_page` returns, and `cacheInsert` whether `add_to_swap_cache` finds
memory. -/
def addToSwap (s : Life Data) (p : AnonPage) (entry : Nat) (cacheInsert : Bool) :
    Bool × Life Data :=
  if entry = 0 then (false, s)
  else
    let s := { s with swapMap := update s.swapMap entry ⟨0, true⟩ }
    if cacheInsert then
      (true, { s with
        priv := { s.priv with
          pagePrivate := update s.priv.pagePrivate p.frame entry }
        page := some { p with swapCache := true, dirty := true } })
    else (false, swapEntryFree s entry true)

/-! ## Reclaim -/

structure ReclaimOutcome where
  swapEntry : Nat
  cacheInsert : Bool
  alloc : PrivAlloc
  vmSwapFull : Bool
  gfpIo : Bool
  deriving DecidableEq

/-- `shrink_page_list` for an anonymous page that is not in the swap cache. When `add_to_priv`
fails it stays there unless swap is short. -/
def shrinkPageList (vmas : List AnonVma) (s : Life Data) (p : AnonPage) (r : ReclaimOutcome) :
    Life Data :=
  match addToSwap s p r.swapEntry r.cacheInsert with
  | (false, s) => s
  | (true, s) =>
    match addToPriv s.priv r.alloc p.frame s.mapcount (some vmas) with
    | (true, priv) => { s with priv := priv, tracked := true }
    | (false, priv) =>
      let s := { s with priv := priv, tracked := false }
      if r.vmSwapFull then
        (tryToFreeSwap s { p with swapCache := true, dirty := true } r.gfpIo).2
      else s

/-- The dirty bit of the page table entry moves to the page. -/
def tryToUnmap (s : Life Data) (p : AnonPage) (pteDirty : Bool) : Life Data :=
  let entry := s.priv.pagePrivate p.frame
  let m := s.swapMap entry
  { s with
    swapMap := update s.swapMap entry { m with count := m.count + 1 }
    page := some { p with dirty := p.dirty || pteDirty }
    pte := .swap entry }

def removeMapping (s : Life Data) (p : AnonPage) : Life Data :=
  { deleteFromSwapCache s p with page := none }

/-! ## Swap I/O -/

/-- `swap_writepage` on a page whose dirty flag `pageout` has just cleared;
`bio` says whether a bio could be allocated. `none` is a `BUG_ON`. -/
def swapWritepage (enc : Nat → Data → Data) (s : Life Data) (p : AnonPage) (bio gfpIo : Bool) :
    Option (Life Data) :=
  match tryToFreeSwap s p gfpIo with
  | (true, s) =>
    some { s with priv := setSwappedBit s.priv (s.priv.pagePrivate p.frame) 0 }
  | (false, s) =>
    if bio then do
      let (bvPage, priv) ← privEncryptPage enc s.priv p.frame
      return { s with
        priv := priv
        page := some { p with writeback := true }
        bio := some ⟨bvPage, s.priv.pagePrivate p.frame⟩ }
    else some { s with page := some { p with dirty := true } }

/-- `end_swap_bio_write` for the bio `b`. `none` is a NULL dereference, or the end of writeback
of another page. -/
def endSwapBioWrite (s : Life Data) (p : AnonPage) (b : Bio) (uptodate : Bool) :
    Option (Life Data) :=
  let written := if uptodate then update s.disk b.sector (s.priv.mem b.bvPage)
    else s.disk
  let (page, priv) :=
    match findPrivPage s.priv (s.priv.pagePrivate b.bvPage) with
    | some swpd => (swpd.page, (swpd.page.map fun page =>
        deleteScratchPage s.priv (s.priv.pagePrivate page)).getD s.priv)
    | none => (some b.bvPage, s.priv)
  if page = some p.frame then
    some { s with
      priv := priv
      page := some { p with dirty := p.dirty || !uptodate, writeback := false }
      bio := none
      disk := written
      tracked := false }
  else none

/-- `read_swap_cache_async` and `end_swap_bio_read`: a new frame for the page,
read and decrypted. -/
def readSwapCacheAsync (dec : Nat → Data → Data) (s : Life Data) (entry frame : Nat) :
    Life Data :=
  let priv := { s.priv with
    pagePrivate := update s.priv.pagePrivate frame entry
    mem := update s.priv.mem frame (s.disk entry) }
  { s with
    priv := privDecryptPage dec priv frame
    swapMap := update s.swapMap entry { s.swapMap entry with hasCache := true }
    page := some { frame := frame, swapCache := true, dirty := false, writeback := false } }

def freeSwapIfFull (s : Life Data) (vmSwapFull gfpIo : Bool) : Life Data :=
  match s.page with
  | some p => if vmSwapFull then (tryToFreeSwap s p gfpIo).2 else s
  | none => s

/-- `do_swap_page` once the page is in the swap cache. -/
def mapSwapPage (s : Life Data) (p : AnonPage) (entry : Nat) (write vmSwapFull gfpIo : Bool) :
    Life Data :=
  let (exclusive, s) := if write then reuseSwapPage s p else (false, s)
  freeSwapIfFull (swapEntryFree { s with pte := .present exclusive } entry false) vmSwapFull gfpIo

inductive LifeOp (Data : Type) where
  | shrinkPageList (r : ReclaimOutcome)
  | tryToUnmap
  | swapWritepage (bio gfpIo : Bool)
  | endSwapBioWrite (uptodate : Bool)
  /-- someone writes `data` to the page and calls `set_page_dirty` -/
  | setPageDirty (data : Data)
  | tryToFreeSwap (gfpIo : Bool)
  /-- a write fault on the mapped page -/
  | reuseSwapPage
  | removeMapping
  /-- a fault on the swap entry; `frame` is the page to read into -/
  | doSwapPage (write : Bool) (frame : Nat) (vmSwapFull gfpIo : Bool)

section Step

variable (enc dec : Nat → Data → Data) (vmas : List AnonVma)

/-- One step, `none` if the code does not take it. The guards are the conditions under which
`shrink_page_list`, `pageout`, `do_wp_page` and `do_swap_page` get there; what is handed out is
not in use. -/
def lifeStep (s : Life Data) (op : LifeOp Data) : Option (Life Data) :=
  match op, s.page, s.pte with
  | .shrinkPageList r, some p, .present _ =>
    if p.swapCache || p.writeback || r.swapEntry != 0 && s.swapMap r.swapEntry != .unused ||
        r.alloc.scratch == some p.frame then none
    else some (shrinkPageList vmas s p r)
  | .tryToUnmap, some p, .present d =>
    if !p.swapCache || p.writeback then none else some (tryToUnmap s p d)
  | .swapWritepage bio gfpIo, some p, _ =>
    if !p.swapCache || p.writeback || !p.dirty then none
    else swapWritepage enc s { p with dirty := false } bio gfpIo
  | .endSwapBioWrite uptodate, some p, _ =>
    s.bio.bind fun b => endSwapBioWrite s p b uptodate
  | .setPageDirty data, some p, _ =>
    some { s with
      priv := { s.priv with mem := update s.priv.mem p.frame data }
      page := some { p with dirty := true } }
  | .tryToFreeSwap gfpIo, some p, _ => some (tryToFreeSwap s p gfpIo).2
  | .reuseSwapPage, some p, .present _ =>
    some { (reuseSwapPage s p).2 with pte := .present true }
  | .removeMapping, some p, .swap _ =>
    if !p.swapCache || p.dirty || p.writeback then none else some (removeMapping s p)
  | .doSwapPage write _ vmSwapFull gfpIo, some p, .swap entry =>
    if p.swapCache && s.priv.pagePrivate p.frame == entry then
      some (mapSwapPage s p entry write vmSwapFull gfpIo)
    else none
  | .doSwapPage write frame vmSwapFull gfpIo, none, .swap entry =>
    let s := readSwapCacheAsync dec s entry frame
    s.page.map fun p => mapSwapPage s p entry write vmSwapFull gfpIo
  | _, _, _ => none

end Step

end Lacuna.Swap
