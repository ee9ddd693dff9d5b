import Lacuna.Lib.Slab
import Lacuna.Lib.Trace
import Lacuna.Swap.Privos

/-!
# Private swap — accounting for the descriptors

`add_to_priv`, `delete_from_priv` and `delete_scratch_page` of `mm/privos.c` with the
memory they take and give back: descriptors are in memory of their own, the tree
holds their addresses, and each allocation of a descriptor or a scratch page
counts how often it has been freed. A descriptor that has been freed is wiped.

Two failures are not accounted for. `__alloc_priv_page` keeps its reference on the
context when it gets no scratch page or descriptor, and after a failed
`radix_tree_insert` the descriptor is freed twice.
-/

namespace Lacuna.Swap

open Lacuna.Lib Function List Option

structure Swpd where
  ctx : Option Nat
  page : Option Nat
  scratch : Option Nat
  entry : Nat
  flags : Nat
  deriving DecidableEq

def Swpd.wiped : Swpd := ⟨none, none, none, 0, 0⟩

structure SwpdHeap where
  /-- `privos_tree`: the addresses of descriptors -/
  tree : Nat → Option Nat
  swpd : Nat → Swpd
  ctxs : Nat → Option PrivCipherCtx
  pagePrivate : Nat → Nat
  /-- `swpd_cachep` -/
  descriptors : Slab
  /-- `scratch_cachep` -/
  scratchPages : Slab

structure SwpdAlloc where
  scratch : Option Nat
  swpd : Option Nat
  preload : Bool
  insert : Bool
  deriving DecidableEq

namespace SwpdHeap

def setSwpd (st : SwpdHeap) (a : Nat) (d : Swpd) : SwpdHeap :=
  { st with swpd := update st.swpd a d }

def setTree (st : SwpdHeap) (entry : Nat) (a : Option Nat) : SwpdHeap :=
  { st with tree := update st.tree entry a }

def ctxEntryGet (st : SwpdHeap) (ctx : Nat) : SwpdHeap :=
  { st with
    ctxs := update st.ctxs ctx
      ((st.ctxs ctx).map fun k => { k with pagecount := k.pagecount + 1 }) }

def ctxEntryPut (st : SwpdHeap) (ctx : Option Nat) : SwpdHeap :=
  match ctx with
  | none => st
  | some ctx =>
    { st with
      ctxs := update st.ctxs ctx
        ((st.ctxs ctx).bind fun k =>
          if k.mapcount = 0 ∧ k.pagecount - 1 = 0 then none
          else some { k with pagecount := k.pagecount - 1 }) }

def freeScratchPage (st : SwpdHeap) (scratch : Option Nat) : SwpdHeap :=
  match scratch with
  | none => st
  | some sc => { st with scratchPages := st.scratchPages.free sc }

def freePrivPage (st : SwpdHeap) (a : Nat) : SwpdHeap :=
  let st' := (st.ctxEntryPut (st.swpd a).ctx).freeScratchPage (st.swpd a).scratch
  { st'.setSwpd a Swpd.wiped with descriptors := st.descriptors.free a }

def findPrivPage (st : SwpdHeap) (entry : Nat) : Option Swpd := (st.tree entry).map st.swpd

def testSwappedBit (st : SwpdHeap) (entry : Nat) : Bool :=
  (st.findPrivPage entry).any fun d => d.flags != 0

def setSwappedBit (st : SwpdHeap) (entry val : Nat) : SwpdHeap :=
  match st.tree entry with
  | none => st
  | some a => st.setSwpd a { st.swpd a with flags := val }

/-- A descriptor from `swpd_cachep`, filled in for a page with its scratch page. -/
def fillIn (st : SwpdHeap) (a sc page ctx : Nat) : SwpdHeap :=
  { st.setSwpd a ⟨some ctx, some page, some sc, st.pagePrivate page, 0⟩ with
    descriptors := st.descriptors.alloc a
    pagePrivate := update st.pagePrivate sc (st.pagePrivate page) }

def allocPrivPage (st : SwpdHeap) (o : SwpdAlloc) (page ctx : Nat) : Option Nat × SwpdHeap :=
  let st := st.ctxEntryGet ctx
  match o.scratch with
  | none => (none, st)
  | some sc =>
    let st := { st with scratchPages := st.scratchPages.alloc sc }
    match o.swpd with
    | none => (none, st.freeScratchPage (some sc))
    | some a => (some a, st.fillIn a sc page ctx)

/-- Take the descriptor under `entry` out of the tree and free it. -/
def deleteAt (st : SwpdHeap) (entry : Nat) : SwpdHeap :=
  match st.tree entry with
  | none => st
  | some a => (st.setTree entry none).freePrivPage a

def addToPrivTree (st : SwpdHeap) (o : SwpdAlloc) (a : Nat) : Bool × SwpdHeap :=
  let entry := ((st.swpd a).page.map st.pagePrivate).getD 0
  if entry = 0 then (false, st)
  else if o.preload then
    -- `-EEXIST`: the old descriptor is removed and the insertion tried again
    let st := st.deleteAt entry
    if o.insert then (true, st.setTree entry (some a))
    else (false, st.freePrivPage a)
  else (false, st)

/-- `__add_to_priv` with the context: a descriptor that has not been entered is freed here. -/
def addPrivate (st : SwpdHeap) (o : SwpdAlloc) (page ctx : Nat) : Bool × SwpdHeap :=
  match st.allocPrivPage o page ctx with
  | (none, st) => (false, st)
  | (some a, st) =>
    match st.addToPrivTree o a with
    | (true, st) => (true, st)
    | (false, st) => (false, st.freePrivPage a)

def addToPriv (st : SwpdHeap) (o : SwpdAlloc) (page mapcount : Nat) (vmas : Option (List AnonVma)) :
    Bool × SwpdHeap :=
  if 1 < mapcount then (true, st)
  else if mapcount = 0 then (true, st)
  else
    match vmas.bind fun vs => (scanAnonVma none vs).bind AnonVma.privCtx with
    | none => (true, st)
    | some ctx => st.addPrivate o page ctx

def deleteFromPriv (st : SwpdHeap) (entry : Nat) : SwpdHeap :=
  if entry ≠ 0 ∧ st.testSwappedBit entry = false then st.deleteAt entry else st

def deleteScratchPage (st : SwpdHeap) (entry : Nat) : SwpdHeap :=
  if entry ≠ 0 then
    match st.tree entry with
    | none => st
    | some a =>
      let d := st.swpd a
      if d.flags ≠ 0 ∧ d.scratch.isSome then
        (st.freeScratchPage d.scratch).setSwpd a { d with scratch := none, page := none }
      else st
  else st

/-- The heap after an `__alloc_priv_page` that got its scratch page and descriptor. -/
def allocated (st : SwpdHeap) (a sc page ctx : Nat) : SwpdHeap :=
  fillIn { st.ctxEntryGet ctx with scratchPages := st.scratchPages.alloc sc } a sc page ctx

/-- `pagecount` of a context; a context that is gone has none. -/
def pagecount (st : SwpdHeap) (ctx : Nat) : Int := (st.ctxs ctx).elim 0 PrivCipherCtx.pagecount

def pagesOf (st : SwpdHeap) (ctx : Nat) : Nat :=
  st.descriptors.live.countP fun a => decide ((st.swpd a).ctx = some ctx)

/-! ## What the operations leave alone -/

section Frame

variable (st : SwpdHeap)

@[simp] theorem tree_setTree_self (e : Nat) (a : Option Nat) : (st.setTree e a).tree e = a := by
  simp [setTree]

theorem tree_setTree_of_ne {e e' : Nat} (hNe : e' ≠ e) (a : Option Nat) :
    (st.setTree e a).tree e' = st.tree e' := by
  simp [setTree, hNe]

@[simp] theorem tree_ctxEntryPut (o : Option Nat) : (st.ctxEntryPut o).tree = st.tree := by
  cases o <;> rfl

@[simp] theorem swpd_ctxEntryPut (o : Option Nat) : (st.ctxEntryPut o).swpd = st.swpd := by
  cases o <;> rfl

@[simp] theorem pagePrivate_ctxEntryPut (o : Option Nat) :
    (st.ctxEntryPut o).pagePrivate = st.pagePrivate := by
  cases o <;> rfl

@[simp] theorem scratchPages_ctxEntryPut (o : Option Nat) :
    (st.ctxEntryPut o).scratchPages = st.scratchPages := by
  cases o <;> rfl

@[simp] theorem tree_freeScratchPage (o : Option Nat) : (st.freeScratchPage o).tree = st.tree := by
  cases o <;> rfl

@[simp] theorem swpd_freeScratchPage (o : Option Nat) : (st.freeScratchPage o).swpd = st.swpd := by
  cases o <;> rfl

@[simp] theorem ctxs_freeScratchPage (o : Option Nat) : (st.freeScratchPage o).ctxs = st.ctxs := by
  cases o <;> rfl

@[simp] theorem pagePrivate_freeScratchPage (o : Option Nat) :
    (st.freeScratchPage o).pagePrivate = st.pagePrivate := by
  cases o <;> rfl

@[simp] theorem descriptors_freeScratchPage (o : Option Nat) :
    (st.freeScratchPage o).descriptors = st.descriptors := by
  cases o <;> rfl

theorem tree_deleteAt (e : Nat) : (st.deleteAt e).tree e = none := by
  unfold deleteAt
  split
  next hNone => exact hNone
  next a hTree => simp [freePrivPage, setSwpd]

variable (a : Nat)

@[simp] theorem tree_freePrivPage : (st.freePrivPage a).tree = st.tree := by
  simp [freePrivPage, setSwpd]

@[simp] theorem swpd_freePrivPage : (st.freePrivPage a).swpd = update st.swpd a Swpd.wiped := by
  simp [freePrivPage, setSwpd]

@[simp] theorem pagePrivate_freePrivPage : (st.freePrivPage a).pagePrivate = st.pagePrivate := by
  simp [freePrivPage, setSwpd]

@[simp] theorem descriptors_freePrivPage :
    (st.freePrivPage a).descriptors = st.descriptors.free a := rfl

theorem ctxs_freePrivPage : (st.freePrivPage a).ctxs = (st.ctxEntryPut (st.swpd a).ctx).ctxs := by
  simp [freePrivPage, setSwpd]

theorem scratchPages_freePrivPage :
    (st.freePrivPage a).scratchPages = (st.freeScratchPage (st.swpd a).scratch).scratchPages := by
  cases hSc : (st.swpd a).scratch <;> simp [freePrivPage, setSwpd, hSc, freeScratchPage]

variable {a} {o : SwpdAlloc} {sc page c : Nat}

theorem allocPrivPage_eq (hSc : o.scratch = some sc) (hSwpd : o.swpd = some a) :
    st.allocPrivPage o page c = (some a, st.allocated a sc page c) := by
  rw [allocPrivPage, hSc, hSwpd]
  rfl

theorem swpd_allocated : (st.allocated a sc page c).swpd a =
    ⟨some c, some page, some sc, st.pagePrivate page, 0⟩ := by
  simp [allocated, fillIn, setSwpd, ctxEntryGet]

theorem pagePrivate_allocated :
    (st.allocated a sc page c).pagePrivate page = st.pagePrivate page := by
  by_cases hPage : page = sc
  · simp [allocated, fillIn, ctxEntryGet, hPage]
  · simp [allocated, fillIn, ctxEntryGet, hPage]

theorem allocPrivPage_failed (hFail : ¬ (o.scratch.isSome ∧ o.swpd.isSome)) :
    ∃ pages, st.allocPrivPage o page c = (none, { st.ctxEntryGet c with scratchPages := pages }) := by
  rw [allocPrivPage]
  cases hSc : o.scratch with
  | none => exact ⟨_, rfl⟩
  | some sc =>
    cases hSwpd : o.swpd with
    | none => exact ⟨_, rfl⟩
    | some a =>
      rw [hSc, hSwpd] at hFail
      exact absurd ⟨rfl, rfl⟩ hFail

end Frame

section Counts

variable {st : SwpdHeap} {c : Nat}

variable {a : Nat}

theorem pagecount_ctxEntryGet (hCtx : (st.ctxs c).isSome) (c' : Nat) :
    (st.ctxEntryGet c).pagecount c' = st.pagecount c' + if c' = c then 1 else 0 := by
  obtain ⟨k, hk⟩ := Option.isSome_iff_exists.mp hCtx
  by_cases hc : c' = c
  · subst hc
    simp [pagecount, ctxEntryGet, hk]
  · simp [pagecount, ctxEntryGet, hc]

theorem pagecount_ctxEntryPut {o : Option Nat} (hCtx : ∀ c, o = some c → (st.ctxs c).isSome)
    (c' : Nat) :
    (st.ctxEntryPut o).pagecount c' = st.pagecount c' - if o = some c' then 1 else 0 := by
  cases o with
  | none => simp [ctxEntryPut]
  | some c =>
    obtain ⟨k, hk⟩ := Option.isSome_iff_exists.mp (hCtx c rfl)
    by_cases hc : c' = c
    · subst hc
      simp only [pagecount, ctxEntryPut, update_self, hk, bind_some, elim_some, if_true]
      split
      next hLast => exact hLast.2.symm
      next => rfl
    · have hNe : ¬ some c = some c' := fun hEq => hc (some.inj hEq).symm
      simp [pagecount, ctxEntryPut, hc, hNe]

theorem pagesOf_freePrivPage (hNodup : st.descriptors.live.Nodup)
    (ha : a ∈ st.descriptors.live) (c : Nat) : st.pagesOf c =
      (st.freePrivPage a).pagesOf c + if (st.swpd a).ctx = some c then 1 else 0 := by
  have hErase := countP_erase_update st.swpd (fun d => decide (d.ctx = some c)) hNodup ha Swpd.wiped
  simpa [pagesOf, Slab.free] using hErase

theorem pagecount_freePrivPage
    (hCtx : ∀ c, (st.swpd a).ctx = some c → (st.ctxs c).isSome) (c : Nat) :
    (st.freePrivPage a).pagecount c =
      st.pagecount c - if (st.swpd a).ctx = some c then 1 else 0 := by
  rw [← pagecount_ctxEntryPut hCtx, pagecount, ctxs_freePrivPage]
  rfl

theorem pagesOf_allocated (ha : a ∉ st.descriptors.live) (sc page c c' : Nat) :
    (st.allocated a sc page c).pagesOf c' = st.pagesOf c' + if c' = c then 1 else 0 := by
  have hCons := countP_cons_update st.swpd (fun d => decide (d.ctx = some c')) ha
    ⟨some c, some page, some sc, st.pagePrivate page, 0⟩
  refine hCons.trans ?_
  by_cases hc : c' = c
  · simp [pagesOf, hc]
  · simp [pagesOf, hc, Ne.symm hc]

end Counts

end SwpdHeap

/-! ## The invariant -/

/-- While a call has the descriptors `held` in its hands, every other live one is in the tree,
under its entry. -/
structure Accounted (held : List Nat) (st : SwpdHeap) : Prop where
  descriptors : st.descriptors.Sound
  scratchPages : st.scratchPages.Sound
  linked : ∀ e a, st.tree e = some a →
    a ∈ st.descriptors.live ∧ a ∉ held ∧ (st.swpd a).entry = e
  found : ∀ a ∈ st.descriptors.live, a ∈ held ∨ st.tree (st.swpd a).entry = some a
  heldLive : ∀ a ∈ held, a ∈ st.descriptors.live
  ctx : ∀ a ∈ st.descriptors.live, (st.swpd a).ctx.isSome
  counted : ∀ c, st.pagecount c = st.pagesOf c
  scratch : ∀ a ∈ st.descriptors.live, ∀ sc, (st.swpd a).scratch = some sc →
    sc ∈ st.scratchPages.live
  apart : ∀ a ∈ st.descriptors.live, ∀ b ∈ st.descriptors.live, ∀ sc,
    (st.swpd a).scratch = some sc → (st.swpd b).scratch = some sc → a = b

section Inv

variable {st : SwpdHeap} {held : List Nat} {a e : Nat}

variable {c sc page : Nat} {o : SwpdAlloc}

theorem Accounted.ctx_alive (h : Accounted held st) (ha : a ∈ st.descriptors.live)
    (hc : (st.swpd a).ctx = some c) : (st.ctxs c).isSome := by
  have hPos : 0 < st.pagesOf c := List.countP_pos_iff.mpr ⟨a, ha, decide_eq_true hc⟩
  have hCount := h.counted c
  cases hk : st.ctxs c with
  | some k => rfl
  | none =>
    rw [SwpdHeap.pagecount, hk, elim_none] at hCount
    omega

theorem Accounted.tree_ne (h : Accounted held st) (ha : a ∈ held) (e : Nat) : st.tree e ≠ some a :=
  fun hTree => (h.linked e a hTree).2.1 ha

theorem Accounted.unlink (h : Accounted held st) (hTree : st.tree e = some a) :
    Accounted (a :: held) (st.setTree e none) where
  descriptors := h.descriptors
  scratchPages := h.scratchPages
  linked e' b hb := by
    have hNe : e' ≠ e := by
      rintro rfl
      exact nomatch (st.tree_setTree_self e' none).symm.trans hb
    have hb' : st.tree e' = some b := (st.tree_setTree_of_ne hNe none).symm.trans hb
    obtain ⟨hLive, hHeld, hEntry⟩ := h.linked e' b hb'
    refine ⟨hLive, fun hMem => ?_, hEntry⟩
    rcases List.mem_cons.mp hMem with rfl | hMem
    · exact hNe (hEntry.symm.trans (h.linked e b hTree).2.2)
    · exact hHeld hMem
  found b hb := by
    rcases h.found b hb with hHeld | hFound
    · exact .inl (mem_cons_of_mem a hHeld)
    · by_cases hEntry : (st.swpd b).entry = e
      · have hEq : b = a := some.inj ((hEntry ▸ hFound).symm.trans hTree)
        exact .inl (hEq ▸ mem_cons_self)
      · exact .inr ((st.tree_setTree_of_ne hEntry none).trans hFound)
  heldLive b hb := by
    rcases List.mem_cons.mp hb with rfl | hb
    · exact (h.linked e b hTree).1
    · exact h.heldLive b hb
  ctx := h.ctx
  counted := h.counted
  scratch := h.scratch
  apart := h.apart

theorem Accounted.link (h : Accounted (a :: held) st) (hNew : a ∉ held)
    (hFree : st.tree (st.swpd a).entry = none) :
    Accounted held (st.setTree (st.swpd a).entry (some a)) where
  descriptors := h.descriptors
  scratchPages := h.scratchPages
  linked e' b hb := by
    by_cases hEntry : e' = (st.swpd a).entry
    · subst hEntry
      have hEq : a = b := some.inj ((st.tree_setTree_self _ _).symm.trans hb)
      subst hEq
      exact ⟨h.heldLive a mem_cons_self, hNew, rfl⟩
    · have hb' : st.tree e' = some b := (st.tree_setTree_of_ne hEntry _).symm.trans hb
      obtain ⟨hLive, hHeld, hKey⟩ := h.linked e' b hb'
      exact ⟨hLive, fun hMem => hHeld (mem_cons_of_mem a hMem), hKey⟩
  found b hb := by
    by_cases hEntry : (st.swpd b).entry = (st.swpd a).entry
    · rcases h.found b hb with hHeld | hFound
      · rcases List.mem_cons.mp hHeld with rfl | hHeld
        · exact .inr (st.tree_setTree_self _ _)
        · exact .inl hHeld
      · exact nomatch (hEntry ▸ hFound).symm.trans hFree
    · rcases h.found b hb with hHeld | hFound
      · rcases List.mem_cons.mp hHeld with rfl | hHeld
        · exact absurd rfl hEntry
        · exact .inl hHeld
      · exact .inr ((st.tree_setTree_of_ne hEntry _).trans hFound)
  heldLive b hb := h.heldLive b (mem_cons_of_mem a hb)
  ctx := h.ctx
  counted := h.counted
  scratch := h.scratch
  apart := h.apart

theorem Accounted.free (h : Accounted (a :: held) st) (hNew : a ∉ held) :
    Accounted held (st.freePrivPage a) := by
  have ha : a ∈ st.descriptors.live := h.heldLive a mem_cons_self
  have hNodup := h.descriptors.nodup
  -- another live descriptor is as it was
  have hOther : ∀ b ∈ (st.freePrivPage a).descriptors.live,
      b ≠ a ∧ b ∈ st.descriptors.live ∧ (st.freePrivPage a).swpd b = st.swpd b := by
    intro b hb
    obtain ⟨hNe, hb⟩ := hNodup.mem_erase_iff.mp hb
    exact ⟨hNe, hb, by rw [SwpdHeap.swpd_freePrivPage, update_of_ne hNe]⟩
  have hKept : ∀ b ∈ st.descriptors.live, b ≠ a → b ∈ (st.freePrivPage a).descriptors.live :=
    fun b hb hNe => hNodup.mem_erase_iff.mpr ⟨hNe, hb⟩
  refine ⟨h.descriptors.free ha, ?scratchPages, ?linked, ?found, ?heldLive, ?ctx, ?counted,
    ?scratch, ?apart⟩
  case scratchPages =>
    rw [SwpdHeap.scratchPages_freePrivPage]
    cases hSc : (st.swpd a).scratch with
    | none => exact h.scratchPages
    | some sc => exact h.scratchPages.free (h.scratch a ha sc hSc)
  case linked =>
    intro e b hb
    rw [SwpdHeap.tree_freePrivPage] at hb
    obtain ⟨hLive, hHeld, hEntry⟩ := h.linked e b hb
    have hNe : b ≠ a := fun hEq => hHeld (hEq ▸ mem_cons_self)
    have hLive' := hKept b hLive hNe
    rw [(hOther b hLive').2.2]
    exact ⟨hLive', fun hMem => hHeld (mem_cons_of_mem a hMem), hEntry⟩
  case found =>
    intro b hb
    obtain ⟨hNe, hLive, hSame⟩ := hOther b hb
    rw [hSame, SwpdHeap.tree_freePrivPage]
    exact (h.found b hLive).imp_left fun hMem => (List.mem_cons.mp hMem).resolve_left hNe
  case heldLive =>
    intro b hb
    exact hKept b (h.heldLive b (mem_cons_of_mem a hb)) fun hEq => hNew (hEq ▸ hb)
  case ctx =>
    intro b hb
    obtain ⟨-, hLive, hSame⟩ := hOther b hb
    rw [hSame]
    exact h.ctx b hLive
  case counted =>
    intro c
    have hPages := SwpdHeap.pagesOf_freePrivPage hNodup ha c
    have hPut := SwpdHeap.pagecount_freePrivPage (fun c hc => h.ctx_alive ha hc) c
    rw [hPut, h.counted c, hPages]
    split <;> omega
  case scratch =>
    intro b hb sc hSc
    obtain ⟨hNe, hLive, hSame⟩ := hOther b hb
    rw [hSame] at hSc
    have hMem := h.scratch b hLive sc hSc
    rw [SwpdHeap.scratchPages_freePrivPage]
    cases hSca : (st.swpd a).scratch with
    | none => exact hMem
    | some sca =>
      refine h.scratchPages.nodup.mem_erase_iff.mpr ⟨?_, hMem⟩
      rintro rfl
      exact hNe (h.apart b hLive a ha sc hSc hSca)
  case apart =>
    intro b hb b' hb' sc hSc hSc'
    obtain ⟨-, hLive, hSame⟩ := hOther b hb
    obtain ⟨-, hLive', hSame'⟩ := hOther b' hb'
    exact h.apart b hLive b' hLive' sc (hSame ▸ hSc) (hSame' ▸ hSc')

theorem Accounted.deleteAt (h : Accounted held st) (e : Nat) : Accounted held (st.deleteAt e) := by
  unfold SwpdHeap.deleteAt
  split
  next => exact h
  next a hTree => exact (h.unlink hTree).free (h.linked e a hTree).2.1

theorem Accounted.swpd_deleteAt (h : Accounted held st) (ha : a ∈ held) (e : Nat) :
    (st.deleteAt e).swpd a = st.swpd a := by
  unfold SwpdHeap.deleteAt
  split
  next => rfl
  next b hTree =>
    have hNe : a ≠ b := by
      rintro rfl
      exact h.tree_ne ha e hTree
    rw [SwpdHeap.swpd_freePrivPage, update_of_ne hNe]
    rfl

theorem Accounted.alloc (h : Accounted held st) (page : Nat) (hCtx : (st.ctxs c).isSome)
    (hSc : st.scratchPages.Fresh sc) (ha : st.descriptors.Fresh a) :
    Accounted (a :: held) (st.allocated a sc page c) := by
  let d : Swpd := ⟨some c, some page, some sc, st.pagePrivate page, 0⟩
  have hOld : ∀ b ∈ st.descriptors.live, update st.swpd a d b = st.swpd b := by
    intro b hb
    have hNe : b ≠ a := fun hEq => ha.1 (hEq ▸ hb)
    exact update_of_ne hNe _ _
  have hNew : update st.swpd a d a = d := update_self a d st.swpd
  have hScratch : ∀ b ∈ st.descriptors.live, (st.swpd b).scratch ≠ some sc :=
    fun b hb hEq => hSc.1 (h.scratch b hb sc hEq)
  refine ⟨h.descriptors.alloc ha, h.scratchPages.alloc hSc, ?linked, ?found, ?heldLive, ?ctx,
    ?counted, ?scratch, ?apart⟩
  case linked =>
    intro e b hb
    obtain ⟨hLive, hHeld, hEntry⟩ := h.linked e b hb
    refine ⟨mem_cons_of_mem a hLive, fun hMem => ?_, (congrArg Swpd.entry (hOld b hLive)).trans hEntry⟩
    rcases List.mem_cons.mp hMem with rfl | hMem
    · exact ha.1 hLive
    · exact hHeld hMem
  case found =>
    intro b hb
    rcases List.mem_cons.mp hb with rfl | hb
    · exact .inl mem_cons_self
    · rcases h.found b hb with hHeld | hFound
      · exact .inl (mem_cons_of_mem a hHeld)
      · refine .inr ?_
        show st.tree (update st.swpd a d b).entry = some b
        rw [hOld b hb]
        exact hFound
  case heldLive =>
    intro b hb
    rcases List.mem_cons.mp hb with rfl | hb
    · exact mem_cons_self
    · exact mem_cons_of_mem a (h.heldLive b hb)
  case ctx =>
    intro b hb
    rcases List.mem_cons.mp hb with rfl | hb
    · exact (congrArg (fun d => d.ctx.isSome) hNew).trans rfl
    · exact (congrArg (fun d => d.ctx.isSome) (hOld b hb)).trans (h.ctx b hb)
  case counted =>
    intro c'
    have hGet : (st.allocated a sc page c).pagecount c' = _ := SwpdHeap.pagecount_ctxEntryGet hCtx c'
    rw [hGet, SwpdHeap.pagesOf_allocated ha.1, h.counted c']
    split <;> omega
  case scratch =>
    intro b hb sc' hSc'
    rcases List.mem_cons.mp hb with rfl | hb
    · have hEq : sc = sc' := some.inj ((congrArg Swpd.scratch hNew).symm.trans hSc')
      exact hEq ▸ mem_cons_self
    · exact mem_cons_of_mem sc
        (h.scratch b hb sc' ((congrArg Swpd.scratch (hOld b hb)).symm.trans hSc'))
  case apart =>
    intro b hb b' hb' sc' hSc' hSc''
    change (update st.swpd a d b).scratch = some sc' at hSc'
    change (update st.swpd a d b').scratch = some sc' at hSc''
    rcases List.mem_cons.mp hb with hEq | hLive <;> rcases List.mem_cons.mp hb' with hEq' | hLive'
    · exact hEq.trans hEq'.symm
    · rw [hEq, hNew] at hSc'
      rw [hOld b' hLive'] at hSc''
      exact absurd (hSc''.trans hSc'.symm) (hScratch b' hLive')
    · rw [hEq', hNew] at hSc''
      rw [hOld b hLive] at hSc'
      exact absurd (hSc'.trans hSc''.symm) (hScratch b hLive)
    · rw [hOld b hLive] at hSc'
      rw [hOld b' hLive'] at hSc''
      exact h.apart b hLive b' hLive' sc' hSc' hSc''

/-- Descriptors have at most lost their scratch pages. -/
theorem Accounted.rewrite (h : Accounted held st) {st' : SwpdHeap} (hTree : st'.tree = st.tree)
    (hLive : st'.descriptors = st.descriptors) (hCount : ∀ c, st'.pagecount c = st.pagecount c)
    (hSame : ∀ b, (st'.swpd b).ctx = (st.swpd b).ctx ∧ (st'.swpd b).entry = (st.swpd b).entry)
    (hSound : st'.scratchPages.Sound)
    (hScratch : ∀ b ∈ st.descriptors.live, ∀ sc, (st'.swpd b).scratch = some sc →
      (st.swpd b).scratch = some sc ∧ sc ∈ st'.scratchPages.live) :
    Accounted held st' := by
  refine ⟨hLive ▸ h.descriptors, hSound, ?linked, ?found, ?heldLive, ?ctx, ?counted, ?scratch,
    ?apart⟩
  case linked =>
    intro e b hb
    rw [hTree] at hb
    rw [hLive, (hSame b).2]
    exact h.linked e b hb
  case found =>
    intro b hb
    rw [hLive] at hb
    rw [hTree, (hSame b).2]
    exact h.found b hb
  case heldLive =>
    intro b hb
    rw [hLive]
    exact h.heldLive b hb
  case ctx =>
    intro b hb
    rw [hLive] at hb
    rw [(hSame b).1]
    exact h.ctx b hb
  case counted =>
    intro c
    have hPages : st'.pagesOf c = st.pagesOf c := by
      unfold SwpdHeap.pagesOf
      rw [hLive]
      exact countP_congr fun b _ => by rw [(hSame b).1]
    rw [hCount, hPages]
    exact h.counted c
  case scratch =>
    intro b hb sc hSc
    rw [hLive] at hb
    exact (hScratch b hb sc hSc).2
  case apart =>
    intro b hb b' hb' sc hSc hSc'
    rw [hLive] at hb hb'
    exact h.apart b hb b' hb' sc (hScratch b hb sc hSc).1 (hScratch b' hb' sc hSc').1

/-! ## The calls -/

theorem Accounted.deleteFromPriv (h : Accounted held st) (e : Nat) :
    Accounted held (st.deleteFromPriv e) := by
  unfold SwpdHeap.deleteFromPriv
  split
  next => exact h.deleteAt e
  next => exact h

theorem Accounted.dropScratch (h : Accounted held st) (ha : a ∈ st.descriptors.live)
    (hSc : (st.swpd a).scratch = some sc) :
    Accounted held ((st.freeScratchPage (some sc)).setSwpd a
        { st.swpd a with scratch := none, page := none }) := by
  have hMem := h.scratch a ha sc hSc
  refine h.rewrite rfl rfl (fun _ => rfl) ?_ (h.scratchPages.free hMem) ?_
  · intro b
    by_cases hb : b = a
    · subst hb
      simp [SwpdHeap.setSwpd]
    · simp [SwpdHeap.setSwpd, hb]
  · intro b hLive sc' hSc'
    by_cases hb : b = a
    · subst hb
      simp [SwpdHeap.setSwpd] at hSc'
    · simp only [SwpdHeap.setSwpd, update_of_ne hb, SwpdHeap.swpd_freeScratchPage] at hSc'
      refine ⟨hSc', h.scratchPages.nodup.mem_erase_iff.mpr ⟨?_, h.scratch b hLive sc' hSc'⟩⟩
      rintro rfl
      exact hb (h.apart b hLive a ha sc' hSc' hSc)

theorem Accounted.deleteScratchPage (h : Accounted held st) (e : Nat) :
    Accounted held (st.deleteScratchPage e) := by
  unfold SwpdHeap.deleteScratchPage
  split
  next =>
    split
    next => exact h
    next a hTree =>
      dsimp only
      split
      next hHas =>
        obtain ⟨sc, hSc⟩ := Option.isSome_iff_exists.mp hHas.2
        simp only [hSc]
        exact h.dropScratch (h.linked e a hTree).1 hSc
      next => exact h
  next => exact h

/-- `__add_to_priv_tree` frees the descriptor only when `radix_tree_insert` fails. -/
theorem Accounted.addToPrivTree (h : Accounted [a] st)
    (hPage : (st.swpd a).page.map st.pagePrivate = some (st.swpd a).entry)
    (hInsert : (st.swpd a).entry ≠ 0 → o.preload → o.insert) :
    Accounted (if (st.addToPrivTree o a).1 then [] else [a]) (st.addToPrivTree o a).2 := by
  unfold SwpdHeap.addToPrivTree
  rw [hPage, getD_some]
  by_cases hZero : (st.swpd a).entry = 0
  · rw [if_pos hZero]
    exact h
  · rw [if_neg hZero]
    by_cases hPreload : o.preload = true
    · rw [if_pos hPreload, if_pos (hInsert hZero hPreload)]
      have hFree := h.deleteAt (st.swpd a).entry
      have hSame := h.swpd_deleteAt mem_cons_self (st.swpd a).entry
      have hLink := hFree.link (not_mem_nil) (by rw [hSame]; exact st.tree_deleteAt _)
      rw [hSame] at hLink
      exact hLink
    · rw [if_neg hPreload]
      exact h

theorem Accounted.addPrivate (h : Accounted [] st)
    (hCtx : (st.ctxs c).isSome) (hSc : o.scratch = some sc) (hSwpd : o.swpd = some a)
    (hFreshSc : st.scratchPages.Fresh sc) (hFresh : st.descriptors.Fresh a)
    (hInsert : st.pagePrivate page ≠ 0 → o.preload → o.insert) :
    Accounted [] (st.addPrivate o page c).2 := by
  have hTree := (h.alloc page hCtx hFreshSc hFresh).addToPrivTree (o := o)
    (by rw [st.swpd_allocated, map_some, st.pagePrivate_allocated])
    (by rw [st.swpd_allocated]; exact hInsert)
  rw [SwpdHeap.addPrivate, st.allocPrivPage_eq hSc hSwpd]
  dsimp only
  cases hRes : (st.allocated a sc page c).addToPrivTree o a with
  | mk entered st₂ =>
    rw [hRes] at hTree
    cases entered with
    | true => exact hTree
    | false => exact hTree.free not_mem_nil

/-! ## The failures -/

/-- What is said of the counts, the frees and the tree between two calls. -/
structure Balanced (st : SwpdHeap) : Prop where
  pagecount : ∀ c k, st.ctxs c = some k → k.pagecount = st.pagesOf c
  descriptors : ∀ a, st.descriptors.frees a ≤ 1
  scratchPages : ∀ sc, st.scratchPages.frees sc ≤ 1
  inTree : ∀ a ∈ st.descriptors.live, ∃ e, st.tree e = some a

theorem Accounted.balanced (h : Accounted [] st) : Balanced st where
  pagecount c k hk := by
    have hCount := h.counted c
    rw [SwpdHeap.pagecount, hk] at hCount
    exact hCount
  descriptors := h.descriptors.once
  scratchPages := h.scratchPages.once
  inTree a ha := ⟨_, (h.found a ha).resolve_left not_mem_nil⟩

theorem not_balanced_of_alloc_failed (h : Accounted [] st)
    (hCtx : (st.ctxs c).isSome) (hFail : ¬ (o.scratch.isSome ∧ o.swpd.isSome)) :
    ¬ Balanced (st.addPrivate o page c).2 := by
  intro hBal
  obtain ⟨pages, hAlloc⟩ := st.allocPrivPage_failed hFail
  rw [SwpdHeap.addPrivate, hAlloc] at hBal
  obtain ⟨k, hk⟩ := Option.isSome_iff_exists.mp hCtx
  have hGet : (st.ctxEntryGet c).ctxs c = some { k with pagecount := k.pagecount + 1 } := by
    simp [SwpdHeap.ctxEntryGet, hk]
  have hMore : k.pagecount + 1 = st.pagesOf c := hBal.pagecount c _ hGet
  have hWas : k.pagecount = st.pagesOf c := h.balanced.pagecount c k hk
  omega

theorem not_balanced_of_insert_failed
    (hSc : o.scratch = some sc) (hSwpd : o.swpd = some a) (hEntry : st.pagePrivate page ≠ 0)
    (hPreload : o.preload = true) (hInsert : o.insert = false) :
    ¬ Balanced (st.addPrivate o page c).2 := by
  intro hBal
  have hTree : (st.allocated a sc page c).addToPrivTree o a =
      (false, ((st.allocated a sc page c).deleteAt (st.pagePrivate page)).freePrivPage a) := by
    rw [SwpdHeap.addToPrivTree, st.swpd_allocated, map_some, getD_some,
      st.pagePrivate_allocated, if_neg hEntry, if_pos hPreload, if_neg (by simp [hInsert])]
  rw [SwpdHeap.addPrivate, st.allocPrivPage_eq hSc hSwpd] at hBal
  dsimp only at hBal
  rw [hTree] at hBal
  have hOnce := hBal.descriptors a
  rw [SwpdHeap.descriptors_freePrivPage, SwpdHeap.descriptors_freePrivPage,
    Slab.frees_free_free] at hOnce
  omega

end Inv

inductive SwpdOp where
  | addToPriv (o : SwpdAlloc) (page mapcount : Nat) (vmas : Option (List AnonVma))
  | deleteFromPriv (entry : Nat)
  | deleteScratchPage (entry : Nat)
  | rest

/-- The rest of the kernel gives pages their swap entries, sets the swapped bit, and opens, maps
and closes contexts. A new context has no pages, and one that has is not closed. -/
structure RestStep (st st' : SwpdHeap) : Prop where
  tree : st'.tree = st.tree
  descriptors : st'.descriptors = st.descriptors
  scratchPages : st'.scratchPages = st.scratchPages
  swpd : ∀ a, st'.swpd a = { st.swpd a with flags := (st'.swpd a).flags }
  pagecount : ∀ c, st'.pagecount c = st.pagecount c

/-- The context of a VMA exists, and allocations give new names. -/
def SwpdStep (st : SwpdHeap) : SwpdOp → SwpdHeap → Prop
  | .addToPriv o page mapcount vmas, st' =>
    (∀ c, privateTo mapcount vmas = some c → (st.ctxs c).isSome) ∧
      (∀ sc, o.scratch = some sc → st.scratchPages.Fresh sc) ∧
      (∀ a, o.swpd = some a → st.descriptors.Fresh a) ∧
      st' = (st.addToPriv o page mapcount vmas).2
  | .deleteFromPriv entry, st' => st' = st.deleteFromPriv entry
  | .deleteScratchPage entry, st' => st' = st.deleteScratchPage entry
  | .rest, st' => RestStep st st'

/-- A private page gets its scratch page and its descriptor, and if it has a swap
entry and the preload succeeds, `radix_tree_insert` does. -/
def SwpdOp.Allocates (st : SwpdHeap) : SwpdOp → Prop
  | .addToPriv o page mapcount vmas =>
    (privateTo mapcount vmas).isSome → (o.scratch.isSome ∧ o.swpd.isSome) ∧
      (st.pagePrivate page ≠ 0 → o.preload → o.insert)
  | _ => True

def SwpdHeap.start (pagePrivate : Nat → Nat) : SwpdHeap where
  tree _ := none
  swpd _ := Swpd.wiped
  ctxs _ := none
  pagePrivate := pagePrivate
  descriptors := ⟨[], fun _ => 0⟩
  scratchPages := ⟨[], fun _ => 0⟩

section Runs

variable {st st' : SwpdHeap}

theorem accounted_start (pagePrivate : Nat → Nat) : Accounted [] (SwpdHeap.start pagePrivate) where
  descriptors := ⟨nodup_nil, nofun, fun _ => Nat.zero_le 1⟩
  scratchPages := ⟨nodup_nil, nofun, fun _ => Nat.zero_le 1⟩
  linked := nofun
  found := nofun
  heldLive := nofun
  ctx := nofun
  counted _ := rfl
  scratch := nofun
  apart := nofun

theorem addToPriv_eq (st : SwpdHeap) (o : SwpdAlloc) (page mapcount : Nat)
    (vmas : Option (List AnonVma)) : st.addToPriv o page mapcount vmas =
      (privateTo mapcount vmas).elim (true, st) fun c => st.addPrivate o page c := by
  unfold SwpdHeap.addToPriv privateTo
  by_cases hOne : mapcount = 1
  · subst hOne
    cases (vmas.bind fun vs => (scanAnonVma none vs).bind AnonVma.privCtx) <;> rfl
  · rw [if_neg hOne, elim_none]
    split
    next => rfl
    next hLe => rw [if_pos (by omega : mapcount = 0)]

theorem Accounted.rest (h : Accounted [] st) (hRest : RestStep st st') : Accounted [] st' := by
  refine h.rewrite hRest.tree hRest.descriptors hRest.pagecount ?_
    (hRest.scratchPages ▸ h.scratchPages) ?_
  · intro b
    rw [hRest.swpd b]
    exact ⟨rfl, rfl⟩
  · intro b hb sc hSc
    rw [hRest.swpd b] at hSc
    rw [hRest.scratchPages]
    exact ⟨hSc, h.scratch b hb sc hSc⟩

theorem SwpdStep.accounted {op : SwpdOp} (h : Accounted [] st) (hStep : SwpdStep st op st')
    (hAlloc : op.Allocates st) : Accounted [] st' := by
  cases op with
  | addToPriv o page mapcount vmas =>
    obtain ⟨hCtx, hFreshSc, hFresh, rfl⟩ := hStep
    rw [addToPriv_eq]
    cases hc : privateTo mapcount vmas with
    | none => exact h
    | some c =>
      obtain ⟨⟨hSc, hSwpd⟩, hInsert⟩ := hAlloc (by rw [hc]; rfl)
      obtain ⟨sc, hSc⟩ := Option.isSome_iff_exists.mp hSc
      obtain ⟨a, hSwpd⟩ := Option.isSome_iff_exists.mp hSwpd
      exact h.addPrivate (hCtx c hc) hSc hSwpd (hFreshSc sc hSc) (hFresh a hSwpd) hInsert
  | deleteFromPriv entry =>
    subst hStep
    exact h.deleteFromPriv entry
  | deleteScratchPage entry =>
    subst hStep
    exact h.deleteScratchPage entry
  | rest => exact h.rest hStep

theorem SwpdStep.allocates {op : SwpdOp} (h : Accounted [] st) (hStep : SwpdStep st op st')
    (hBal : Balanced st') : op.Allocates st := by
  cases op with
  | addToPriv o page mapcount vmas =>
    obtain ⟨hCtx, -, -, rfl⟩ := hStep
    intro hPrivate
    obtain ⟨c, hc⟩ := Option.isSome_iff_exists.mp hPrivate
    rw [addToPriv_eq, hc, elim_some] at hBal
    have hAll : o.scratch.isSome ∧ o.swpd.isSome := by
      by_contra hFail
      exact not_balanced_of_alloc_failed h (hCtx c hc) hFail hBal
    obtain ⟨sc, hSc⟩ := Option.isSome_iff_exists.mp hAll.1
    obtain ⟨a, hSwpd⟩ := Option.isSome_iff_exists.mp hAll.2
    refine ⟨hAll, fun hEntry hPreload => ?_⟩
    by_contra hInsert
    exact not_balanced_of_insert_failed hSc hSwpd hEntry hPreload (Bool.eq_false_iff.mpr hInsert) hBal
  | deleteFromPriv entry => trivial
  | deleteScratchPage entry => trivial
  | rest => trivial

/-- **The accounting.** From the start, the counts, the frees and the tree are right in
every state of a run exactly if each private page got its scratch page and its descriptor, and
`radix_tree_insert` never failed after a successful preload. -/
theorem accounting_iff {pagePrivate : Nat → Nat} {tr : Trace SwpdHeap SwpdOp}
    (hTr : IsTrace SwpdStep (SwpdHeap.start pagePrivate) tr) :
    EachState Balanced (SwpdHeap.start pagePrivate) tr ↔
      EachStep (fun st op => op.Allocates st) (SwpdHeap.start pagePrivate) tr := by
  have hKeep : ∀ (u : SwpdHeap) op u', Accounted [] u → SwpdStep u op u' → op.Allocates u →
      Accounted [] u' :=
    fun _ _ _ h hStep hAlloc => hStep.accounted h hAlloc
  have hLose : ∀ (u : SwpdHeap) op u', Accounted [] u → SwpdStep u op u' → Balanced u' →
      op.Allocates u :=
    fun _ _ _ h hStep hBal => hStep.allocates h hBal
  exact eachState_iff_of_inv (fun _ => Accounted.balanced) hKeep hLose
    (accounted_start pagePrivate) hTr

/-- Context 1 has been opened, and page 5 has been given the swap entry 7. -/
def openedHeap : SwpdHeap where
  tree _ := none
  swpd _ := Swpd.wiped
  ctxs c := if c = 1 then some ⟨1, 0⟩ else none
  pagePrivate p := if p = 5 then 7 else 0
  descriptors := ⟨[], fun _ => 0⟩
  scratchPages := ⟨[], fun _ => 0⟩

theorem restStep_openedHeap : SwpdStep (SwpdHeap.start fun _ => 0) .rest openedHeap where
  tree := rfl
  descriptors := rfl
  scratchPages := rfl
  swpd _ := rfl
  pagecount c := by
    by_cases hc : c = 1
    · subst hc
      rfl
    · simp [SwpdHeap.pagecount, SwpdHeap.start, openedHeap, hc]

def addPage (o : SwpdAlloc) : SwpdOp := .addToPriv o 5 1 (some [⟨1, some 1⟩])

theorem isTrace_addPage (o : SwpdAlloc) : IsTrace SwpdStep (SwpdHeap.start fun _ => 0)
    [(.rest, openedHeap), (addPage o, (openedHeap.addPrivate o 5 1).2)] := by
  refine ⟨restStep_openedHeap, ⟨?_, ?_, ?_, rfl⟩, trivial⟩
  · intro c hc
    obtain rfl : 1 = c := some.inj hc
    rfl
  · exact fun _ _ => ⟨not_mem_nil, rfl⟩
  · exact fun _ _ => ⟨not_mem_nil, rfl⟩

/-- With no scratch page the context keeps a page it does not have; when the insertion fails the
descriptor is freed twice. -/
theorem failures_unbalanced :
    (∃ tr, IsTrace SwpdStep (SwpdHeap.start fun _ => 0) tr ∧
      ¬ EachState Balanced (SwpdHeap.start fun _ => 0) tr ∧
      (lastState (SwpdHeap.start fun _ => 0) tr).ctxs 1 = some ⟨1, 1⟩ ∧
      (lastState (SwpdHeap.start fun _ => 0) tr).pagesOf 1 = 0) ∧
    (∃ tr, IsTrace SwpdStep (SwpdHeap.start fun _ => 0) tr ∧
      ¬ EachState Balanced (SwpdHeap.start fun _ => 0) tr ∧
      (lastState (SwpdHeap.start fun _ => 0) tr).descriptors.frees 9 = 2) := by
  refine ⟨⟨_, isTrace_addPage ⟨none, some 9, true, true⟩, ?_, rfl, rfl⟩,
    ⟨_, isTrace_addPage ⟨some 8, some 9, true, false⟩, ?_, rfl⟩⟩
  · intro hAll
    exact absurd (hAll.last.pagecount 1 ⟨1, 1⟩ rfl) (by decide)
  · intro hAll
    exact absurd (hAll.last.descriptors 9) (by decide)

theorem entered_and_deleted :
    let o : SwpdAlloc := ⟨some 8, some 9, true, true⟩
    EachState Balanced (SwpdHeap.start fun _ => 0)
      ([(.rest, openedHeap), (addPage o, (openedHeap.addPrivate o 5 1).2)] ++
        [(.deleteFromPriv 7, (openedHeap.addPrivate o 5 1).2.deleteFromPriv 7)]) := by
  intro o
  have hTr := (isTrace_addPage o).append
    (show IsTrace SwpdStep (openedHeap.addPrivate o 5 1).2
      [(.deleteFromPriv 7, (openedHeap.addPrivate o 5 1).2.deleteFromPriv 7)] from ⟨rfl, trivial⟩)
  exact (accounting_iff hTr).mpr
    ⟨trivial, fun _ => ⟨⟨rfl, rfl⟩, fun _ _ => rfl⟩, trivial, trivial⟩

end Runs

end Lacuna.Swap
