import Mathlib.Logic.Function.Basic

/-!
# Private swap — the tree of swapped private pages

`mm/privos.c` with `CONFIG_PRIV_SWAP` and `CONFIG_PRIV_CRYPT`. A private page
that gets a swap entry is entered in `privos_tree` under that entry, with its context
and a scratch page to hold the ciphertext while it is written out.

Modelling conventions:

* struct pages, scratch pages among them, and contexts are named by numbers; a
  NULL pointer is `none`;
* `mem` is the contents of every page frame, `pagePrivate` its `page_private`;
* descriptors live in the tree, and their `entry` is the key they are stored under,
  which is why the `BUG_ON` of `find_priv_page` is left out;
* each allocation that can fail is an outcome given to the call.

A page's descriptor is `Armed` while the page can be encrypted through it, and
`Unarmed` otherwise.
-/

namespace Lacuna.Swap

open Function

structure PrivCipherCtx where
  mapcount : Nat
  pagecount : Int
  deriving DecidableEq

structure PrivSwappedPage where
  ctx : Nat
  page : Option Nat
  scratch : Option Nat
  entry : Nat
  flags : Nat
  deriving DecidableEq

structure Privos (Data : Type) where
  tree : Nat → Option PrivSwappedPage
  ctxs : Nat → Option PrivCipherCtx
  pagePrivate : Nat → Nat
  mem : Nat → Data

structure AnonVma where
  vmMm : Nat
  privCtx : Option Nat
  deriving DecidableEq

/-- What the allocations inside `add_to_priv` give: the scratch page, a descriptor, and memory
for `radix_tree_preload` and `radix_tree_insert`. -/
structure PrivAlloc where
  scratch : Option Nat
  swpd : Bool
  preload : Bool
  insert : Bool
  deriving DecidableEq

variable {Data : Type}

/-! ## Reference counts -/

def privCtxEntryGet (st : Privos Data) (ctx : Nat) : Privos Data :=
  { st with
    ctxs := update st.ctxs ctx
      ((st.ctxs ctx).map fun k => { k with pagecount := k.pagecount + 1 }) }

/-- The last page of a context without mappings frees it. -/
def privCtxEntryPut (st : Privos Data) (ctx : Nat) : Privos Data :=
  { st with
    ctxs := update st.ctxs ctx
      ((st.ctxs ctx).bind fun k =>
        if k.mapcount = 0 ∧ k.pagecount - 1 = 0 then none
        else some { k with pagecount := k.pagecount - 1 }) }

def freePrivPage (st : Privos Data) (swpd : PrivSwappedPage) : Privos Data :=
  privCtxEntryPut st swpd.ctx

/-! ## The tree -/

def findPrivPage (st : Privos Data) (entry : Nat) : Option PrivSwappedPage :=
  st.tree entry

def testSwappedBit (st : Privos Data) (entry : Nat) : Bool :=
  match findPrivPage st entry with
  | some swpd => swpd.flags != 0
  | none => false

def setSwappedBit (st : Privos Data) (entry val : Nat) : Privos Data :=
  { st with
    tree := update st.tree entry
      ((findPrivPage st entry).map fun swpd => { swpd with flags := val }) }

def deleteFromPriv (st : Privos Data) (entry : Nat) : Privos Data :=
  if entry ≠ 0 ∧ testSwappedBit st entry = false then
    match st.tree entry with
    | some swpd => freePrivPage { st with tree := update st.tree entry none } swpd
    | none => st
  else st

def deleteScratchPage (st : Privos Data) (entry : Nat) : Privos Data :=
  if entry ≠ 0 then
    match findPrivPage st entry with
    | some swpd =>
      if swpd.flags ≠ 0 ∧ swpd.scratch.isSome then
        { st with
          tree := update st.tree entry
            (some { swpd with scratch := none, page := none }) }
      else st
    | none => st
  else st

/-! ## Entering a page -/

/-- The reference on the context stays when an allocation fails. -/
def allocPrivPage (st : Privos Data) (o : PrivAlloc) (page ctx : Nat) :
    Option PrivSwappedPage × Privos Data :=
  let st := privCtxEntryGet st ctx
  match o.scratch with
  | none => (none, st)
  | some scratch =>
    if o.swpd then
      (some { ctx := ctx, page := some page, scratch := some scratch,
              entry := st.pagePrivate page, flags := 0 },
        { st with
          pagePrivate := update st.pagePrivate scratch (st.pagePrivate page) })
    else (none, st)

/-- Whether the descriptor was entered, and the descriptor as its caller then finds it, `none`
when it has been freed. -/
def addToPrivTree (st : Privos Data) (o : PrivAlloc) (swpd : PrivSwappedPage) :
    Bool × Option PrivSwappedPage × Privos Data :=
  let entry := (swpd.page.map st.pagePrivate).getD 0
  if entry = 0 then (false, some swpd, st)
  else if o.preload then
    -- `-EEXIST`: the old descriptor is removed and the insertion tried again
    let st := match st.tree entry with
      | some old => freePrivPage { st with tree := update st.tree entry none } old
      | none => st
    if o.insert then
      (true, some swpd, { st with tree := update st.tree entry (some swpd) })
    else (false, none, freePrivPage st swpd)
  else (false, some swpd, st)

/-- The loop of `__add_to_priv` over the `anon_vma` list: the last VMA, or `none` when the list
is empty, has VMAs of two address spaces, or one without a context. -/
def scanAnonVma : Option AnonVma → List AnonVma → Option AnonVma
  | vma, [] => vma
  | vma, avc :: rest =>
    if (vma.any fun v => v.vmMm != avc.vmMm) || avc.privCtx.isNone then none
    else scanAnonVma (some avc) rest

/-- `add_to_priv` for a page mapped `mapcount` times, whose `anon_vma`, if it has one, lists
`vmas`. The result 1 means that the page may be written out, private or not. -/
def addToPriv (st : Privos Data) (o : PrivAlloc) (page mapcount : Nat)
    (vmas : Option (List AnonVma)) : Bool × Privos Data :=
  if 1 < mapcount then (true, st)
  else if mapcount = 0 then (true, st)
  else
    match vmas.bind fun vs => (scanAnonVma none vs).bind AnonVma.privCtx with
    | none => (true, st)
    | some ctx =>
      match allocPrivPage st o page ctx with
      | (none, st) => (false, st)
      | (some swpd, st) =>
        match addToPrivTree st o swpd with
        | (true, _, st) => (true, st)
        | (false, some swpd, st) => (false, freePrivPage st swpd)
        -- freed and wiped already: the second `__free_priv_page` finds no context in it
        | (false, none, st) => (false, st)

/-- The context that `add_to_priv` finds for a page. -/
def privateTo (mapcount : Nat) (vmas : Option (List AnonVma)) : Option Nat :=
  if mapcount = 1 then vmas.bind fun vs => (scanAnonVma none vs).bind AnonVma.privCtx else none

def addPrivate (s : Privos Data) (o : PrivAlloc) (page ctx : Nat) : Bool × Privos Data :=
  match allocPrivPage s o page ctx with
  | (none, s) => (false, s)
  | (some swpd, s) =>
    match addToPrivTree s o swpd with
    | (true, _, s) => (true, s)
    | (false, some swpd, s) => (false, freePrivPage s swpd)
    | (false, none, s) => (false, s)

theorem addToPriv_eq_addPrivate (s : Privos Data) (o : PrivAlloc) (page mapcount : Nat)
    (vmas : Option (List AnonVma)) : addToPriv s o page mapcount vmas =
      (privateTo mapcount vmas).elim (true, s) fun c => addPrivate s o page c := by
  unfold addToPriv privateTo
  by_cases hOne : mapcount = 1
  · subst hOne
    cases (vmas.bind fun vs => (scanAnonVma none vs).bind AnonVma.privCtx) <;> rfl
  · rw [if_neg hOne, Option.elim_none]
    split
    next => rfl
    next hLe => rw [if_pos (by omega : mapcount = 0)]

/-! ## Encryption and decryption -/

/-- The page to write in place of `page`. `none` is a `BUG_ON`. -/
def privEncryptPage (enc : Nat → Data → Data) (st : Privos Data) (page : Nat) :
    Option (Nat × Privos Data) :=
  let entry := st.pagePrivate page
  match findPrivPage st entry with
  | none => some (page, st)
  | some swpd =>
    if swpd.page ≠ some page then
      some (page, deleteFromPriv (setSwappedBit st entry 0) entry)
    else
      match swpd.scratch with
      | none => some (page, deleteFromPriv (setSwappedBit st entry 0) entry)
      | some scratch =>
        if st.pagePrivate scratch ≠ entry then none
        else
          let st :=
            { st with mem := update st.mem scratch (enc swpd.ctx (st.mem page)) }
          some (scratch, setSwappedBit st entry 1)

def privDecryptPage (dec : Nat → Data → Data) (st : Privos Data) (page : Nat) : Privos Data :=
  match findPrivPage st (st.pagePrivate page) with
  | none => st
  | some swpd =>
    match st.ctxs swpd.ctx with
    | none => st
    | some k =>
      if k.mapcount = 0 then st
      else { st with mem := update st.mem page (dec swpd.ctx (st.mem page)) }

/-! ## What the tree operations do -/

section Tree

variable (st : Privos Data)

@[simp] theorem tree_privCtxEntryGet (ctx : Nat) : (privCtxEntryGet st ctx).tree = st.tree := rfl
@[simp] theorem pagePrivate_privCtxEntryGet (ctx : Nat) :
    (privCtxEntryGet st ctx).pagePrivate = st.pagePrivate := rfl
@[simp] theorem tree_freePrivPage (swpd : PrivSwappedPage) :
    (freePrivPage st swpd).tree = st.tree := rfl
@[simp] theorem pagePrivate_freePrivPage (swpd : PrivSwappedPage) :
    (freePrivPage st swpd).pagePrivate = st.pagePrivate := rfl
@[simp] theorem pagePrivate_setSwappedBit (entry val : Nat) :
    (setSwappedBit st entry val).pagePrivate = st.pagePrivate := rfl
@[simp] theorem mem_setSwappedBit (entry val : Nat) :
    (setSwappedBit st entry val).mem = st.mem := rfl

@[simp] theorem pagePrivate_deleteFromPriv (entry : Nat) :
    (deleteFromPriv st entry).pagePrivate = st.pagePrivate := by
  unfold deleteFromPriv
  split
  · split <;> rfl
  · rfl

theorem tree_deleteFromPriv_setSwappedBit {entry : Nat} (h : entry ≠ 0) :
    (deleteFromPriv (setSwappedBit st entry 0) entry).tree = update st.tree entry none := by
  have hBit : testSwappedBit (setSwappedBit st entry 0) entry = false := by
    simp only [testSwappedBit, findPrivPage, setSwappedBit, update_self]
    cases st.tree entry <;> rfl
  rw [deleteFromPriv, if_pos ⟨h, hBit⟩]
  cases hTree : st.tree entry with
  | none => simp [setSwappedBit, findPrivPage, hTree]
  | some swpd => simp [setSwappedBit, findPrivPage, hTree]

end Tree

/-- Every VMA on the `anon_vma` list belongs to one address space and has a context. -/
structure PrivateVmas (vmas : List AnonVma) : Prop where
  ne_nil : vmas ≠ []
  one_mm : ∀ v ∈ vmas, ∀ w ∈ vmas, v.vmMm = w.vmMm
  ctx : ∀ v ∈ vmas, v.privCtx.isSome

theorem scanAnonVma_some {v : AnonVma} {vmas : List AnonVma}
    (hMm : ∀ w ∈ vmas, w.vmMm = v.vmMm) (hCtx : ∀ w ∈ v :: vmas, w.privCtx.isSome) :
    ∃ w, scanAnonVma (some v) vmas = some w ∧ w.privCtx.isSome := by
  induction vmas generalizing v with
  | nil => exact ⟨v, rfl, hCtx v List.mem_cons_self⟩
  | cons a rest ih =>
    have ha : a.vmMm = v.vmMm := hMm a List.mem_cons_self
    have haCtx : a.privCtx.isSome := hCtx a (by simp)
    have hStep : scanAnonVma (some v) (a :: rest) = scanAnonVma (some a) rest := by
      rw [scanAnonVma, if_neg]
      simp [ha, Option.isSome_iff_ne_none.mp haCtx]
    rw [hStep]
    refine ih (fun w hw => ?_) fun w hw => hCtx w (List.mem_cons_of_mem _ hw)
    rw [ha]
    exact hMm w (List.mem_cons_of_mem _ hw)

theorem PrivateVmas.scan {vmas : List AnonVma} (h : PrivateVmas vmas) :
    ∃ ctx, ((scanAnonVma none vmas).bind AnonVma.privCtx) = some ctx := by
  cases vmas with
  | nil => exact absurd rfl h.ne_nil
  | cons v rest =>
    have hv : v.privCtx.isSome := h.ctx v List.mem_cons_self
    have hStep : scanAnonVma none (v :: rest) = scanAnonVma (some v) rest := by
      rw [scanAnonVma, if_neg]
      simp [Option.isSome_iff_ne_none.mp hv]
    obtain ⟨w, hw, hCtx⟩ := scanAnonVma_some
      (fun w hw => h.one_mm w (List.mem_cons_of_mem _ hw) v List.mem_cons_self) h.ctx
    obtain ⟨ctx, hc⟩ := Option.isSome_iff_exists.mp hCtx
    exact ⟨ctx, by rw [hStep, hw, Option.bind_some, hc]⟩

/-- The tree has an entry for `frame` under `e`, with the scratch page `sc`. -/
def Armed (st : Privos Data) (frame e sc : Nat) : Prop :=
  ∃ swpd, st.tree e = some swpd ∧ swpd.page = some frame ∧ swpd.scratch = some sc ∧
    st.pagePrivate sc = e ∧ sc ≠ frame

/-- Nothing can be encrypted under `e`: there is no descriptor, or one that has
lost its page. -/
def Unarmed (st : Privos Data) (e : Nat) : Prop :=
  ∀ swpd, st.tree e = some swpd → swpd.page = none ∧ swpd.scratch = none

/-- **What `add_to_priv` does for a private page** under a fresh entry: it
enters the page, or it fails and leaves the tree alone. -/
theorem addToPriv_private {vmas : List AnonVma} (hVmas : PrivateVmas vmas) {st st' : Privos Data}
    {o : PrivAlloc} {page : Nat} {ok : Bool} (he : st.pagePrivate page ≠ 0)
    (hNone : st.tree (st.pagePrivate page) = none) (hSc : o.scratch ≠ some page)
    (h : addToPriv st o page 1 (some vmas) = (ok, st')) :
    st'.pagePrivate page = st.pagePrivate page ∧
      (∀ e, e ≠ st.pagePrivate page → st'.tree e = st.tree e) ∧
      if ok then ∃ sc, Armed st' page (st.pagePrivate page) sc
      else st'.tree (st.pagePrivate page) = none := by
  obtain ⟨ctx, hCtx⟩ := hVmas.scan
  simp only [addToPriv, Nat.lt_irrefl, if_false, Nat.one_ne_zero, Option.bind_some, hCtx] at h
  cases hScratch : o.scratch with
  | none =>
    simp only [allocPrivPage, hScratch, Prod.mk.injEq] at h
    obtain ⟨rfl, rfl⟩ := h
    exact ⟨rfl, fun _ _ => rfl, hNone⟩
  | some sc =>
    have hNe : sc ≠ page := fun hEq => hSc (hScratch.trans (congrArg some hEq))
    have hPriv : update st.pagePrivate sc (st.pagePrivate page) page =
        st.pagePrivate page := update_of_ne hNe.symm _ _
    cases hSwpd : o.swpd with
    | false =>
      simp only [allocPrivPage, hScratch, hSwpd, Bool.false_eq_true, if_false, Prod.mk.injEq] at h
      obtain ⟨rfl, rfl⟩ := h
      exact ⟨rfl, fun _ _ => rfl, hNone⟩
    | true =>
      simp only [allocPrivPage, hScratch, hSwpd, if_true, addToPrivTree, Option.map_some,
        pagePrivate_privCtxEntryGet, Option.getD_some, hPriv, he, if_false,
        tree_privCtxEntryGet, hNone] at h
      cases hPre : o.preload with
      | false =>
        simp only [hPre, Bool.false_eq_true, if_false, Prod.mk.injEq] at h
        obtain ⟨rfl, rfl⟩ := h
        exact ⟨hPriv, fun _ _ => rfl, hNone⟩
      | true =>
        cases hIns : o.insert with
        | false =>
          simp only [hPre, hIns, Bool.false_eq_true, if_true, if_false, Prod.mk.injEq] at h
          obtain ⟨rfl, rfl⟩ := h
          exact ⟨hPriv, fun _ _ => rfl, hNone⟩
        | true =>
          simp only [hPre, hIns, if_true, Prod.mk.injEq] at h
          obtain ⟨rfl, rfl⟩ := h
          refine ⟨hPriv, fun e hNe => update_of_ne hNe _ _, sc, ?_⟩
          exact ⟨_, update_self .., rfl, rfl, update_self .., hNe⟩

theorem privEncryptPage_armed (enc : Nat → Data → Data) {st : Privos Data} {frame e sc : Nat}
    (hPriv : st.pagePrivate frame = e) (h : Armed st frame e sc) :
    ∃ swpd, st.tree e = some swpd ∧ swpd.scratch = some sc ∧
      privEncryptPage enc st frame = some (sc, setSwappedBit
        { st with mem := update st.mem sc (enc swpd.ctx (st.mem frame)) } e 1) := by
  obtain ⟨swpd, hTree, hPage, hSc, hScPriv, -⟩ := h
  refine ⟨swpd, hTree, hSc, ?_⟩
  simp only [privEncryptPage, hPriv, findPrivPage, hTree, hPage, hSc, hScPriv, ne_eq,
    not_true_eq_false, if_false]

theorem privEncryptPage_unarmed (enc : Nat → Data → Data) {st : Privos Data} {frame e : Nat}
    (hPriv : st.pagePrivate frame = e) (he : e ≠ 0) (h : Unarmed st e) :
    ∃ st', privEncryptPage enc st frame = some (frame, st') ∧
      st'.tree = update st.tree e none ∧ st'.pagePrivate = st.pagePrivate := by
  cases hTree : st.tree e with
  | none =>
    refine ⟨st, ?_, ?_, rfl⟩
    · simp only [privEncryptPage, hPriv, findPrivPage, hTree]
    · rw [← hTree, update_eq_self]
  | some swpd =>
    obtain ⟨hPage, -⟩ := h swpd hTree
    refine ⟨deleteFromPriv (setSwappedBit st e 0) e, ?_,
      tree_deleteFromPriv_setSwappedBit st he, by simp⟩
    simp only [privEncryptPage, hPriv, findPrivPage, hTree, hPage, ne_eq, reduceCtorEq,
      not_false_eq_true, if_true]

end Lacuna.Swap
