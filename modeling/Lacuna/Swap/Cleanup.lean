import Mathlib.Data.Finset.Card
import Mathlib.Data.Finset.Range
import Lacuna.Swap.Life

/-!
# Private swap — cleaning up after a context

`priv_ctx_put` and `delete_all_from_priv` of `mm/privos.c`, with `swapcache_free` of
`mm/swapfile.c`. When the last holder of a context goes, the tree of swapped private
pages is walked in batches of 64; each entry loses its swapped bit and, if its page is
still known, the swap cache's reference on its slot, which may free the slot and
delete the entry.

Modelling conventions:

* `top` bounds the keys of the tree, as the height of a radix tree does;
* the call holds `ctx->lock`, and a `priv_ctx_entry_put` that has to take it again
  never returns: the first component of a result says that this has happened;
* a descriptor that has been released is wiped, so that its `entry` reads 0.

The second half shows that the batches, with the restart that reading a wiped
descriptor causes, amount to one visit of every key in ascending order
(`deleteAllFromPriv_eq`).
-/

namespace Lacuna.Swap

open Function List

structure SwapTree (Data : Type) where
  priv : Privos Data
  swapMap : Nat → SwapCount
  top : Nat
  tree_top : ∀ e, top ≤ e → priv.tree e = none

variable {Data : Type}

theorem tree_setSwappedBit_of_none {st : Privos Data} {e : Nat} (h : st.tree e = none)
    (entry val : Nat) : (setSwappedBit st entry val).tree e = none := by
  by_cases he : e = entry
  · subst he
    simp [setSwappedBit, findPrivPage, h]
  · simp [setSwappedBit, update_of_ne he, h]

theorem tree_deleteFromPriv_of_none {st : Privos Data} {e : Nat} (h : st.tree e = none)
    (entry : Nat) : (deleteFromPriv st entry).tree e = none := by
  unfold deleteFromPriv
  split
  · split
    · by_cases he : e = entry
      · subst he
        simp
      · simp [update_of_ne he, h]
    · exact h
  · exact h

namespace SwapTree

def clearSwappedBit (s : SwapTree Data) (entry : Nat) : SwapTree Data :=
  { s with
    priv := setSwappedBit s.priv entry 0
    tree_top := fun e he => tree_setSwappedBit_of_none (s.tree_top e he) entry 0 }

/-- Take `entry` out of the tree and drop its reference on the context. -/
def delete (s : SwapTree Data) (entry : Nat) : SwapTree Data :=
  { s with
    priv := deleteFromPriv s.priv entry
    tree_top := fun e he => tree_deleteFromPriv_of_none (s.tree_top e he) entry }

/-- Take `entry` out of the tree and get no further. -/
def unlink (s : SwapTree Data) (entry : Nat) : SwapTree Data :=
  { s with
    priv := { s.priv with tree := update s.priv.tree entry none }
    tree_top := fun e he => by
      by_cases hEq : e = entry
      · subst hEq
        exact update_self ..
      · exact (update_of_ne hEq ..).trans (s.tree_top e he) }

def setCount (s : SwapTree Data) (entry : Nat) (m : SwapCount) : SwapTree Data :=
  { s with swapMap := update s.swapMap entry m }

def setCtx (s : SwapTree Data) (ctx : Nat) (k : Option PrivCipherCtx) : SwapTree Data :=
  { s with priv := { s.priv with ctxs := update s.priv.ctxs ctx k } }

end SwapTree

/-! ## Freeing a slot -/

/-- `priv_ctx_entry_put(ctx)` gets to `atomic_dec_and_lock` on the held context with one page
left. -/
def putBlocks (held : Nat) (st : Privos Data) (ctx : Nat) : Bool :=
  ctx == held && (st.ctxs ctx).any fun k => k.mapcount == 0 && k.pagecount == 1

/-- `set_swapped_bit(entry, 0)` and `delete_from_priv(entry)`, at the end of
`swap_entry_free`. -/
def releaseEntry (held : Nat) (s : SwapTree Data) (entry : Nat) : Bool × SwapTree Data :=
  if (s.priv.tree entry).any fun swpd => putBlocks held s.priv swpd.ctx then
    (true, s.unlink entry)
  else (false, (s.clearSwappedBit entry).delete entry)

/-- A slot that is not in use is refused by `swap_info_get`. -/
def swapcacheFree (held : Nat) (s : SwapTree Data) (entry : Nat) : Bool × SwapTree Data :=
  if entry = 0 ∨ s.swapMap entry = .unused then (false, s)
  else
    let m := (s.swapMap entry).drop true
    let s := s.setCount entry m
    if m = .unused then releaseEntry held s entry else (false, s)

/-! ## The cleanup loop -/

/-- `if (test_swapped_bit(entry)) set_swapped_bit(entry, 0)`. -/
def clearIfSwapped (s : SwapTree Data) (entry : Nat) : SwapTree Data :=
  if testSwappedBit s.priv entry then s.clearSwappedBit entry else s

/-- The body of the inner loop of `delete_all_from_priv`. It looks at no
field `ctx`. -/
def visit (held : Nat) (s : SwapTree Data) (entry : Nat) : Bool × SwapTree Data :=
  match s.priv.tree entry with
  | none => (false, s)
  | some swpd =>
    if swpd.page.isSome then swapcacheFree held (clearIfSwapped s entry) entry
    else (false, clearIfSwapped s entry)

def visitAll (held : Nat) : List Nat → SwapTree Data → Bool × SwapTree Data
  | [], s => (false, s)
  | e :: es, s =>
    match visit held s e with
    | (true, t) => (true, t)
    | (false, t) => visitAll held es t

def keysFrom (s : SwapTree Data) (index : Nat) : List Nat :=
  (List.range s.top).filter fun e => decide (index ≤ e) && (s.priv.tree e).isSome

/-- `radix_tree_gang_lookup`: the first `max` keys from `index` on. -/
def gangLookup (s : SwapTree Data) (index max : Nat) : List Nat :=
  (keysFrom s index).take max

/-- `victims[found - 1]->entry`, 0 when that descriptor is gone. -/
def lastEntry (s : SwapTree Data) (victims : List Nat) : Nat :=
  match victims.getLast? with
  | some e => if (s.priv.tree e).isSome then e else 0
  | none => 0

def SwapTree.keys (s : SwapTree Data) : Finset Nat :=
  (Finset.range s.top).filter fun e => (s.priv.tree e).isSome

/-! ## What one visit does -/

/-- What a visit makes of a descriptor and of the counts of its slot. -/
def cleaned (e : Nat) (swpd : PrivSwappedPage) (m : SwapCount) :
    Option PrivSwappedPage × SwapCount :=
  if swpd.page.isSome ∧ e ≠ 0 ∧ m.hasCache = true then
    if m.count = 0 then (none, .unused)
    else (some { swpd with flags := 0 }, { m with hasCache := false })
  else (some { swpd with flags := 0 }, m)

/-- The visit of `e` frees the slot and releases a descriptor of context
`a`. -/
def releases (a : Nat) (s : SwapTree Data) (e : Nat) : Bool :=
  (s.priv.tree e).any fun swpd =>
    swpd.ctx == a && swpd.page.isSome && e != 0 && s.swapMap e == ⟨0, true⟩

section Visit

variable {held : Nat} {s t : SwapTree Data} {e e' : Nat} {hung : Bool} {swpd : PrivSwappedPage}

theorem clearIfSwapped_eq (h : s.priv.tree e = some swpd) : (clearIfSwapped s e).priv.tree =
        update s.priv.tree e (some { swpd with flags := 0 }) ∧
      (clearIfSwapped s e).priv.ctxs = s.priv.ctxs ∧
      (clearIfSwapped s e).swapMap = s.swapMap ∧ (clearIfSwapped s e).top = s.top := by
  unfold clearIfSwapped
  split
  · refine ⟨?_, rfl, rfl, rfl⟩
    simp [SwapTree.clearSwappedBit, setSwappedBit, findPrivPage, h]
  · rename_i hBit
    -- the bit is clear already
    have hFlags : swpd.flags = 0 := by simpa [testSwappedBit, findPrivPage, h] using hBit
    have hSame : some { swpd with flags := 0 } = s.priv.tree e := by rw [h, ← hFlags]
    exact ⟨by rw [hSame, update_eq_self], rfl, rfl, rfl⟩

theorem ctxs_delete (he : e ≠ 0) (h : s.priv.tree e = some swpd) :
    ((s.clearSwappedBit e).delete e).priv.ctxs = (privCtxEntryPut s.priv swpd.ctx).ctxs := by
  have hBit : testSwappedBit (setSwappedBit s.priv e 0) e = false := by
    simp [testSwappedBit, findPrivPage, setSwappedBit, h]
  have hTree : (setSwappedBit s.priv e 0).tree e = some { swpd with flags := 0 } := by
    simp [setSwappedBit, findPrivPage, h]
  show (deleteFromPriv (setSwappedBit s.priv e 0) e).ctxs = _
  rw [deleteFromPriv, if_pos ⟨he, hBit⟩, hTree]
  rfl

theorem releaseEntry_eq (he : e ≠ 0) (h : s.priv.tree e = some swpd)
    (hRel : releaseEntry held s e = (hung, t)) :
    t.priv.tree = update s.priv.tree e none ∧ t.swapMap = s.swapMap ∧
      t.top = s.top ∧ hung = putBlocks held s.priv swpd.ctx ∧
      t.priv.ctxs = if hung then s.priv.ctxs else (privCtxEntryPut s.priv swpd.ctx).ctxs := by
  simp only [releaseEntry, h, Option.any_some] at hRel
  cases hBlocks : putBlocks held s.priv swpd.ctx with
  | true =>
    simp only [hBlocks, if_true, Prod.mk.injEq] at hRel
    obtain ⟨rfl, rfl⟩ := hRel
    exact ⟨rfl, rfl, rfl, rfl, rfl⟩
  | false =>
    simp only [hBlocks, Bool.false_eq_true, if_false, Prod.mk.injEq] at hRel
    obtain ⟨rfl, rfl⟩ := hRel
    exact ⟨tree_deleteFromPriv_setSwappedBit s.priv he, rfl, rfl, rfl, ctxs_delete he h⟩

theorem releaseEntry_held (he : e ≠ 0) (h : s.priv.tree e = some swpd)
    (hRel : releaseEntry held s e = (hung, t)) {p : Int} (hp : s.priv.ctxs held = some ⟨0, p⟩) :
    if swpd.ctx == held then
      if p = 1 then hung = true else hung = false ∧ t.priv.ctxs held = some ⟨0, p - 1⟩
    else hung = false ∧ t.priv.ctxs held = some ⟨0, p⟩ := by
  obtain ⟨-, -, -, hHung, hCtxs⟩ := releaseEntry_eq he h hRel
  by_cases hCtx : swpd.ctx = held
  · have hBlocks : hung = (p == 1) := by simp [hHung, putBlocks, hCtx, hp]
    rw [hCtx, beq_self_eq_true, if_pos rfl]
    split
    · rename_i hp1
      simp [hBlocks, hp1]
    · rename_i hp1
      have hNot : hung = false := by simp [hBlocks, hp1]
      have hLeft : ¬ p - 1 = 0 := by omega
      exact ⟨hNot, by simp [hCtxs, hNot, privCtxEntryPut, hCtx, hp, hLeft]⟩
  · have hBeq : (swpd.ctx == held) = false := beq_eq_false_iff_ne.mpr hCtx
    have hNot : hung = false := by rw [hHung, putBlocks, hBeq, Bool.false_and]
    rw [hBeq]
    refine ⟨hNot, ?_⟩
    rw [hCtxs, hNot, if_neg Bool.false_ne_true]
    exact (update_of_ne (Ne.symm hCtx) _ _).trans hp

/-- **What a visit does** to its key, to the other keys, and to the context whose lock is held. -/
structure Visited (held : Nat) (s : SwapTree Data) (e : Nat) (hung : Bool) (t : SwapTree Data) :
    Prop where
  top : t.top = s.top
  tree_of_ne : ∀ e', e' ≠ e → t.priv.tree e' = s.priv.tree e'
  swapMap_of_ne : ∀ e', e' ≠ e → t.swapMap e' = s.swapMap e'
  self : ∀ swpd, s.priv.tree e = some swpd →
    (t.priv.tree e, t.swapMap e) = cleaned e swpd (s.swapMap e)
  ctx : ∀ p : Int, s.priv.ctxs held = some ⟨0, p⟩ →
    if releases held s e then
      if p = 1 then hung = true else hung = false ∧ t.priv.ctxs held = some ⟨0, p - 1⟩
    else hung = false ∧ t.priv.ctxs held = some ⟨0, p⟩

theorem visited_of_kept {m : SwapCount} (hTop : t.top = s.top) (h : s.priv.tree e = some swpd)
    (hTree : t.priv.tree = update s.priv.tree e (some { swpd with flags := 0 }))
    (hMap : t.swapMap = update s.swapMap e m) (hCtxs : t.priv.ctxs = s.priv.ctxs)
    (hCleaned : cleaned e swpd (s.swapMap e) = (some { swpd with flags := 0 }, m))
    (hRel : releases held s e = false) : Visited held s e false t where
  top := hTop
  tree_of_ne e' he' := by rw [hTree, update_of_ne he']
  swapMap_of_ne e' he' := by rw [hMap, update_of_ne he']
  self swpd' h' := by
    obtain rfl : swpd = swpd' := Option.some.inj (h.symm.trans h')
    rw [hTree, hMap, update_self, update_self, hCleaned]
  ctx p hp := by
    rw [hRel, hCtxs]
    exact ⟨rfl, hp⟩

theorem swapcacheFree_visited {s' : SwapTree Data} (h : s.priv.tree e = some swpd)
    (hPage : swpd.page.isSome)
    (hTree : s'.priv.tree = update s.priv.tree e (some { swpd with flags := 0 }))
    (hCtxs : s'.priv.ctxs = s.priv.ctxs) (hMap : s'.swapMap = s.swapMap) (hTop : s'.top = s.top)
    (hFree : swapcacheFree held s' e = (hung, t)) : Visited held s e hung t := by
  unfold swapcacheFree at hFree
  rw [hMap] at hFree
  by_cases hBad : e = 0 ∨ s.swapMap e = .unused
  · -- `swap_info_get` returns NULL
    rw [if_pos hBad] at hFree
    obtain ⟨rfl, rfl⟩ := Prod.mk.inj hFree
    refine visited_of_kept hTop h hTree (by rw [hMap, update_eq_self]) hCtxs ?_ ?_
    · rcases hBad with rfl | hUnused
      · simp [cleaned]
      · simp [cleaned, hUnused, SwapCount.unused]
    · rcases hBad with rfl | hUnused
      · simp [releases, h]
      · simp [releases, h, hUnused, SwapCount.unused]
  · rw [if_neg hBad] at hFree
    obtain ⟨he, hUsed⟩ := not_or.mp hBad
    by_cases hDrop : (s.swapMap e).drop true = .unused
    · simp only [hDrop, if_true] at hFree
      -- the slot was held by the swap cache alone
      have hSlot : s.swapMap e = ⟨0, true⟩ := by
        revert hUsed hDrop
        generalize s.swapMap e = m
        obtain ⟨count, hasCache⟩ := m
        cases hasCache <;> simp [SwapCount.drop, SwapCount.unused]
      have hEntry : (s'.setCount e .unused).priv.tree e = some { swpd with flags := 0 } := by
        show s'.priv.tree e = _
        rw [hTree, update_self]
      obtain ⟨hT, hM, hTop', -, -⟩ := releaseEntry_eq he hEntry hFree
      have hTree' : t.priv.tree = update s.priv.tree e none := by
        rw [hT]
        show update s'.priv.tree e none = _
        rw [hTree, update_idem]
      have hMap' : t.swapMap = update s.swapMap e .unused := by
        rw [hM]
        show update s'.swapMap e .unused = _
        rw [hMap]
      refine ⟨hTop'.trans hTop, fun e' he' => ?_, fun e' he' => ?_, fun swpd' h' => ?_,
        fun p hp => ?_⟩
      · rw [hTree', update_of_ne he']
      · rw [hMap', update_of_ne he']
      · obtain rfl : swpd = swpd' := Option.some.inj (h.symm.trans h')
        rw [hTree', hMap', update_self, update_self]
        simp [cleaned, hPage, he, hSlot]
      · have hRel : releases held s e = (swpd.ctx == held) := by
          simp [releases, h, hPage, he, hSlot]
        rw [hRel]
        exact releaseEntry_held he hEntry hFree (hCtxs.symm ▸ hp)
    · simp only [hDrop, if_false] at hFree
      obtain ⟨rfl, rfl⟩ := Prod.mk.inj hFree
      refine visited_of_kept (m := (s.swapMap e).drop true) hTop h hTree
        (by show update s'.swapMap e _ = _; rw [hMap]) hCtxs ?_ ?_
      · revert hUsed hDrop
        generalize s.swapMap e = m
        obtain ⟨count, hasCache⟩ := m
        cases hasCache <;> simp [cleaned, SwapCount.drop, SwapCount.unused, hPage, he]
      · have hNe : s.swapMap e ≠ ⟨0, true⟩ := fun hEq => hDrop (by rw [hEq]; rfl)
        simp [releases, h, hNe]

theorem visit_of_absent (h : s.priv.tree e = none) : visit held s e = (false, s) := by
  rw [visit, h]

theorem visit_visited (hVisit : visit held s e = (hung, t)) : Visited held s e hung t := by
  unfold visit at hVisit
  cases h : s.priv.tree e with
  | none =>
    rw [h] at hVisit
    obtain ⟨rfl, rfl⟩ := Prod.mk.inj hVisit
    refine ⟨rfl, fun _ _ => rfl, fun _ _ => rfl, fun swpd h' => ?_, fun p hp => ?_⟩
    · rw [h] at h'
      cases h'
    · simpa [releases, h] using hp
  | some swpd =>
    rw [h] at hVisit
    obtain ⟨hTree, hCtxs, hMap, hTop⟩ := clearIfSwapped_eq h
    simp only at hVisit
    split at hVisit
    · rename_i hPage
      exact swapcacheFree_visited h hPage hTree hCtxs hMap hTop hVisit
    · rename_i hPage
      obtain ⟨rfl, rfl⟩ := Prod.mk.inj hVisit
      refine visited_of_kept hTop h hTree (by rw [hMap, update_eq_self]) hCtxs ?_ ?_
      · simp [cleaned, hPage]
      · simp [releases, h, hPage]

end Visit

/-! ## Visiting a list of keys -/

section VisitAll

variable {held : Nat} {s t : SwapTree Data} {e : Nat} {l : List Nat} {hung : Bool}

theorem visitAll_append (l₁ l₂ : List Nat) (s : SwapTree Data) : visitAll held (l₁ ++ l₂) s =
      if (visitAll held l₁ s).1 then visitAll held l₁ s
      else visitAll held l₂ (visitAll held l₁ s).2 := by
  induction l₁ generalizing s with
  | nil => rfl
  | cons e l₁ ih =>
    rcases hVisit : visit held s e with ⟨hung, t⟩
    cases hung with
    | true => simp [visitAll, hVisit]
    | false => simp only [cons_append, visitAll, hVisit, ih]

theorem visitAll_top (h : visitAll held l s = (hung, t)) : t.top = s.top := by
  induction l generalizing s with
  | nil => exact congrArg SwapTree.top (Prod.mk.inj h).2.symm
  | cons x l ih =>
    rcases hVisit : visit held s x with ⟨b, u⟩
    simp only [visitAll, hVisit] at h
    cases b with
    | true =>
      obtain ⟨-, rfl⟩ := Prod.mk.inj h
      exact (visit_visited hVisit).top
    | false => exact (ih h).trans (visit_visited hVisit).top

theorem visitAll_of_not_mem (he : e ∉ l) (h : visitAll held l s = (hung, t)) :
    t.priv.tree e = s.priv.tree e ∧ t.swapMap e = s.swapMap e := by
  induction l generalizing s with
  | nil =>
    obtain ⟨-, rfl⟩ := Prod.mk.inj h
    exact ⟨rfl, rfl⟩
  | cons x l ih =>
    obtain ⟨hNe, hMem⟩ := not_or.mp (mt List.mem_cons.mpr he)
    rcases hVisit : visit held s x with ⟨b, u⟩
    have hu := visit_visited hVisit
    simp only [visitAll, hVisit] at h
    cases b with
    | true =>
      obtain ⟨-, rfl⟩ := Prod.mk.inj h
      exact ⟨hu.tree_of_ne e hNe, hu.swapMap_of_ne e hNe⟩
    | false =>
      obtain ⟨hTree, hMap⟩ := ih hMem h
      exact ⟨hTree.trans (hu.tree_of_ne e hNe), hMap.trans (hu.swapMap_of_ne e hNe)⟩

theorem releases_congr (hTree : t.priv.tree e = s.priv.tree e) (hMap : t.swapMap e = s.swapMap e) :
    releases held t e = releases held s e := by
  rw [releases, releases, hTree, hMap]

/-- The visits hang exactly if they release as many descriptors of the held
context as it has pages left. -/
theorem visitAll_held (hNodup : l.Nodup) {p : Int} (hp : s.priv.ctxs held = some ⟨0, p⟩)
    (h : visitAll held l s = (hung, t)) :
    if 0 < p ∧ p ≤ l.countP (releases held s) then hung = true
    else hung = false ∧ t.priv.ctxs held = some ⟨0, p - l.countP (releases held s)⟩ := by
  induction l generalizing s p with
  | nil =>
    obtain ⟨rfl, rfl⟩ := Prod.mk.inj h
    rw [if_neg (by simp only [countP_nil]; omega)]
    simpa using hp
  | cons x l ih =>
    obtain ⟨hNot, hNodup⟩ := List.nodup_cons.mp hNodup
    rcases hVisit : visit held s x with ⟨b, u⟩
    have hu := visit_visited hVisit
    have hCtx := hu.ctx p hp
    -- what the other keys release is not touched by this visit
    have hCount : l.countP (releases held u) = l.countP (releases held s) := by
      refine countP_congr fun y hy => ?_
      have hNe : y ≠ x := fun hEq => hNot (hEq ▸ hy)
      rw [releases_congr (hu.tree_of_ne y hNe) (hu.swapMap_of_ne y hNe)]
    simp only [visitAll, hVisit] at h
    cases hRel : releases held s x with
    | true =>
      rw [countP_cons_of_pos hRel]
      rw [hRel, if_pos rfl] at hCtx
      by_cases hp1 : p = 1
      · rw [if_pos hp1] at hCtx
        subst hCtx
        obtain ⟨rfl, -⟩ := Prod.mk.inj h
        rw [if_pos (by omega)]
      · rw [if_neg hp1] at hCtx
        obtain ⟨rfl, hu'⟩ := hCtx
        have hRest := ih hNodup hu' h
        rw [hCount] at hRest
        split at hRest
        · rw [if_pos (by omega)]
          exact hRest
        · rw [if_neg (by omega)]
          refine ⟨hRest.1, hRest.2.trans ?_⟩
          congr 2
          omega
    | false =>
      rw [countP_cons_of_neg (by simp [hRel])]
      rw [hRel, if_neg Bool.false_ne_true] at hCtx
      obtain ⟨rfl, hu'⟩ := hCtx
      have hRest := ih hNodup hu' h
      rwa [hCount] at hRest

end VisitAll

/-! ## Keys that a visit would not change -/

def Settled (s : SwapTree Data) (e : Nat) : Prop :=
  ∀ swpd, s.priv.tree e = some swpd →
    swpd.flags = 0 ∧ (swpd.page = none ∨ e = 0 ∨ (s.swapMap e).hasCache = false)

section Settled

variable {held : Nat} {s t : SwapTree Data} {e : Nat} {l : List Nat} {hung : Bool}

theorem settled_of_absent (h : s.priv.tree e = none) : Settled s e := by
  intro swpd h'
  rw [h] at h'
  cases h'

theorem visit_of_settled (h : Settled s e) : visit held s e = (false, s) := by
  cases hTree : s.priv.tree e with
  | none => exact visit_of_absent hTree
  | some swpd =>
    obtain ⟨hFlags, hSlot⟩ := h swpd hTree
    have hClear : clearIfSwapped s e = s := by
      simp [clearIfSwapped, testSwappedBit, findPrivPage, hTree, hFlags]
    rw [visit, hTree, hClear]
    simp only
    split
    · rename_i hPage
      have hSlot := hSlot.resolve_left (Option.isSome_iff_ne_none.mp hPage)
      unfold swapcacheFree
      split
      · rfl
      · rename_i hUsed
        obtain ⟨he, hUsed⟩ := not_or.mp hUsed
        -- the slot is in use but not by the swap cache: dropping that reference is no change
        have hDrop : (s.swapMap e).drop true = s.swapMap e := by
          rw [SwapCount.drop, if_pos rfl, ← hSlot.resolve_left he]
        simp [hDrop, hUsed, SwapTree.setCount]
    · rfl

theorem visit_settled (h : visit held s e = (hung, t)) : Settled t e := by
  cases hTree : s.priv.tree e with
  | none =>
    rw [visit_of_absent hTree] at h
    obtain ⟨-, rfl⟩ := Prod.mk.inj h
    exact settled_of_absent hTree
  | some swpd =>
    have hSelf := (visit_visited h).self swpd hTree
    intro swpd' h'
    rw [h', cleaned] at hSelf
    split at hSelf
    · split at hSelf
      · cases (Prod.mk.inj hSelf).1
      · obtain ⟨hSwpd, hMap⟩ := Prod.mk.inj hSelf
        cases hSwpd
        exact ⟨rfl, .inr (.inr (by rw [hMap]))⟩
    · rename_i hCond
      obtain ⟨hSwpd, hMap⟩ := Prod.mk.inj hSelf
      cases hSwpd
      refine ⟨rfl, ?_⟩
      rw [hMap]
      by_cases hPage : swpd.page = none
      · exact .inl hPage
      · by_cases he : e = 0
        · exact .inr (.inl he)
        · exact .inr (.inr (Bool.eq_false_iff.mpr fun hCache =>
            hCond ⟨Option.isSome_iff_ne_none.mpr hPage, he, hCache⟩))

theorem Settled.visit (hs : Settled s e) {x : Nat} (h : visit held s x = (hung, t)) :
    Settled t e := by
  by_cases hEq : e = x
  · subst hEq
    exact visit_settled h
  · have ht := visit_visited h
    intro swpd hTree
    rw [ht.tree_of_ne e hEq] at hTree
    rw [ht.swapMap_of_ne e hEq]
    exact hs swpd hTree

theorem Settled.visitAll (hs : Settled s e) (h : visitAll held l s = (hung, t)) : Settled t e := by
  induction l generalizing s with
  | nil =>
    obtain ⟨-, rfl⟩ := Prod.mk.inj h
    exact hs
  | cons x l ih =>
    rcases hVisit : Swap.visit held s x with ⟨b, u⟩
    simp only [Swap.visitAll, hVisit] at h
    cases b with
    | true =>
      obtain ⟨-, rfl⟩ := Prod.mk.inj h
      exact hs.visit hVisit
    | false => exact ih (hs.visit hVisit) h

theorem visitAll_settled (h : visitAll held l s = (false, t)) : ∀ x ∈ l, Settled t x := by
  induction l generalizing s with
  | nil => simp
  | cons x l ih =>
    rcases hVisit : visit held s x with ⟨b, u⟩
    simp only [visitAll, hVisit] at h
    cases b with
    | true => cases (Prod.mk.inj h).1
    | false =>
      intro y hy
      rcases List.mem_cons.mp hy with rfl | hy
      · exact (visit_settled hVisit).visitAll h
      · exact ih h y hy

theorem visitAll_of_settled (hs : ∀ x ∈ l, Settled s x) : visitAll held l s = (false, s) := by
  induction l with
  | nil => rfl
  | cons x l ih =>
    simp only [visitAll, visit_of_settled (hs x mem_cons_self)]
    exact ih fun y hy => hs y (mem_cons_of_mem x hy)

theorem visitAll_filter {p : Nat → Bool} (hs : ∀ x ∈ l, p x = false → Settled s x) :
    visitAll held (l.filter p) s = visitAll held l s := by
  induction l generalizing s with
  | nil => rfl
  | cons x l ih =>
    cases hp : p x with
    | false =>
      rw [filter_cons_of_neg (by simp [hp]), visitAll, visit_of_settled (hs x mem_cons_self hp)]
      exact ih fun y hy => hs y (mem_cons_of_mem x hy)
    | true =>
      rw [filter_cons_of_pos hp, visitAll, visitAll]
      rcases hVisit : visit held s x with ⟨b, u⟩
      cases b with
      | true => rfl
      | false => exact ih fun y hy hpy => (hs y (mem_cons_of_mem x hy) hpy).visit hVisit

end Settled

/-! ## The loop ends -/

section Loop

variable {held index : Nat} {s t : SwapTree Data} {hung : Bool}

variable {e max : Nat}

theorem mem_keysFrom : e ∈ keysFrom s index ↔ e < s.top ∧ index ≤ e ∧ (s.priv.tree e).isSome := by
  rw [keysFrom, mem_filter, mem_range, Bool.and_eq_true, decide_eq_true_eq]

theorem mem_gangLookup (h : e ∈ gangLookup s index max) :
    e < s.top ∧ index ≤ e ∧ (s.priv.tree e).isSome :=
  mem_keysFrom.mp (mem_of_mem_take h)

theorem visitAll_absent {l : List Nat} (h : visitAll held l s = (hung, t))
    (he : s.priv.tree e = none) : t.priv.tree e = none := by
  induction l generalizing s with
  | nil =>
    obtain ⟨-, rfl⟩ := Prod.mk.inj h
    exact he
  | cons x l ih =>
    rcases hVisit : visit held s x with ⟨b, u⟩
    have hu : u.priv.tree e = none := by
      by_cases hEq : e = x
      · subst hEq
        rw [visit_of_absent he] at hVisit
        rw [← (Prod.mk.inj hVisit).2, he]
      · rw [(visit_visited hVisit).tree_of_ne e hEq, he]
    simp only [visitAll, hVisit] at h
    cases b with
    | true =>
      obtain ⟨-, rfl⟩ := Prod.mk.inj h
      exact hu
    | false => exact ih h hu

theorem SwapTree.mem_keys : e ∈ s.keys ↔ e < s.top ∧ (s.priv.tree e).isSome := by
  rw [SwapTree.keys, Finset.mem_filter, Finset.mem_range]

theorem keys_visitAll_subset {l : List Nat} (h : visitAll held l s = (hung, t)) :
    t.keys ⊆ s.keys := by
  intro e he
  rw [SwapTree.mem_keys, visitAll_top h] at he
  refine SwapTree.mem_keys.mpr ⟨he.1, ?_⟩
  by_contra hNone
  rw [visitAll_absent h (Option.not_isSome_iff_eq_none.mp hNone)] at he
  exact Bool.false_ne_true he.2

/-- A batch that does not empty the rest of the tree deletes its last victim,
or moves `index` past it. -/
theorem batch_decreases (hVictims : gangLookup s index max ≠ [])
    (h : visitAll held (gangLookup s index max) s = (hung, t)) :
    t.keys.card < s.keys.card ∨ t.keys.card ≤ s.keys.card ∧
      t.top - (lastEntry t (gangLookup s index max) + 1) < s.top - index := by
  have hLast := List.getLast?_eq_some_getLast hVictims
  obtain ⟨hTop, hIndex, hSome⟩ := mem_gangLookup (getLast_mem hVictims)
  cases hGone : t.priv.tree ((gangLookup s index max).getLast hVictims) with
  | none =>
    refine .inl (Finset.card_lt_card ⟨keys_visitAll_subset h, fun hSub => ?_⟩)
    have hMem := (SwapTree.mem_keys.mp (hSub (SwapTree.mem_keys.mpr ⟨hTop, hSome⟩))).2
    rw [hGone] at hMem
    exact Bool.false_ne_true hMem
  | some swpd =>
    refine .inr ⟨Finset.card_le_card (keys_visitAll_subset h), ?_⟩
    rw [lastEntry, hLast, visitAll_top h]
    simp only [hGone, Option.isSome_some, if_true]
    omega

def deleteAllFrom (held index : Nat) (s : SwapTree Data) : Bool × SwapTree Data :=
  if hVictims : gangLookup s index 64 = [] then (false, s)
  else
    let r := visitAll held (gangLookup s index 64) s
    if r.1 then r else deleteAllFrom held (lastEntry r.2 (gangLookup s index 64) + 1) r.2
termination_by (s.keys.card, s.top - index)
decreasing_by
  rcases batch_decreases hVictims (Prod.mk.eta (p := visitAll held (gangLookup s index 64) s)).symm
    with hLt | ⟨hLe, hLt⟩
  · exact Prod.Lex.left _ _ hLt
  · exact Prod.Lex.right' _ hLe hLt

/-- `delete_all_from_priv(ctx)`, called with `ctx->lock` held. -/
def deleteAllFromPriv (ctx : Nat) (s : SwapTree Data) : Bool × SwapTree Data :=
  deleteAllFrom ctx 0 s

/-! ## The loop is one pass -/

theorem le_last_mem_gangLookup (hVictims : gangLookup s index max ≠ [])
    (he : e ≤ (gangLookup s index max).getLast hVictims) (hMem : e ∈ keysFrom s index) :
    e ∈ gangLookup s index max := by
  have hSorted : (keysFrom s index).Pairwise (· < ·) := List.pairwise_lt_range.filter _
  rw [← take_append_drop max (keysFrom s index)] at hMem hSorted
  rcases List.mem_append.mp hMem with hTake | hDrop
  · exact hTake
  · have hLt := (List.pairwise_append.mp hSorted).2.2 _ (getLast_mem hVictims) e hDrop
    omega

variable (held) in
theorem visitAll_keysFrom (hTop : t.top = s.top) (hBelow : ∀ e < index, Settled t e)
    (hAbsent : ∀ e, s.priv.tree e = none → Settled t e) :
    visitAll held (keysFrom s index) t = visitAll held (List.range t.top) t := by
  rw [hTop]
  refine visitAll_filter fun e _ he => ?_
  rcases Nat.lt_or_ge e index with hLt | hGe
  · exact hBelow e hLt
  · refine hAbsent e (Option.not_isSome_iff_eq_none.mp fun hSome => ?_)
    simp [hGe, hSome] at he

theorem batch_settled (hBelow : ∀ e < index, Settled s e) (hVictims : gangLookup s index max ≠ [])
    (h : visitAll held (gangLookup s index max) s = (false, t)) :
    ∀ e < lastEntry t (gangLookup s index max) + 1, Settled t e := by
  intro e he
  have hLast : e ≤ (gangLookup s index max).getLast hVictims := by
    rw [lastEntry, List.getLast?_eq_some_getLast hVictims] at he
    simp only at he
    split at he <;> omega
  by_cases hMem : e ∈ keysFrom s index
  · exact visitAll_settled h e (le_last_mem_gangLookup hVictims hLast hMem)
  · refine Settled.visitAll ?_ h
    rcases Nat.lt_or_ge e index with hLt | hGe
    · exact hBelow e hLt
    · have hTop := (mem_gangLookup (getLast_mem hVictims)).1
      refine settled_of_absent (Option.not_isSome_iff_eq_none.mp fun hSome => ?_)
      exact hMem (mem_keysFrom.mpr ⟨by omega, hGe, hSome⟩)

theorem deleteAllFrom_eq (hBelow : ∀ e < index, Settled s e) :
    deleteAllFrom held index s = visitAll held (range s.top) s := by
  fun_induction deleteAllFrom held index s with
  | case1 index s hVictims =>
    have hNil : keysFrom s index = [] := by
      simpa [gangLookup] using hVictims
    rw [← visitAll_keysFrom held rfl hBelow fun e => settled_of_absent, hNil]
    rfl
  | case2 index s hVictims r hr =>
    rw [← visitAll_keysFrom held rfl hBelow fun e => settled_of_absent,
      ← take_append_drop 64 (keysFrom s index), visitAll_append]
    exact (if_pos hr).symm
  | case3 index s hVictims r hr ih =>
    have hBatch : visitAll held (gangLookup s index 64) s = (false, r.2) :=
      Prod.ext (Bool.eq_false_iff.mpr hr) rfl
    -- in the state after the batch the same keys are left, and those of the batch are settled
    have hKeys := visitAll_keysFrom held (visitAll_top hBatch)
      (fun e he => (hBelow e he).visitAll hBatch)
      fun e he => (settled_of_absent he).visitAll hBatch
    rw [ih (batch_settled hBelow hVictims hBatch), ← hKeys,
      ← visitAll_keysFrom held rfl hBelow fun e => settled_of_absent,
      ← take_append_drop 64 (keysFrom s index), visitAll_append, visitAll_append]
    rw [show (keysFrom s index).take 64 = gangLookup s index 64 from rfl, hBatch,
      visitAll_of_settled (visitAll_settled hBatch)]

end Loop

/-- **The cleanup is one pass** over the whole tree in ascending order. -/
theorem deleteAllFromPriv_eq (ctx : Nat) (s : SwapTree Data) :
    deleteAllFromPriv ctx s = visitAll ctx (range s.top) s :=
  deleteAllFrom_eq fun _ he => absurd he (Nat.not_lt_zero _)

end Lacuna.Swap
