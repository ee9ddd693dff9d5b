import Lacuna.Swap.Cleanup

/-!
# Private swap — what the end of one context does to the others

`priv_ctx_put` cleans up after a context whose last holder goes. Its loop over
the tree does not look at whose entries it meets.
-/

namespace Lacuna.Swap

open List

variable {Data : Type}

variable {s : SwapTree Data} {e : Nat}

/-! ## Dropping a holder -/

/-- The last holder cleans up; the context is freed with its last page. -/
def privCtxPut (ctx : Nat) (s : SwapTree Data) : Bool × SwapTree Data :=
  match s.priv.ctxs ctx with
  | none => (false, s)
  | some k =>
    if k.mapcount = 1 then
      match deleteAllFromPriv ctx (s.setCtx ctx (some { k with mapcount := 0 })) with
      | (true, t) => (true, t)
      | (false, t) =>
        (false, t.setCtx ctx ((t.priv.ctxs ctx).bind fun k =>
          if k.pagecount = 0 then none else some { k with mapcount := 0 }))
    else (false, s.setCtx ctx (some { k with mapcount := k.mapcount - 1 }))

/-- On a slot in use, as long as nothing waits for the lock, `swapcache_free` is what the life
of a single page sees of it. -/
theorem swapcacheFree_life {held entry : Nat} {l : Life Data}
    (hPriv : l.priv = s.priv) (hMap : l.swapMap = s.swapMap) (hEntry : entry ≠ 0)
    (hUsed : s.swapMap entry ≠ .unused)
    (hLock : ∀ swpd, s.priv.tree entry = some swpd → putBlocks held s.priv swpd.ctx = false) :
    (swapcacheFree held s entry).1 = false ∧
      (swapcacheFree held s entry).2.priv = (swapEntryFree l entry true).priv ∧
      (swapcacheFree held s entry).2.swapMap = (swapEntryFree l entry true).swapMap := by
  have hFree : ((s.setCount entry .unused).priv.tree entry).any
      (fun swpd => putBlocks held (s.setCount entry .unused).priv swpd.ctx) = false := by
    rw [Option.any_eq_false]
    intro swpd h
    exact hLock swpd h
  rw [swapcacheFree, if_neg (not_or.mpr ⟨hEntry, hUsed⟩), swapEntryFree, hPriv, hMap]
  by_cases hDrop : (s.swapMap entry).drop true = .unused
  · simp only [hDrop, if_true]
    rw [releaseEntry, if_neg (by rw [hFree]; exact Bool.false_ne_true)]
    exact ⟨rfl, rfl, rfl⟩
  · simp only [hDrop, if_false, SwapTree.setCount, and_self]

/-! ## The entries of other contexts -/

/-- Every entry of a context other than `a` is in the tree as before, and so are the counts of
its slot. -/
def KeepsOthers (a : Nat) (s t : SwapTree Data) : Prop :=
  ∀ e swpd, s.priv.tree e = some swpd → swpd.ctx ≠ a →
    t.priv.tree e = some swpd ∧ t.swapMap e = s.swapMap e

/-- The descriptors of `a` that the cleanup releases before `e` do not use up its `p` pages. -/
def Reached (a : Nat) (p : Int) (s : SwapTree Data) (e : Nat) : Prop :=
  p ≤ 0 ∨ ((List.range e).countP (releases a s) : Int) < p

instance (a : Nat) (p : Int) (s : SwapTree Data) (e : Nat) : Decidable (Reached a p s e) :=
  inferInstanceAs (Decidable (_ ∨ _))

theorem range_split {n : Nat} (h : e < n) : ∃ l, range n = range e ++ e :: l ∧ e ∉ l := by
  obtain ⟨m, rfl⟩ := Nat.exists_eq_add_of_lt h
  refine ⟨((range m).map Nat.succ).map (e + ·), ?_, ?_⟩
  · rw [Nat.add_assoc, range_add, range_succ_eq_map]
    rfl
  · simp only [map_map, mem_map, not_exists, not_and, Function.comp]
    omega

/-- **What the cleanup does to one entry**: it is visited once, unless the
cleanup hangs before. -/
theorem deleteAllFromPriv_at {a : Nat} {p : Int} {swpd : PrivSwappedPage}
    (hp : s.priv.ctxs a = some ⟨0, p⟩) (h : s.priv.tree e = some swpd) :
    ((deleteAllFromPriv a s).2.priv.tree e, (deleteAllFromPriv a s).2.swapMap e) =
      if Reached a p s e then cleaned e swpd (s.swapMap e) else (some swpd, s.swapMap e) := by
  have hTop : e < s.top := by
    by_contra hGe
    rw [s.tree_top e (Nat.le_of_not_lt hGe)] at h
    cases h
  obtain ⟨l, hRange, hNot⟩ := range_split hTop
  rw [deleteAllFromPriv_eq, hRange, visitAll_append]
  rcases hBefore : visitAll a (range e) s with ⟨b, u⟩
  obtain ⟨hTree, hMap⟩ := visitAll_of_not_mem not_mem_range_self hBefore
  have hHeld := visitAll_held nodup_range hp hBefore
  by_cases hHang : 0 < p ∧ p ≤ (range e).countP (releases a s)
  · rw [if_pos hHang] at hHeld
    have hReach : ¬ Reached a p s e := by
      unfold Reached
      omega
    subst hHeld
    rw [if_neg hReach]
    simp only [if_true]
    rw [hTree, hMap, h]
  · rw [if_neg hHang] at hHeld
    have hReach : Reached a p s e := by
      unfold Reached
      omega
    obtain ⟨rfl, -⟩ := hHeld
    rw [if_pos hReach]
    simp only [Bool.false_eq_true, if_false, visitAll]
    rcases hVisit : visit a u e with ⟨c, v⟩
    have hSelf := (visit_visited hVisit).self swpd (hTree.trans h)
    rw [hMap] at hSelf
    cases c with
    | true => exact hSelf
    | false =>
      rcases hAfter : visitAll a l v with ⟨d, w⟩
      obtain ⟨hTree', hMap'⟩ := visitAll_of_not_mem hNot hAfter
      simp only [hAfter]
      rw [hTree', hMap', hSelf]

/-- A visit changes nothing exactly if there is no bit to clear and no reference of the swap
cache to drop. -/
theorem cleaned_eq_iff {swpd : PrivSwappedPage} {m : SwapCount} :
    cleaned e swpd m = (some swpd, m) ↔
      swpd.flags = 0 ∧ (swpd.page = none ∨ e = 0 ∨ m.hasCache = false) := by
  have hFlags : some { swpd with flags := 0 } = some swpd ↔ swpd.flags = 0 := by
    rw [Option.some.injEq]
    exact ⟨fun h => h ▸ rfl, fun h => by rw [← h]⟩
  unfold cleaned
  split
  · rename_i hCond
    obtain ⟨hPage, he, hCache⟩ := hCond
    have hRight : ¬ (swpd.page = none ∨ e = 0 ∨ m.hasCache = false) := by
      simp [Option.isSome_iff_ne_none.mp hPage, he, hCache]
    refine ⟨fun h => ?_, fun h => absurd h.2 hRight⟩
    split at h
    · cases (Prod.mk.inj h).1
    · have hSame := congrArg SwapCount.hasCache (Prod.mk.inj h).2
      rw [hCache] at hSame
      cases hSame
  · rename_i hCond
    have hRight : swpd.page = none ∨ e = 0 ∨ m.hasCache = false := by
      by_contra hNot
      simp only [not_or, Bool.not_eq_false] at hNot
      exact hCond ⟨Option.isSome_iff_ne_none.mpr hNot.1, hNot.2⟩
    rw [Prod.mk.injEq, hFlags]
    simp only [hRight, and_true]

theorem privCtxPut_last {a : Nat} {p : Int} (hLast : s.priv.ctxs a = some ⟨1, p⟩) :
    (privCtxPut a s).2.priv.tree = (deleteAllFromPriv a (s.setCtx a (some ⟨0, p⟩))).2.priv.tree ∧
      (privCtxPut a s).2.swapMap = (deleteAllFromPriv a (s.setCtx a (some ⟨0, p⟩))).2.swapMap ∧
      (privCtxPut a s).1 = (deleteAllFromPriv a (s.setCtx a (some ⟨0, p⟩))).1 := by
  simp only [privCtxPut, hLast, if_true]
  rcases deleteAllFromPriv a (s.setCtx a (some ⟨0, p⟩)) with ⟨hung, t⟩
  cases hung <;> exact ⟨rfl, rfl, rfl⟩

/-- **Isolation of the private swap.** When the last holder of `a` goes, the
entries of the other contexts and their slots stay as they are exactly if each
of them that the cleanup comes to has a clear swapped bit, and has lost its
page or is not in the swap cache. -/
theorem privCtxPut_keepsOthers_iff {a : Nat} {p : Int} {s : SwapTree Data}
    (hLast : s.priv.ctxs a = some ⟨1, p⟩) :
    KeepsOthers a s (privCtxPut a s).2 ↔
      ∀ e swpd, s.priv.tree e = some swpd → swpd.ctx ≠ a → Reached a p s e →
        swpd.flags = 0 ∧ (swpd.page = none ∨ e = 0 ∨ (s.swapMap e).hasCache = false) := by
  obtain ⟨hTree, hMap, -⟩ := privCtxPut_last hLast
  have hCtx : (s.setCtx a (some ⟨0, p⟩)).priv.ctxs a = some ⟨0, p⟩ := Function.update_self ..
  unfold KeepsOthers
  refine forall_congr' fun e => forall_congr' fun swpd => forall_congr' fun h =>
    forall_congr' fun _ => ?_
  have hAt := deleteAllFromPriv_at hCtx (show (s.setCtx a _).priv.tree e = some swpd from h)
  rw [hTree, hMap, ← Prod.mk.injEq, hAt]
  show (if Reached a p s e then cleaned e swpd (s.swapMap e) else (some swpd, s.swapMap e)) =
    (some swpd, s.swapMap e) ↔ _
  split
  · rename_i hReach
    simp only [hReach, forall_const, cleaned_eq_iff]
  · rename_i hReach
    simp only [hReach, false_imp_iff]

/-! ## Two processes -/

/-- Two private processes, their pages 1 and 2 in the swap cache under the entries 1 and 2. -/
def twoContexts : Privos Unit where
  tree _ := none
  ctxs c := if c = 1 ∨ c = 2 then some ⟨1, 0⟩ else none
  pagePrivate page := if page = 1 ∨ page = 2 then page else 0
  mem _ := ()

/-- Page 1 has been entered, encrypted and written out; page 2 has been
entered. -/
def oneWrittenOneCached : Privos Unit :=
  let alloc (scratch : Nat) : PrivAlloc := ⟨some scratch, true, true, true⟩
  let st := (addToPriv twoContexts (alloc 11) 1 1 (some [⟨1, some 1⟩])).2
  let st := ((privEncryptPage (fun _ d => d) st 1).map Prod.snd).getD st
  let st := deleteScratchPage st 1
  (addToPriv st (alloc 12) 2 1 (some [⟨2, some 2⟩])).2

theorem oneWrittenOneCached_tree (e : Nat) : oneWrittenOneCached.tree e =
    if e = 2 then some ⟨2, some 2, some 12, 2, 0⟩
    else if e = 1 then some ⟨1, none, none, 1, 1⟩ else none := by
  simp [oneWrittenOneCached, twoContexts, addToPriv, scanAnonVma, allocPrivPage, privCtxEntryGet,
    addToPrivTree, privEncryptPage, findPrivPage, setSwappedBit, deleteScratchPage,
    Function.update_apply]

def oneWrittenOneCachedTree : SwapTree Unit where
  priv := oneWrittenOneCached
  swapMap e := if e = 1 then ⟨1, false⟩ else if e = 2 then ⟨0, true⟩ else .unused
  top := 3
  tree_top e he := by
    rw [oneWrittenOneCached_tree, if_neg (by omega), if_neg (by omega)]

/-- The first process exits: the second one's page loses its swap slot and its
descriptor while it is still in the swap cache. -/
theorem privCtxPut_deletes_other :
    (privCtxPut 1 oneWrittenOneCachedTree).1 = false ∧
      (privCtxPut 1 oneWrittenOneCachedTree).2.priv.tree 2 = none ∧
      (privCtxPut 1 oneWrittenOneCachedTree).2.swapMap 2 = .unused ∧
      ¬ KeepsOthers 1 oneWrittenOneCachedTree (privCtxPut 1 oneWrittenOneCachedTree).2 := by
  obtain ⟨hTree, hMap, hHung⟩ := privCtxPut_last
    (show oneWrittenOneCachedTree.priv.ctxs 1 = some ⟨1, 1⟩ by decide)
  rw [deleteAllFromPriv_eq] at hTree hMap hHung
  have hGone : (privCtxPut 1 oneWrittenOneCachedTree).2.priv.tree 2 = none := by
    rw [hTree]
    decide
  refine ⟨by rw [hHung]; decide, hGone, by rw [hMap]; decide, fun hKeeps => ?_⟩
  have hKept := (hKeeps 2 ⟨2, some 2, some 12, 2, 0⟩ (by decide) (by decide)).1
  rw [hGone] at hKept
  cases hKept

/-- A written-out page whose swapped bit an earlier cleanup has cleared. -/
def oneCleaned : SwapTree Unit where
  priv := { twoContexts with tree := fun e => if e = 2 then some ⟨2, none, none, 2, 0⟩ else none }
  swapMap e := if e = 2 then ⟨1, false⟩ else .unused
  top := 3
  tree_top e he := if_neg (by omega)

theorem privCtxPut_keeps_cleaned : KeepsOthers 1 oneCleaned (privCtxPut 1 oneCleaned).2 := by
  refine (privCtxPut_keepsOthers_iff (p := 0) (by decide)).mpr fun e swpd h _ _ => ?_
  simp only [oneCleaned] at h
  split at h
  · cases h
    exact ⟨rfl, Or.inl rfl⟩
  · cases h

end Lacuna.Swap
