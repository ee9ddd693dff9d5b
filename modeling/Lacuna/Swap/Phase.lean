import Lacuna.Swap.Life

/-!
# Private swap — phases of a page's life

A private page is in one of four phases: in memory only, in the swap cache, in
the swap cache and being written, on the swap device only. In the swap cache it
is either tracked, with an armed descriptor, or exposed, with none that could
encrypt it; a tracked page is dirty until it is written. The two places where a page
becomes exposed are `shrinkPageList_inv`, when `add_to_priv` fails, and
`endSwapBioWrite_inv`, always.
-/

namespace Lacuna.Swap

open Function

variable {Data : Type}

variable {s : Life Data} {e : Nat} {p : AnonPage}

/-! ## The phases -/

/-- `e` is in the swap cache, and in the page table exactly if the page is not
mapped. -/
structure InCache (s : Life Data) (e : Nat) : Prop where
  ne_zero : e ≠ 0
  hasCache : (s.swapMap e).hasCache = true
  count : (∃ d, s.pte = .present d) ∧ (s.swapMap e).count = 0 ∨
    s.pte = .swap e ∧ (s.swapMap e).count = 1

/-- Where the page is, and what the tree holds for it there. -/
inductive Phase (s : Life Data) : Prop
  /-- in memory only -/
  | resident (p : AnonPage) (hPage : s.page = some p) (hCache : p.swapCache = false)
      (hWb : p.writeback = false) (hPte : ∃ d, s.pte = .present d) (hBio : s.bio = none)
  /-- in the swap cache, no write in flight -/
  | cached (p : AnonPage) (e : Nat) (hPage : s.page = some p) (hCache : p.swapCache = true)
      (hWb : p.writeback = false) (hPriv : s.priv.pagePrivate p.frame = e)
      (hMap : InCache s e) (hBio : s.bio = none)
      (hTracked : s.tracked = true → p.dirty = true ∧ ∃ sc, Armed s.priv p.frame e sc)
      (hExposed : s.tracked = false → Unarmed s.priv e)
  /-- in the swap cache and being written -/
  | writing (p : AnonPage) (e : Nat) (b : Bio) (hPage : s.page = some p)
      (hCache : p.swapCache = true) (hWb : p.writeback = true)
      (hPriv : s.priv.pagePrivate p.frame = e) (hMap : InCache s e) (hBio : s.bio = some b)
      (hTracked : s.tracked = true → Armed s.priv p.frame e b.bvPage ∧
        testSwappedBit s.priv e = true)
      (hExposed : s.tracked = false → b.bvPage = p.frame ∧ s.priv.tree e = none)
  /-- on the swap device only -/
  | swapped (e : Nat) (hPage : s.page = none) (hPte : s.pte = .swap e) (he : e ≠ 0)
      (hMap : s.swapMap e = ⟨1, false⟩) (hBio : s.bio = none) (hTracked : s.tracked = false)
      (hExposed : Unarmed s.priv e)

def UnusedClear (s : Life Data) : Prop :=
  ∀ e, s.swapMap e = .unused → s.priv.tree e = none

structure LifeInv (s : Life Data) : Prop where
  unused : UnusedClear s
  phase : Phase s

theorem InCache.of_present (h : InCache s e) {d : Bool}
    (hPte : s.pte = .present d) : (s.swapMap e).count = 0 := by
  rcases h.count with hPresent | hSwap
  · exact hPresent.2
  · rw [hPte] at hSwap
    cases hSwap.1

theorem InCache.of_swap {e' : Nat} (h : InCache s e)
    (hPte : s.pte = .swap e') : e = e' ∧ (s.swapMap e).count = 1 := by
  rcases h.count with ⟨⟨d, hd⟩, -⟩ | hSwap
  · rw [hPte] at hd
    cases hd
  · rw [hPte] at hSwap
    exact ⟨(Pte.swap.inj hSwap.1).symm, hSwap.2⟩

theorem InCache.ne_unused (h : InCache s e) : s.swapMap e ≠ .unused := by
  intro hUnused
  have hCache := h.hasCache
  rw [hUnused] at hCache
  cases hCache

theorem LifeInv.cached (h : LifeInv s) (hPage : s.page = some p)
    (hCache : p.swapCache = true) (hWb : p.writeback = false) :
    ∃ e, s.priv.pagePrivate p.frame = e ∧ InCache s e ∧ s.bio = none ∧
      (s.tracked = true → p.dirty = true ∧ ∃ sc, Armed s.priv p.frame e sc) ∧
      (s.tracked = false → Unarmed s.priv e) := by
  cases h.phase with
  | resident q hq hc => rw [hPage] at hq; cases hq; rw [hCache] at hc; cases hc
  | writing q e b hq _ hw => rw [hPage] at hq; cases hq; rw [hWb] at hw; cases hw
  | swapped e hNone => rw [hPage] at hNone; cases hNone
  | cached q e hq _ _ hPriv hMap hBio hT hE =>
    rw [hPage] at hq
    cases hq
    exact ⟨e, hPriv, hMap, hBio, hT, hE⟩

theorem LifeInv.writing (h : LifeInv s) {b : Bio}
    (hPage : s.page = some p) (hBio : s.bio = some b) :
    ∃ e, p.swapCache = true ∧ s.priv.pagePrivate p.frame = e ∧ InCache s e ∧
      (s.tracked = true → Armed s.priv p.frame e b.bvPage ∧ testSwappedBit s.priv e = true) ∧
      (s.tracked = false → b.bvPage = p.frame ∧ s.priv.tree e = none) := by
  cases h.phase with
  | resident q _ _ _ _ hNone => rw [hBio] at hNone; cases hNone
  | cached q e _ _ _ _ _ hNone => rw [hBio] at hNone; cases hNone
  | swapped e _ _ _ _ hNone => rw [hBio] at hNone; cases hNone
  | writing q e b' hq hCache _ hPriv hMap hb hT hE =>
    rw [hPage] at hq
    cases hq
    rw [hBio] at hb
    cases hb
    exact ⟨e, hCache, hPriv, hMap, hT, hE⟩

theorem LifeInv.bio_eq_none (h : LifeInv s)
    (hPage : s.page = some p) (hWb : p.writeback = false) : s.bio = none := by
  cases h.phase with
  | resident q _ _ _ _ hBio => exact hBio
  | cached q e _ _ _ _ _ hBio => exact hBio
  | writing q e b hq _ hw => rw [hPage] at hq; cases hq; rw [hWb] at hw; cases hw
  | swapped e hNone => rw [hPage] at hNone; cases hNone

/-! ## Dropping references -/

section EntryFree

variable (s : Life Data) (e : Nat) (c : Bool)

@[simp] theorem page_swapEntryFree : (swapEntryFree s e c).page = s.page := rfl
@[simp] theorem pte_swapEntryFree : (swapEntryFree s e c).pte = s.pte := rfl
@[simp] theorem bio_swapEntryFree : (swapEntryFree s e c).bio = s.bio := rfl
@[simp] theorem tracked_swapEntryFree : (swapEntryFree s e c).tracked = s.tracked := rfl
@[simp] theorem swapMap_swapEntryFree : (swapEntryFree s e c).swapMap =
    update s.swapMap e ((s.swapMap e).drop c) := rfl
@[simp] theorem pagePrivate_swapEntryFree :
    (swapEntryFree s e c).priv.pagePrivate = s.priv.pagePrivate := by
  simp only [swapEntryFree]
  split <;> simp

variable {s e c}

theorem tree_swapEntryFree (he : e ≠ 0) : (swapEntryFree s e c).priv.tree =
    if (s.swapMap e).drop c = .unused then update s.priv.tree e none
    else s.priv.tree := by
  simp only [swapEntryFree]
  split
  · exact tree_deleteFromPriv_setSwappedBit _ he
  · rfl

theorem UnusedClear.entryFree (h : UnusedClear s) (he : e ≠ 0) :
    UnusedClear (swapEntryFree s e c) := by
  intro e' hUnused
  rw [swapMap_swapEntryFree] at hUnused
  rw [tree_swapEntryFree he]
  by_cases hEq : e' = e
  · subst hEq
    rw [update_self] at hUnused
    rw [if_pos hUnused, update_self]
  · rw [update_of_ne hEq] at hUnused
    split
    · rw [update_of_ne hEq, h e' hUnused]
    · exact h e' hUnused

theorem UnusedClear.of_update (h : UnusedClear s) {m : SwapCount} (hUse : m ≠ .unused)
    {s' : Life Data} (hMap : s'.swapMap = update s.swapMap e m)
    (hTree : ∀ e', e' ≠ e → s'.priv.tree e' = s.priv.tree e') : UnusedClear s' := by
  intro e' hUnused
  have hNe : e' ≠ e := by
    rintro rfl
    rw [hMap, update_self] at hUnused
    exact hUse hUnused
  rw [hMap, update_of_ne hNe] at hUnused
  rw [hTree e' hNe]
  exact h e' hUnused

theorem UnusedClear.of_inUse (h : UnusedClear s) (hUse : s.swapMap e ≠ .unused)
    {s' : Life Data} (hMap : s'.swapMap = s.swapMap)
    (hTree : ∀ e', e' ≠ e → s'.priv.tree e' = s.priv.tree e') : UnusedClear s' := by
  refine h.of_update hUse ?_ hTree
  rw [hMap, update_eq_self]

end EntryFree

section Preservation

variable {s : Life Data} {p : AnonPage} {dec : Nat → Data → Data}

variable {d : Bool} {e : Nat}

theorem deleteFromSwapCache_inv (h : LifeInv s) (hPage : s.page = some p)
    (hCache : p.swapCache = true) (hWb : p.writeback = false)
    (hCount : pageSwapcount s p = 0) (p' : AnonPage)
    (hp' : p'.frame = p.frame ∧ p'.writeback = false) :
    LifeInv (deleteFromSwapCache s p') := by
  obtain ⟨e, hPriv, hMap, hBio, -, -⟩ := h.cached hPage hCache hWb
  have hPte : ∃ d, s.pte = .present d := by
    rcases hMap.count with hPresent | hSwap
    · exact hPresent.1
    · rw [pageSwapcount, hPriv, hSwap.2] at hCount
      cases hCount
  rw [deleteFromSwapCache, hp'.1, hPriv]
  exact ⟨UnusedClear.entryFree h.unused hMap.ne_zero, .resident _ rfl rfl hp'.2 hPte hBio⟩

theorem tryToFreeSwap_inv (h : LifeInv s) (hPage : s.page = some p) (gfpIo : Bool) :
    LifeInv (tryToFreeSwap s p gfpIo).2 := by
  unfold tryToFreeSwap
  split
  · exact h
  · rename_i hCond
    simp only [Bool.or_eq_true, Bool.not_eq_true', bne_iff_ne, ne_eq, not_or, not_not,
      Bool.not_eq_false, Bool.not_eq_true] at hCond
    obtain ⟨⟨⟨hCache, hWb⟩, hCount⟩, -⟩ := hCond
    exact deleteFromSwapCache_inv h hPage hCache hWb hCount _ ⟨rfl, hWb⟩

theorem setPte_inv (h : LifeInv s) (hPte : s.pte = .present d) (d' : Bool) :
    LifeInv { s with pte := .present d' } := by
  have hIn : ∀ {e}, InCache s e → InCache { s with pte := .present d' } e := by
    intro e hMap
    exact ⟨hMap.ne_zero, hMap.hasCache, .inl ⟨⟨d', rfl⟩, hMap.of_present hPte⟩⟩
  refine ⟨h.unused, ?_⟩
  cases h.phase with
  | resident p hp hc hw _ hBio => exact .resident p hp hc hw ⟨d', rfl⟩ hBio
  | cached p e hp hc hw hPriv hMap hBio hT hE =>
    exact .cached p e hp hc hw hPriv (hIn hMap) hBio hT hE
  | writing p e b hp hc hw hPriv hMap hBio hT hE =>
    exact .writing p e b hp hc hw hPriv (hIn hMap) hBio hT hE
  | swapped e _ hSwap => rw [hPte] at hSwap; cases hSwap

theorem reuseSwapPage_inv (h : LifeInv s) (hPage : s.page = some p)
    (hPte : s.pte = .present d) : LifeInv { (reuseSwapPage s p).2 with pte := .present true } := by
  unfold reuseSwapPage
  split
  · rename_i hIn
    dsimp only
    split
    · rename_i hOne
      have hCount : pageSwapcount s p = 0 := by
        have hMapped : s.mapcount = 1 := by rw [Life.mapcount, hPte]
        omega
      have hWb : p.writeback = false := by simpa using hOne.2
      have hInv := deleteFromSwapCache_inv h hPage hIn.2 hWb hCount { p with dirty := true }
        ⟨rfl, hWb⟩
      exact setPte_inv hInv hPte true
    · exact setPte_inv h hPte true
  · exact setPte_inv h hPte true

theorem setPageDirty_inv (h : LifeInv s) (hPage : s.page = some p) (data : Data) : LifeInv { s with
      priv := { s.priv with mem := update s.priv.mem p.frame data }
      page := some { p with dirty := true } } := by
  refine ⟨h.unused, ?_⟩
  cases h.phase with
  | resident q hq hc hw hPte hBio =>
    rw [hPage] at hq
    cases hq
    exact .resident { p with dirty := true } rfl hc hw hPte hBio
  | cached q e hq hc hw hPriv hMap hBio hT hE =>
    rw [hPage] at hq
    cases hq
    exact .cached { p with dirty := true } e rfl hc hw hPriv ⟨hMap.1, hMap.2, hMap.3⟩ hBio
      (fun ht => ⟨rfl, (hT ht).2⟩) hE
  | writing q e b hq hc hw hPriv hMap hBio hT hE =>
    rw [hPage] at hq
    cases hq
    exact .writing { p with dirty := true } e b rfl hc hw hPriv ⟨hMap.1, hMap.2, hMap.3⟩ hBio hT hE
  | swapped e hNone => rw [hPage] at hNone; cases hNone

theorem tryToUnmap_inv (h : LifeInv s) (hPage : s.page = some p)
    (hPte : s.pte = .present d) (hCache : p.swapCache = true) (hWb : p.writeback = false) :
    LifeInv (tryToUnmap s p d) := by
  obtain ⟨e, hPriv, hMap, hBio, hT, hE⟩ := h.cached hPage hCache hWb
  have hCount : (s.swapMap e).count = 0 := hMap.of_present hPte
  rw [tryToUnmap, hPriv]
  refine ⟨h.unused.of_update ?_ rfl fun _ _ => rfl,
    .cached { p with dirty := p.dirty || d } e rfl hCache hWb hPriv
      ⟨hMap.ne_zero, ?_, .inr ⟨rfl, ?_⟩⟩ hBio (fun ht => ⟨?_, (hT ht).2⟩) hE⟩
  · simp [SwapCount.unused]
  · simpa using hMap.hasCache
  · simp [hCount]
  · simp [(hT ht).1]

theorem removeMapping_inv (h : LifeInv s) (hPage : s.page = some p)
    (hPte : s.pte = .swap e) (hCache : p.swapCache = true) (hDirty : p.dirty = false)
    (hWb : p.writeback = false) : LifeInv (removeMapping s p) := by
  obtain ⟨e', hPriv, hMap, hBio, hT, hE⟩ := h.cached hPage hCache hWb
  obtain ⟨rfl, hCount⟩ := hMap.of_swap hPte
  have hDrop : (s.swapMap e').drop true = ⟨1, false⟩ := by simp [SwapCount.drop, hCount]
  -- a tracked page is dirty, so this one has been written
  have hExposed : s.tracked = false := by
    by_contra hTr
    have hd := (hT (by simpa using hTr)).1
    rw [hDirty] at hd
    cases hd
  have hUnused : UnusedClear (deleteFromSwapCache s p) := by
    rw [deleteFromSwapCache, hPriv]
    exact UnusedClear.entryFree h.unused hMap.ne_zero
  refine ⟨fun e => hUnused e, ?_⟩
  rw [removeMapping, deleteFromSwapCache, hPriv]
  refine .swapped e' rfl hPte hMap.ne_zero ?_ hBio hExposed ?_
  · simp [hDrop]
  · intro swpd hSwpd
    refine hE hExposed swpd ?_
    simpa [swapEntryFree, hDrop, SwapCount.unused] using hSwpd

theorem UnusedClear.setBit (h : UnusedClear s) (e val : Nat) :
    UnusedClear { s with priv := setSwappedBit s.priv e val } := by
  intro e' hUnused
  have hNone : s.priv.tree e' = none := h e' hUnused
  by_cases hEq : e' = e
  · subst hEq
    simp [setSwappedBit, findPrivPage, hNone]
  · simp [setSwappedBit, update_of_ne hEq, hNone]

theorem endSwapBioWrite_inv (h : LifeInv s) (hPage : s.page = some p) {b : Bio}
    (hBio : s.bio = some b) {uptodate : Bool} {s' : Life Data}
    (hStep : endSwapBioWrite s p b uptodate = some s') : LifeInv s' := by
  obtain ⟨e, hCache, hPriv, hMap, hT, hE⟩ := h.writing hPage hBio
  cases hTr : s.tracked with
  | true =>
    obtain ⟨⟨swpd, hTree, hFrame, hSc, hScPriv, -⟩, hBit⟩ := hT hTr
    have hFlags : swpd.flags ≠ 0 := by
      simpa [testSwappedBit, findPrivPage, hTree] using hBit
    simp only [endSwapBioWrite, findPrivPage, hScPriv, hTree, hFrame, hPriv, Option.map_some,
      Option.getD_some, if_true, Option.some.injEq] at hStep
    subst hStep
    -- the descriptor stays, without its page and its scratch page
    have hPrivos : deleteScratchPage s.priv e = { s.priv with
        tree := update s.priv.tree e (some { swpd with scratch := none, page := none }) } := by
      rw [deleteScratchPage, if_pos hMap.ne_zero]
      simp only [findPrivPage, hTree, hSc, hFlags, ne_eq, not_false_eq_true, Option.isSome_some,
        and_self, if_true]
    rw [hPrivos]
    refine ⟨h.unused.of_inUse hMap.ne_unused rfl fun e' hNe => update_of_ne hNe _ _,
      .cached _ e rfl hCache rfl hPriv ⟨hMap.1, hMap.2, hMap.3⟩ rfl (fun hF => by cases hF)
        fun _ swpd' hSwpd => ?_⟩
    simp only [update_self, Option.some.injEq] at hSwpd
    subst hSwpd
    exact ⟨rfl, rfl⟩
  | false =>
    obtain ⟨hSame, hNone⟩ := hE hTr
    simp only [endSwapBioWrite, findPrivPage, hSame, hPriv, hNone, if_true,
      Option.some.injEq] at hStep
    subst hStep
    refine ⟨h.unused, .cached _ e rfl hCache rfl hPriv ⟨hMap.1, hMap.2, hMap.3⟩ rfl
      (fun hF => by cases hF) fun _ swpd hSwpd => ?_⟩
    rw [hNone] at hSwpd
    cases hSwpd

theorem LifeInv.enterCache (h : LifeInv s) (hPte : s.pte = .present d)
    (hBio : s.bio = none) (hWb : p.writeback = false) (he : e ≠ 0)
    {priv : Privos Data} {ok : Bool} (hPriv : priv.pagePrivate p.frame = e)
    (hTree : ∀ e', e' ≠ e → priv.tree e' = s.priv.tree e')
    (hOk : if ok then ∃ sc, Armed priv p.frame e sc else priv.tree e = none) :
    LifeInv { s with
      priv := priv
      swapMap := update s.swapMap e ⟨0, true⟩
      page := some { p with swapCache := true, dirty := true }
      tracked := ok } := by
  refine ⟨h.unused.of_update (by simp [SwapCount.unused]) rfl hTree,
    .cached { p with swapCache := true, dirty := true } e rfl rfl hWb hPriv
      ⟨he, by simp, .inl ⟨⟨d, hPte⟩, by simp⟩⟩ hBio (fun hT => ?_) fun hF swpd hSwpd => ?_⟩
  · rw [if_pos hT] at hOk
    exact ⟨rfl, hOk⟩
  · rw [if_neg (by simpa using hF)] at hOk
    rw [hOk] at hSwpd
    cases hSwpd

theorem shrinkPageList_inv {vmas : List AnonVma} (hVmas : PrivateVmas vmas) (h : LifeInv s)
    (hPage : s.page = some p) (hPte : s.pte = .present d)
    (hCache : p.swapCache = false) (hWb : p.writeback = false) {r : ReclaimOutcome}
    (hFree : r.swapEntry ≠ 0 → s.swapMap r.swapEntry = .unused)
    (hSc : r.alloc.scratch ≠ some p.frame) : LifeInv (shrinkPageList vmas s p r) := by
  have hBio := h.bio_eq_none hPage hWb
  unfold shrinkPageList addToSwap
  by_cases h0 : r.swapEntry = 0
  · simp only [h0, if_true]
    exact h
  · have hNone : s.priv.tree r.swapEntry = none := h.unused _ (hFree h0)
    cases hIns : r.cacheInsert with
    | false =>
      simp only [h0, if_false, Bool.false_eq_true]
      have hTaken : UnusedClear { s with
          swapMap := update s.swapMap r.swapEntry ⟨0, true⟩ } :=
        h.unused.of_update (by simp [SwapCount.unused]) rfl fun _ _ => rfl
      exact ⟨hTaken.entryFree h0, .resident p hPage hCache hWb ⟨d, hPte⟩ hBio⟩
    | true =>
      simp only [h0, if_false, if_true]
      have hMapped : ∀ s' : Life Data, s'.pte = s.pte → s'.mapcount = 1 := by
        intro s' hs'
        rw [Life.mapcount, hs', hPte]
      rw [hMapped { s with
        priv := { s.priv with
          pagePrivate := update s.priv.pagePrivate p.frame r.swapEntry }
        swapMap := update s.swapMap r.swapEntry ⟨0, true⟩
        page := some { p with swapCache := true, dirty := true } } rfl]
      rcases hAdd : addToPriv
        { s.priv with pagePrivate := update s.priv.pagePrivate p.frame r.swapEntry }
        r.alloc p.frame 1 (some vmas) with ⟨ok, priv⟩
      obtain ⟨hPriv, hTree, hOk⟩ := addToPriv_private hVmas
        (by simpa using h0) (by simpa using hNone) hSc hAdd
      simp only [update_self] at hPriv hTree hOk
      have hInv := h.enterCache hPte hBio hWb h0 hPriv hTree hOk
      cases ok with
      | true => exact hInv
      | false =>
        simp only
        split
        · exact tryToFreeSwap_inv hInv rfl r.gfpIo
        · exact hInv

theorem readSwapCacheAsync_inv (h : LifeInv s) (hPage : s.page = none)
    (hPte : s.pte = .swap e) (frame : Nat) : LifeInv (readSwapCacheAsync dec s e frame) := by
  cases h.phase with
  | resident q hq => rw [hPage] at hq; cases hq
  | cached q e' hq => rw [hPage] at hq; cases hq
  | writing q e' b hq => rw [hPage] at hq; cases hq
  | swapped e' _ hPte' he hMap hBio hTr hExposed =>
    rw [hPte] at hPte'
    cases hPte'
    have hTree : (readSwapCacheAsync dec s e frame).priv.tree = s.priv.tree := by
      simp only [readSwapCacheAsync, privDecryptPage]
      repeat' split
      all_goals rfl
    have hPriv : (readSwapCacheAsync dec s e frame).priv.pagePrivate frame = e := by
      have hUpd : update s.priv.pagePrivate frame e frame = e := update_self ..
      simp only [readSwapCacheAsync, privDecryptPage]
      repeat' split
      all_goals exact hUpd
    refine ⟨h.unused.of_update (by simp [SwapCount.unused]) rfl fun e' _ => congrFun hTree e',
      .cached _ e rfl rfl rfl hPriv
        ⟨he, by simp [readSwapCacheAsync], .inr ⟨hPte, by simp [readSwapCacheAsync, hMap]⟩⟩ hBio
        (fun hT => ?_) fun _ swpd hSwpd => ?_⟩
    · simp only [readSwapCacheAsync, hTr] at hT
      cases hT
    · rw [hTree] at hSwpd
      exact hExposed swpd hSwpd

theorem swapFree_inv (h : LifeInv s) (hPage : s.page = some p) (hPte : s.pte = .swap e) (d : Bool) :
    LifeInv (swapEntryFree { s with pte := .present d } e false) := by
  have hIn : InCache s e → InCache (swapEntryFree { s with pte := .present d } e false) e ∧
      (swapEntryFree { s with pte := .present d } e false).priv = s.priv := by
    intro hMap
    have hDrop : (s.swapMap e).drop false = ⟨0, true⟩ := by
      simp [SwapCount.drop, (hMap.of_swap hPte).2, hMap.hasCache]
    exact ⟨⟨hMap.ne_zero, by simp [hDrop], .inl ⟨⟨d, rfl⟩, by simp [hDrop]⟩⟩,
      by simp [swapEntryFree, hDrop, SwapCount.unused]⟩
  cases h.phase with
  | resident q hq hc hw hp => obtain ⟨d', hd'⟩ := hp; rw [hPte] at hd'; cases hd'
  | swapped e' hNone => rw [hPage] at hNone; cases hNone
  | cached q e' hq hc hw hPriv hMap hBio hT hE =>
    obtain ⟨rfl, -⟩ := hMap.of_swap hPte
    obtain ⟨hIn', hEq⟩ := hIn hMap
    refine ⟨UnusedClear.entryFree h.unused hMap.ne_zero,
      .cached q e' hq hc hw ?_ hIn' hBio ?_ ?_⟩ <;> rw [hEq]
    exacts [hPriv, hT, hE]
  | writing q e' b hq hc hw hPriv hMap hBio hT hE =>
    obtain ⟨rfl, -⟩ := hMap.of_swap hPte
    obtain ⟨hIn', hEq⟩ := hIn hMap
    refine ⟨UnusedClear.entryFree h.unused hMap.ne_zero,
      .writing q e' b hq hc hw ?_ hIn' hBio ?_ ?_⟩ <;> rw [hEq]
    exacts [hPriv, hT, hE]

theorem reuseSwapPage_swapFree_inv (h : LifeInv s) (hPage : s.page = some p)
    (hPte : s.pte = .swap e) (hCache : p.swapCache = true) :
    LifeInv (swapEntryFree { (reuseSwapPage s p).2 with pte := .present (reuseSwapPage s p).1 }
      e false) := by
  have hMapcount : s.mapcount = 0 := by rw [Life.mapcount, hPte]
  cases hWb : p.writeback with
  | false =>
    obtain ⟨e', hPriv, hMap, hBio, -, -⟩ := h.cached hPage hCache hWb
    obtain ⟨rfl, hCount⟩ := hMap.of_swap hPte
    have hReuse : reuseSwapPage s p = (true, deleteFromSwapCache s { p with dirty := true }) := by
      simp [reuseSwapPage, hMapcount, hCache, pageSwapcount, hPriv, hCount, hWb]
    have hUnused : UnusedClear (deleteFromSwapCache s { p with dirty := true }) := by
      rw [deleteFromSwapCache]
      simp only [hPriv]
      exact UnusedClear.entryFree h.unused hMap.ne_zero
    rw [hReuse]
    exact ⟨UnusedClear.entryFree (fun e => hUnused e) hMap.ne_zero,
      .resident { p with dirty := true, swapCache := false } rfl rfl hWb ⟨true, rfl⟩ hBio⟩
  | true =>
    have hReuse : (reuseSwapPage s p).2 = s := by
      simp [reuseSwapPage, hMapcount, hCache, hWb]
    rw [hReuse]
    exact swapFree_inv h hPage hPte _

theorem freeSwapIfFull_inv (h : LifeInv s) (vmSwapFull gfpIo : Bool) :
    LifeInv (freeSwapIfFull s vmSwapFull gfpIo) := by
  unfold freeSwapIfFull
  split
  · rename_i p hPage
    split
    · exact tryToFreeSwap_inv h hPage gfpIo
    · exact h
  · exact h

theorem mapSwapPage_inv (h : LifeInv s) (hPage : s.page = some p)
    (hPte : s.pte = .swap e) (hCache : p.swapCache = true) (write vmSwapFull gfpIo : Bool) :
    LifeInv (mapSwapPage s p e write vmSwapFull gfpIo) := by
  cases write with
  | true => exact freeSwapIfFull_inv (reuseSwapPage_swapFree_inv h hPage hPte hCache) _ _
  | false => exact freeSwapIfFull_inv (swapFree_inv h hPage hPte false) _ _

end Preservation

end Lacuna.Swap
