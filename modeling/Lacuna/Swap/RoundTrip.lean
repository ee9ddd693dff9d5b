import Lacuna.Lib.Trace
import Lacuna.Swap.Writeback

/-!
# Private swap — what is read back

A swap-in restores what `swap_writepage` last wrote, with one exception: a write fault
that takes a page out of the swap cache drops its swap entry only later, and readahead
may get in between. It then reads an entry that may never have been written, and finds
the descriptor for the first write. Nobody can map what it has read.
-/

namespace Lacuna.Swap

open Lacuna.Lib Function

variable {Data : Type}

/-! ## Reading in -/

section Read

variable {enc dec : Nat → Data → Data} {s : SwapSystem Data} {e : Nat} {p : CachedPage}

/-- **A read begins**: on an entry on the device only, or one that a fault has taken. -/
theorem SwapInv.readSwapCacheAsync (h : SwapInv enc s) (hCount : (s.slot e).map.count ≠ 0)
    (hCache : (s.slot e).map.hasCache = false) {frame : Nat} (hIdle : s.Idle frame) :
    SwapInv enc (s.readSwapCacheAsync e frame) := by
  have hPage : (s.slot e).page = none := by
    have hIff := (h e).hasCache
    rw [hCache] at hIff
    exact Option.isNone_iff_eq_none.mp (by simpa using hIff.symm)
  have he : e ≠ 0 := (h e).ne_zero fun hUnused => hCount (by rw [hUnused]; rfl)
  have hSelf : (s.readSwapCacheAsync e frame).slot e =
      { s.slot e with
        map := { (s.slot e).map with hasCache := true }
        page := some ⟨⟨frame, true, false, false⟩, 0, true, false⟩
        orphan := (s.slot e).taken } :=
    update_self ..
  refine h.of_slot (fun e' hNe => update_of_ne hNe _ _)
    (Touches.setPrivate s.priv e frame e) (fun f hf => .inr (hf ▸ hIdle))
    ⟨fun q hq => ?_, fun swpd hSwpd => ⟨((h e).swpd swpd hSwpd).live, fun sc hSc => ?_⟩, ?_,
      fun _ => he, ?_⟩
  · rw [hSelf] at hq
    cases hq
    exact ⟨rfl, update_self ..⟩
  · have hNe : sc ≠ frame := by
      rintro rfl
      exact hIdle e (.inr ⟨swpd, hSwpd, hSc⟩)
    refine ⟨?_, fun q hq => ?_⟩
    · exact (update_of_ne hNe _ _).trans (((h e).swpd swpd hSwpd).scratch sc hSc).1
    · rw [hSelf] at hq
      cases hq
      exact hNe
  · rw [hSelf]
    rfl
  · cases (h e).phase with
    | free hMap => exact absurd (by rw [hMap]; rfl) hCount
    | cached _ hSome => rw [hPage] at hSome; cases hSome
    | writing _ _ hSome => rw [hPage] at hSome; cases hSome
    | orphan _ hSome => rw [hPage] at hSome; cases hSome
    | taken hMap _ hBio hTaken =>
      refine .orphan ⟨⟨frame, true, false, false⟩, 0, true, false⟩ ?_ rfl ?_ ?_ rfl rfl
        (.inr ⟨?_, ?_⟩)
      · rw [hSelf]
      · rw [hSelf]; exact hBio
      · rw [hSelf]; exact hTaken
      · rw [hSelf, hMap]
      · rw [hSelf]; exact hTaken
    | stored _ _ hBio hTaken hStored =>
      refine .cached ⟨⟨frame, true, false, false⟩, 0, true, false⟩ ?_ rfl ?_ ?_ ?_ (fun _ => rfl)
        fun _ => ?_
      · rw [hSelf]
      · rw [hSelf]; exact hBio
      · rw [hSelf]; exact hTaken
      · rw [hSelf]; exact hTaken
      · rw [Stored, hSelf]
        exact hStored

def decrypts (st : Privos Data) (page : Nat) : Bool :=
  match findPrivPage st (st.pagePrivate page) with
  | none => false
  | some swpd => (st.ctxs swpd.ctx).any fun k => k.mapcount != 0

theorem privDecryptPage_eq (dec : Nat → Data → Data) (st : Privos Data) {frame : Nat}
    (hPriv : st.pagePrivate frame = e)
    (hLive : ∀ swpd, st.tree e = some swpd → LiveCtx st swpd.ctx) :
    privDecryptPage dec st frame = { st with
      mem := update st.mem frame (storedAs dec (st.tree e) (st.mem frame)) } ∧
      decrypts st frame = (st.tree e).isSome := by
  cases hTree : st.tree e with
  | none =>
    simp only [privDecryptPage, decrypts, findPrivPage, hPriv, hTree, storedAs,
      update_eq_self, Option.isSome_none, and_self]
  | some swpd =>
    obtain ⟨k, hk, hMap⟩ := hLive swpd hTree
    simp only [privDecryptPage, decrypts, findPrivPage, hPriv, hTree, hk, hMap, storedAs, if_false,
      Option.any_some, bne_iff_ne, ne_eq, not_false_eq_true, Option.isSome_some, and_self]

def SwapSystem.readIn (s : SwapSystem Data) (e : Nat) (p : CachedPage) (d : Data)
    (uptodate : Bool) : SwapSystem Data :=
  SwapSystem.modify
    { s with priv := { s.priv with mem := Function.update s.priv.mem p.frame d } } e
    fun slot => { slot with page := some { p with reading := false, uptodate := uptodate } }

theorem endSwapBioRead_eq (h : SlotInv enc s e) (hPage : (s.slot e).page = some p) :
    s.endSwapBioRead dec e p true =
      s.readIn e p (storedAs dec (s.priv.tree e) (s.slot e).disk) true := by
  have hEq := (privDecryptPage_eq dec
    { s.priv with mem := update s.priv.mem p.frame (s.slot e).disk }
    (h.page p hPage).2 fun swpd hSwpd => (h.swpd swpd hSwpd).live).1
  simp only [SwapSystem.endSwapBioRead, if_true, hEq, update_self, update_idem,
    SwapSystem.readIn]

/-- **A read ends.** -/
theorem SwapInv.readIn (h : SwapInv enc s) (hPage : (s.slot e).page = some p)
    (hReading : p.reading = true) (d : Data) (uptodate : Bool) :
    SwapInv enc (s.readIn e p d uptodate) := by
  have hSelf : (s.readIn e p d uptodate).slot e =
      { s.slot e with page := some { p with reading := false, uptodate := uptodate } } :=
    update_self ..
  refine h.of_slot (fun e' hNe => update_of_ne hNe _ _) (Touches.setMem s.priv e p.frame d)
    (fun f hf => .inl (.inl ⟨p, hPage, hf.symm⟩)) ?_
  refine (h e).replacePage { p with reading := false, uptodate := uptodate } hPage
    (by rw [hSelf]) (by rw [hSelf]) rfl rfl rfl (fun _ hc => hc)
    (fun swpd hSwpd => ⟨swpd, hSwpd, rfl, rfl⟩) ?_
  cases (h e).pagePhase hPage with
  | writing b _ _ _ _ _ hR =>
    rw [hReading] at hR
    cases hR
  | cached hWb hBio hTaken hOrphan hR hStored =>
    refine .cached hWb ?_ ?_ ?_ (fun hF => by cases hF) fun hClean => ?_
    · rw [hSelf]; exact hBio
    · rw [hSelf]; exact hTaken
    · rw [hSelf]; exact hOrphan
    · rw [Stored, hSelf]
      exact hStored hClean
  | orphan hWb hBio hOrphan hDirty hMapcount hCount =>
    refine .orphan hWb ?_ ?_ hDirty hMapcount ?_
    · rw [hSelf]; exact hBio
    · rw [hSelf]; exact hOrphan
    · rw [hSelf]; exact hCount

/-- The contents are those that `swap_writepage` last wrote, and were decrypted exactly if they
had been encrypted. -/
def Restored (dec : Nat → Data → Data) (s : SwapSystem Data) (e : Nat) (p : CachedPage) : Prop :=
  (s.slot e).written = some ((s.endSwapBioRead dec e p true).priv.mem p.frame) ∧
    decrypts s.priv p.frame = (s.slot e).encrypted

theorem SlotInv.restored (h : SlotInv enc s e) (hDec : ∀ ctx d, dec ctx (enc ctx d) = d)
    (hPage : (s.slot e).page = some p) (hReading : p.reading = true)
    (hOrphan : (s.slot e).orphan = false) : Restored dec s e p := by
  cases h.pagePhase hPage with
  | orphan _ _ hTrue => rw [hOrphan] at hTrue; cases hTrue
  | writing b _ _ _ _ _ hR => rw [hReading] at hR; cases hR
  | cached _ _ _ _ hR hStored =>
    obtain ⟨d, hWritten, hDisk, hEnc⟩ := hStored (hR hReading)
    have hBack : storedAs dec (s.priv.tree e) (storedAs enc (s.priv.tree e) d) = d := by
      cases s.priv.tree e with
      | none => rfl
      | some swpd => exact hDec swpd.ctx d
    have hDecrypts := (privDecryptPage_eq dec s.priv (h.page p hPage).2 fun swpd hSwpd =>
      (h.swpd swpd hSwpd).live).2
    refine ⟨?_, hDecrypts.trans hEnc.symm⟩
    rw [endSwapBioRead_eq h hPage, hWritten, hDisk, hBack]
    exact congrArg some (update_self (f := s.priv.mem) p.frame d).symm

end Read

/-! ## Entering the swap cache -/

section Enter

variable {enc : Nat → Data → Data} {s : SwapSystem Data} {e : Nat}

variable {st : Privos Data} {o : PrivAlloc}

theorem scanAnonVma_mem {v : AnonVma} :
    ∀ (vmas : List AnonVma) (acc : Option AnonVma), scanAnonVma acc vmas = some v →
      acc = some v ∨ v ∈ vmas
  | [], acc, h => .inl h
  | a :: rest, acc, h => by
    rw [scanAnonVma] at h
    split at h
    · cases h
    · rcases scanAnonVma_mem rest (some a) h with hEq | hMem
      · cases hEq
        exact .inr List.mem_cons_self
      · exact .inr (List.mem_cons_of_mem _ hMem)

/-- A descriptor under `e` has a live context, and its scratch page is the one that was
allocated. -/
def GoodEntry (st : Privos Data) (e : Nat) (o : PrivAlloc) : Prop :=
  ∀ swpd, st.tree e = some swpd → LiveCtx st swpd.ctx ∧
    ∀ sc, swpd.scratch = some sc → o.scratch = some sc ∧ st.pagePrivate sc = e

theorem GoodEntry.of_none (h : st.tree e = none) :
    GoodEntry st e o := by
  intro swpd hSwpd
  rw [h] at hSwpd
  cases hSwpd

theorem addPrivate_touches {page ctx : Nat}
    (hPriv : st.pagePrivate page = e) (he : e ≠ 0) (hNone : st.tree e = none)
    (hSc : o.scratch ≠ some page) (hCtx : LiveCtx st ctx) :
    Touches st (addPrivate st o page ctx).2 e (fun f => o.scratch = some f) ∧
      GoodEntry (addPrivate st o page ctx).2 e o := by
  have hGet := Touches.entryGet (F := fun f => o.scratch = some f) st e ctx
  have hFailed : addPrivate st o page ctx = (false, privCtxEntryGet st ctx) →
      Touches st (addPrivate st o page ctx).2 e (fun f => o.scratch = some f) ∧
        GoodEntry (addPrivate st o page ctx).2 e o := by
    intro hEq
    rw [hEq]
    exact ⟨hGet, .of_none hNone⟩
  cases hScratch : o.scratch with
  | none =>
    rw [← hScratch]
    exact hFailed (by simp only [addPrivate, allocPrivPage, hScratch])
  | some sc =>
    have hNe : page ≠ sc := fun hEq => hSc (hEq ▸ hScratch)
    have hPrivSc : update st.pagePrivate sc e page = e :=
      (update_of_ne hNe _ _).trans hPriv
    have hAlloc : Touches st { privCtxEntryGet st ctx with
        pagePrivate := update st.pagePrivate sc e } e (fun f => some sc = some f) :=
      (hScratch ▸ hGet).trans ((Touches.setPrivate _ e sc e).mono fun f hf => by rw [hf])
    cases hSwpd : o.swpd with
    | false =>
      rw [← hScratch]
      exact hFailed (by
        simp only [addPrivate, allocPrivPage, hScratch, hSwpd, Bool.false_eq_true, if_false])
    | true =>
      simp only [addPrivate, allocPrivPage, hScratch, hSwpd, if_true, addToPrivTree, Option.map_some,
        pagePrivate_privCtxEntryGet, Option.getD_some, hPriv, hPrivSc, he, if_false,
        tree_privCtxEntryGet, hNone]
      cases hPre : o.preload with
      | false => exact ⟨hAlloc.trans (Touches.freePage _ _ _), .of_none hNone⟩
      | true =>
        cases hIns : o.insert with
        | false => exact ⟨hAlloc.trans (Touches.freePage _ _ _), .of_none hNone⟩
        | true =>
          refine ⟨hAlloc.trans (Touches.setTree _ e _), fun swpd hNew => ?_⟩
          obtain rfl := Option.some.inj ((update_self e _ st.tree).symm.trans hNew)
          refine ⟨hAlloc.live ctx hCtx, fun sc' hsc' => ⟨hScratch.trans hsc', ?_⟩⟩
          cases hsc'
          exact update_self ..

/-- **What `add_to_priv` does** under a fresh entry, for any page: it touches
its scratch page only, and a descriptor that it leaves is good. -/
theorem addToPriv_touches {st' : Privos Data} {page mapcount : Nat}
    {vmas : Option (List AnonVma)} {ok : Bool} (hPriv : st.pagePrivate page = e) (he : e ≠ 0)
    (hNone : st.tree e = none) (hSc : o.scratch ≠ some page)
    (hLive : ∀ vs, vmas = some vs → ∀ v ∈ vs, ∀ ctx, v.privCtx = some ctx → LiveCtx st ctx)
    (h : addToPriv st o page mapcount vmas = (ok, st')) :
    Touches st st' e (fun f => o.scratch = some f) ∧ GoodEntry st' e o := by
  rw [addToPriv_eq_addPrivate] at h
  cases hTo : privateTo mapcount vmas with
  | none =>
    rw [hTo] at h
    cases h
    exact ⟨Touches.refl .., .of_none hNone⟩
  | some ctx =>
    have hCtx : LiveCtx st ctx := by
      rw [privateTo] at hTo
      split at hTo
      · obtain ⟨vs, hVs, hBind⟩ := Option.bind_eq_some_iff.mp hTo
        obtain ⟨v, hv, hvCtx⟩ := Option.bind_eq_some_iff.mp hBind
        refine hLive vs hVs v ?_ ctx hvCtx
        exact (scanAnonVma_mem vs none hv).resolve_left (fun hBad => by cases hBad)
      · cases hTo
    rw [hTo, Option.elim_some] at h
    have hAdded := addPrivate_touches hPriv he hNone hSc hCtx
    rw [h] at hAdded
    exact hAdded

theorem SwapInv.enter (h : SwapInv enc s) (hUnused : (s.slot e).map = .unused) (he : e ≠ 0)
    {priv : Privos Data} {F : Nat → Prop} (hTouch : Touches s.priv priv e F)
    (hF : ∀ f, F f → s.Idle f) {frame : Nat} (hFrame : priv.pagePrivate frame = e)
    (hSwpd : ∀ swpd, priv.tree e = some swpd → LiveCtx priv swpd.ctx ∧
      ∀ sc, swpd.scratch = some sc → sc ≠ frame ∧ priv.pagePrivate sc = e) (mapcount : Nat) :
    SwapInv enc (SwapSystem.enter { s with priv := priv } e
      ⟨⟨frame, true, true, false⟩, mapcount, false, true⟩ false) := by
  obtain ⟨-, hBio, hTaken, -⟩ := (h e).of_unused hUnused
  have hSelf : (SwapSystem.enter { s with priv := priv } e
      ⟨⟨frame, true, true, false⟩, mapcount, false, true⟩ false).slot e =
      { s.slot e with
        map := { (s.slot e).map with hasCache := true }
        page := some ⟨⟨frame, true, true, false⟩, mapcount, false, true⟩
        orphan := false } :=
    update_self ..
  refine h.of_slot (fun e' hNe => update_of_ne hNe _ _) hTouch (fun f hf => .inr (hF f hf))
    ⟨fun q hq => ?_, fun swpd hv => ?_, ?_, fun _ => he,
      .cached ⟨⟨frame, true, true, false⟩, mapcount, false, true⟩ ?_ rfl ?_ ?_ ?_
        (fun hR => by cases hR) (fun hClean => by cases hClean)⟩
  · rw [hSelf] at hq
    cases hq
    exact ⟨rfl, hFrame⟩
  · obtain ⟨hLive, hScratch⟩ := hSwpd swpd hv
    refine ⟨hLive, fun sc hsc => ⟨(hScratch sc hsc).2, fun q hq => ?_⟩⟩
    rw [hSelf] at hq
    cases hq
    exact (hScratch sc hsc).1
  · rw [hSelf]
    rfl
  · rw [hSelf]
  · rw [hSelf]; exact hBio
  · rw [hSelf]; exact hTaken
  · rw [hSelf]

theorem put_addToSwap_failed (h : SwapInv enc s) (hUnused : (s.slot e).map = .unused)
    (he : e ≠ 0) (p : AnonPage) : s.put e (addToSwap (s.life e) p e false).2 = s := by
  obtain ⟨hPage, -, -, hTree⟩ := (h e).of_unused hUnused
  have hGone : deleteFromPriv (setSwappedBit s.priv e 0) e = s.priv := by
    rw [setSwappedBit_of_none hTree, deleteFromPriv, hTree]
    exact ite_self s.priv
  have hMap : SwapCount.drop ⟨0, true⟩ true = .unused := rfl
  have hNoPage : (s.life e).page = none := by rw [SwapSystem.life, hPage]; rfl
  have hSlot : { s.slot e with map := .unused, page := none } = s.slot e := by
    rw [← hUnused, ← hPage]
  simp only [SwapSystem.put, SwapSystem.modify, addToSwap, he, if_false, Bool.false_eq_true,
    swapEntryFree, update_self, hMap, if_true, SwapSystem.life, hGone, hPage,
    Option.map_none, Option.filter, Option.bind_none]
  exact (congrArg (fun slot => { s with slot := update s.slot e slot }) hSlot).trans
    (congrArg (fun slot => { s with slot := slot }) (update_eq_self e s.slot))

def linkPriv (st : Privos Data) (frame e : Nat) : Privos Data :=
  { st with pagePrivate := Function.update st.pagePrivate frame e }

/-- **Reclaim**: a page enters the swap cache under a fresh entry. -/
theorem SwapInv.shrinkPageList (h : SwapInv enc s) {frame mapcount : Nat}
    {vmas : Option (List AnonVma)} {r : ReclaimOutcome}
    (hFresh : r.swapEntry ≠ 0 → (s.slot r.swapEntry).map = .unused)
    (hAdmits : s.Admits (.shrinkPageList frame mapcount vmas r)) :
    SwapInv enc (s.shrinkPageList frame mapcount vmas r) := by
  obtain ⟨hIdle, hScratch, hLive⟩ := hAdmits
  by_cases he : r.swapEntry = 0
  · have hFail : addToSwap (s.life r.swapEntry) ⟨frame, false, false, false⟩ r.swapEntry
        r.cacheInsert = (false, s.life r.swapEntry) := by
      rw [addToSwap, if_pos he]
    rw [SwapSystem.shrinkPageList, hFail]
    simp only
    rw [s.put_life _ fun q hq => ((h _).page q hq).1]
    exact h
  have hUnused := hFresh he
  cases hInsert : r.cacheInsert with
  | false =>
    have hSame := put_addToSwap_failed h hUnused he ⟨frame, false, false, false⟩
    have hFail : (addToSwap (s.life r.swapEntry) ⟨frame, false, false, false⟩ r.swapEntry
        false).1 = false := by
      simp only [addToSwap, he, if_false, Bool.false_eq_true]
    rw [SwapSystem.shrinkPageList, hInsert]
    rw [← Prod.eta (addToSwap _ _ _ false), hFail]
    simp only [hSame]
    exact h
  | true =>
    have hAdded : addToSwap (s.life r.swapEntry) ⟨frame, false, false, false⟩ r.swapEntry true =
        (true, { s.life r.swapEntry with
          swapMap := update (s.life r.swapEntry).swapMap r.swapEntry ⟨0, true⟩
          priv := linkPriv s.priv frame r.swapEntry
          page := some ⟨frame, true, true, false⟩ }) := by
      simp only [addToSwap, he, if_false, if_true]
      rfl
    have hNe : r.alloc.scratch ≠ some frame := fun hEq => (hScratch frame hEq).2 rfl
    cases hAdd : addToPriv (linkPriv s.priv frame r.swapEntry) r.alloc frame mapcount vmas with
    | mk ok priv =>
      have hLinked : (linkPriv s.priv frame r.swapEntry).pagePrivate frame = r.swapEntry :=
        update_self ..
      have hNone : (linkPriv s.priv frame r.swapEntry).tree r.swapEntry = none :=
        ((h r.swapEntry).of_unused hUnused).2.2.2
      obtain ⟨hTouch, hSwpd⟩ := addToPriv_touches hLinked he hNone hNe hLive hAdd
      have hAll : Touches s.priv priv r.swapEntry fun f => f = frame ∨ r.alloc.scratch = some f :=
        ((Touches.setPrivate s.priv r.swapEntry frame r.swapEntry).mono fun f hf => .inl hf).trans
          (hTouch.mono fun f hf => .inr hf)
      have hIdles : ∀ f, f = frame ∨ r.alloc.scratch = some f → s.Idle f := by
        rintro f (rfl | hf)
        · exact hIdle
        · exact (hScratch f hf).1
      have hEntered := h.enter hUnused he hAll hIdles
        ((hTouch.frame frame hNe).1.trans hLinked)
        (fun swpd hv => ⟨(hSwpd swpd hv).1, fun sc hsc =>
          ⟨(hScratch sc ((hSwpd swpd hv).2 sc hsc).1).2, ((hSwpd swpd hv).2 sc hsc).2⟩⟩) mapcount
      rw [SwapSystem.shrinkPageList, hInsert, hAdded]
      simp only [hAdd]
      cases ok with
      | true => exact hEntered
      | false =>
        simp only
        split
        · exact hEntered.tryToFreeSwap
            (p := ⟨⟨frame, true, true, false⟩, mapcount, false, true⟩)
            (by rw [SwapSystem.enter, SwapSystem.slot_modify_self]) r.gfpIo
        · exact hEntered

end Enter

section Runs

variable {enc dec : Nat → Data → Data} {s t : SwapSystem Data} {e : Nat}

theorem SlotInv.clean {p : CachedPage} (h : SlotInv enc s e) (hPage : (s.slot e).page = some p)
    (hClean : p.dirty = false) (hWb : p.writeback = false) :
    (s.slot e).map.count = 0 ∧ (s.slot e).taken = false ∨
      (s.slot e).map.count = 1 ∧ (s.slot e).taken = true ∨
      (s.slot e).taken = false ∧ Stored enc s e := by
  cases h.pagePhase hPage with
  | writing b hTrue => rw [hWb] at hTrue; cases hTrue
  | cached _ _ hTaken _ _ hStored => exact .inr (.inr ⟨hTaken, hStored hClean⟩)
  | orphan _ _ _ _ _ hCount =>
    rcases hCount with hZero | hOne
    · exact .inl hZero
    · exact .inr (.inl hOne)

theorem onPage_eq_some {guard : CachedPage → Bool} {f : CachedPage → Option (SwapSystem Data)}
    (h : s.onPage e guard f = some t) :
    ∃ p, (s.slot e).page = some p ∧ guard p = true ∧ f p = some t := by
  obtain ⟨p, hPage, hStep⟩ := Option.bind_eq_some_iff.mp h
  split at hStep
  · rename_i hGuard
    exact ⟨p, hPage, hGuard, hStep⟩
  · cases hStep

/-- **Every step keeps the invariant.** -/
theorem SwapStep.inv {op : SwapOp Data} (h : SwapInv enc s) (hStep : SwapStep enc dec s op t) :
    SwapInv enc t := by
  obtain ⟨hAdmits, hStep⟩ := hStep
  cases op with
  | shrinkPageList frame mapcount vmas r =>
    simp only [swapStep] at hStep
    split at hStep
    · cases hStep
    · rename_i hFresh
      cases hStep
      refine h.shrinkPageList (fun he => ?_) hAdmits
      simpa [he] using hFresh
  | tryToUnmap e pteDirty =>
    obtain ⟨p, hPage, hGuard, hStep⟩ := onPage_eq_some hStep
    cases hStep
    simp only [Bool.and_eq_true, Bool.not_eq_true', bne_iff_ne] at hGuard
    refine h.remap hPage (.inl hGuard.2) _
      { p with mapcount := p.mapcount - 1, dirty := p.dirty || pteDirty }
      ⟨rfl, rfl, rfl, rfl, fun hClean => ?_, fun hR => ?_⟩
    · exact ⟨(Bool.or_eq_false_iff.mp hClean).1, rfl⟩
    · exact absurd (hGuard.1.symm.trans hR) Bool.false_ne_true
  | swapWritepage e bio gfpIo =>
    obtain ⟨p, hPage, hGuard, hStep⟩ := onPage_eq_some hStep
    simp only [Bool.and_eq_true, Bool.not_eq_true'] at hGuard
    obtain ⟨⟨hReading, hWb⟩, hDirty⟩ := hGuard
    rcases swapWritepage_cases h hPage hWb hDirty hStep with ⟨rfl, hZero⟩ | rfl | ⟨bv, priv, hEnc, rfl⟩
    · exact h.deleted hPage hWb (.inl ⟨hZero, (h e).not_taken hZero⟩)
    · exact h
    · exact h.submitted hPage hReading hDirty hEnc
  | endSwapBioWrite e uptodate =>
    obtain ⟨p, hPage, -, hStep⟩ := onPage_eq_some hStep
    obtain ⟨b, hBio, hStep⟩ := Option.bind_eq_some_iff.mp hStep
    obtain ⟨l, hLife, rfl⟩ := Option.map_eq_some_iff.mp hStep
    exact h.endSwapBioWrite hPage hBio hLife
  | setPageDirty e data =>
    obtain ⟨p, hPage, hGuard, hStep⟩ := onPage_eq_some hStep
    cases hStep
    simp only [Bool.and_eq_true, Bool.not_eq_true', bne_iff_ne] at hGuard
    exact h.rewrite hPage (.inl hGuard.2) _ { p with dirty := true }
      ⟨rfl, rfl, rfl, rfl, fun hClean => Bool.noConfusion hClean,
        fun hR => absurd (hGuard.1.symm.trans hR) Bool.false_ne_true⟩
  | storePage frame data =>
    cases hStep
    intro e'
    refine (h e').congr rfl rfl (fun f hf => ⟨rfl, update_of_ne ?_ _ _⟩) fun _ hc => hc
    rintro rfl
    exact hAdmits e' hf
  | tryToFreeSwap e gfpIo =>
    obtain ⟨p, hPage, -, hStep⟩ := onPage_eq_some hStep
    cases hStep
    exact h.tryToFreeSwap hPage gfpIo
  | removeMapping e =>
    obtain ⟨p, hPage, hGuard, hStep⟩ := onPage_eq_some hStep
    cases hStep
    simp only [Bool.and_eq_true, Bool.not_eq_true'] at hGuard
    obtain ⟨⟨⟨-, hClean⟩, hWb⟩, -⟩ := hGuard
    rw [put_removeMapping ((h e).page p hPage).2]
    exact h.deleted hPage hWb ((h e).clean hPage hClean hWb)
  | readSwapCacheAsync e frame =>
    simp only [swapStep] at hStep
    split at hStep
    · cases hStep
    · rename_i hGuard
      cases hStep
      simp only [Bool.or_eq_true, decide_eq_true_eq, not_or, Bool.not_eq_true] at hGuard
      exact h.readSwapCacheAsync hGuard.1 hGuard.2 hAdmits
  | endSwapBioRead e uptodate =>
    obtain ⟨p, hPage, hReading, hStep⟩ := onPage_eq_some hStep
    cases hStep
    cases uptodate with
    | true =>
      rw [endSwapBioRead_eq (h e) hPage]
      exact h.readIn hPage hReading _ true
    | false =>
      have hSame := h.readIn hPage hReading (s.priv.mem p.frame) p.uptodate
      rw [SwapSystem.readIn, update_eq_self] at hSame
      exact hSame
  | doSwapPage e =>
    obtain ⟨p, hPage, hGuard, hStep⟩ := onPage_eq_some hStep
    cases hStep
    simp only [Bool.and_eq_true, Bool.not_eq_true', bne_iff_ne] at hGuard
    rw [doSwapPage_eq_remap (h e) hPage]
    exact h.remap hPage (.inr ⟨hGuard.1.2, hGuard.2⟩) _ _
      ⟨rfl, rfl, rfl, rfl, fun hClean => ⟨hClean, rfl⟩, fun _ => rfl⟩
  | reuseSwapPage e =>
    obtain ⟨p, hPage, hGuard, hStep⟩ := onPage_eq_some hStep
    cases hStep
    simp only [Bool.and_eq_true, Bool.not_eq_true', beq_iff_eq] at hGuard
    obtain ⟨⟨⟨-, hWb⟩, -⟩, hSum⟩ := hGuard
    rw [reuseSwapPage_eq_deleted ((h e).page p hPage).2]
    refine h.deleted hPage hWb ?_
    rcases Nat.eq_zero_or_pos (s.slot e).map.count with hZero | hPos
    · exact .inl ⟨hZero, by rw [hZero]; rfl⟩
    · have hOne : (s.slot e).map.count = 1 := by omega
      exact .inr (.inl ⟨hOne, by rw [hOne]; rfl⟩)
  | swapFree e =>
    simp only [swapStep] at hStep
    split at hStep
    · cases hStep
    · rename_i hCount
      cases hStep
      rw [swapFree_eq_recount (h e)]
      refine h.recount hCount _ fun hTaken => ?_
      rw [(h e).taken_one hTaken]
  | swapDuplicate e =>
    simp only [swapStep] at hStep
    split at hStep
    · cases hStep
    · rename_i hGuard
      cases hStep
      simp only [Bool.or_eq_true, decide_eq_true_eq, not_or, Bool.not_eq_true] at hGuard
      have hRe := h.recount hGuard.1 ((s.slot e).map.count + 1) fun hTaken => by
        rw [hGuard.2] at hTaken
        cases hTaken
      rw [← swapDuplicate_eq_recount hGuard.2] at hRe
      exact hRe
  | pageDupRmap e =>
    obtain ⟨p, hPage, hGuard, hStep⟩ := onPage_eq_some hStep
    cases hStep
    exact h.remap hPage (.inl (bne_iff_ne.mp hGuard)) _ { p with mapcount := p.mapcount + 1 }
      ⟨rfl, rfl, rfl, rfl, fun hClean => ⟨hClean, rfl⟩, fun _ => rfl⟩
  | pageRemoveRmap e =>
    obtain ⟨p, hPage, hGuard, hStep⟩ := onPage_eq_some hStep
    cases hStep
    exact h.remap hPage (.inl (bne_iff_ne.mp hGuard)) _ { p with mapcount := p.mapcount - 1 }
      ⟨rfl, rfl, rfl, rfl, fun hClean => ⟨hClean, rfl⟩, fun _ => rfl⟩

/-- What a swap-in reads is what was written, whatever the entry. -/
def AlwaysRestored (dec : Nat → Data → Data) (s : SwapSystem Data) : SwapOp Data → Prop
  | .endSwapBioRead e true => ∀ p, (s.slot e).page = some p → Restored dec s e p
  | _ => True

/-- A page that was read before a fault took the entry is restored, and a fault
only ever maps or takes such a page. -/
def FaultsRestored (dec : Nat → Data → Data) (s : SwapSystem Data) : SwapOp Data → Prop
  | .endSwapBioRead e true => (s.slot e).orphan = false →
      ∀ p, (s.slot e).page = some p → Restored dec s e p
  | .doSwapPage e => (s.slot e).orphan = false
  | .reuseSwapPage e => (s.slot e).orphan = false
  | _ => True

theorem SwapStep.faultsRestored (hDec : ∀ ctx d, dec ctx (enc ctx d) = d) {op : SwapOp Data}
    (h : SwapInv enc s) (hStep : SwapStep enc dec s op t) : FaultsRestored dec s op := by
  obtain ⟨-, hStep⟩ := hStep
  cases op with
  | endSwapBioRead e uptodate =>
    cases uptodate with
    | false => trivial
    | true =>
      intro hOrphan p hPage
      obtain ⟨q, hq, hReading, -⟩ := onPage_eq_some hStep
      cases hPage.symm.trans hq
      exact (h e).restored hDec hPage hReading hOrphan
  | doSwapPage e =>
    obtain ⟨p, hPage, hGuard, -⟩ := onPage_eq_some hStep
    simp only [Bool.and_eq_true, Bool.not_eq_true', bne_iff_ne] at hGuard
    exact (h e).not_orphan hPage (.inr ⟨hGuard.1.2, hGuard.2⟩)
  | reuseSwapPage e =>
    obtain ⟨p, hPage, hGuard, -⟩ := onPage_eq_some hStep
    simp only [Bool.and_eq_true, Bool.not_eq_true', beq_iff_eq] at hGuard
    refine (h e).not_orphan hPage ?_
    by_cases hMapped : p.mapcount = 0
    · exact .inr ⟨by omega, hGuard.1.2⟩
    · exact .inl hMapped
  | _ => trivial

structure FreshSystem (s : SwapSystem Data) : Prop where
  map : ∀ e, (s.slot e).map = .unused
  page : ∀ e, (s.slot e).page = none
  bio : ∀ e, (s.slot e).bio = none
  taken : ∀ e, (s.slot e).taken = false
  tree : ∀ e, s.priv.tree e = none

theorem FreshSystem.inv (h : FreshSystem s) : SwapInv enc s := by
  intro e
  refine ⟨fun p hp => ?_, fun swpd hs => ?_, ?_, fun hUsed => absurd (h.map e) hUsed,
    .free (h.map e) (h.page e) (h.bio e) (h.taken e) (h.tree e)⟩
  · rw [h.page e] at hp
    cases hp
  · rw [h.tree e] at hs
    cases hs
  · rw [h.map e, h.page e]
    rfl

theorem SwapInv.idle (h : SwapInv enc s) {f : Nat} (hf : s.priv.pagePrivate f = 0) :
    s.Idle f := by
  intro e hOwn
  obtain rfl : 0 = e := hf.symm.trans ((h e).owned hOwn)
  rcases hOwn with ⟨p, hPage, -⟩ | ⟨swpd, hTree, -⟩
  · exact (h 0).ne_zero ((h 0).used hPage) rfl
  · rw [h.tree_zero] at hTree
    cases hTree

end Runs

/-- **Private swap, round trip.** In every run from an unused swap device, with
any number of private and other pages that come, go and share swap entries,
each swap-in gives the page the contents it had when `swap_writepage` last
wrote the entry, and decrypts them exactly if they were encrypted, unless the
read began while a fault had the entry taken; and no fault ever maps or takes a
page that was read in that way. -/
theorem swap_restored {enc dec : Nat → Data → Data} (hDec : ∀ ctx d, dec ctx (enc ctx d) = d)
    {s : SwapSystem Data} {tr : Trace (SwapSystem Data) (SwapOp Data)} (hFresh : FreshSystem s)
    (hTr : IsTrace (SwapStep enc dec) s tr) : EachStep (FaultsRestored dec) s tr := by
  have hStep : ∀ s op t, SwapInv enc s → SwapStep enc dec s op t → True →
      FaultsRestored dec s op ∧ SwapInv enc t :=
    fun s op t h hStep _ => ⟨hStep.faultsRestored hDec h, hStep.inv h⟩
  exact eachStep_of_inv hStep hFresh.inv hTr (eachStep_trivial tr)

def bootSystem : SwapSystem Nat where
  priv := {
    tree := fun _ => none
    ctxs := fun ctx => if ctx = 1 then some ⟨1, 0⟩ else none
    pagePrivate := fun _ => 0
    mem := fun frame => frame }
  slot := fun _ => ⟨.unused, none, none, 0, false, none, false, false⟩

theorem bootSystem_fresh : FreshSystem bootSystem :=
  ⟨fun _ => rfl, fun _ => rfl, fun _ => rfl, fun _ => rfl, fun _ => rfl⟩

/-- A page of a process with the context `ctx`, or none, gets swap entry 3. -/
def enterSwap (frame : Nat) (ctx : Option Nat) (scratch : Nat) : SwapOp Nat :=
  .shrinkPageList frame 1 (some [⟨1, ctx⟩])
    { swapEntry := 3, cacheInsert := true, alloc := ⟨some scratch, true, true, true⟩,
      vmSwapFull := false, gfpIo := true }

theorem admits_enterSwap {enc : Nat → Nat → Nat} {s : SwapSystem Nat} (h : SwapInv enc s)
    {frame scratch : Nat} {ctx : Option Nat} (hFrame : s.priv.pagePrivate frame = 0)
    (hScratch : s.priv.pagePrivate scratch = 0) (hNe : scratch ≠ frame)
    (hCtx : ∀ c, ctx = some c → LiveCtx s.priv c) : s.Admits (enterSwap frame ctx scratch) := by
  refine ⟨h.idle hFrame, fun sc hSc => ?_, fun vs hVs v hv c hc => ?_⟩
  · cases hSc
    exact ⟨h.idle hScratch, hNe⟩
  · cases hVs
    cases List.mem_singleton.mp hv
    exact hCtx c hc

theorem isTrace_cons_of_inv {enc dec : Nat → Data → Data} {s t : SwapSystem Data}
    {op : SwapOp Data} {tr : Trace (SwapSystem Data) (SwapOp Data)} (h : SwapInv enc s)
    (hAdmits : SwapInv enc s → s.Admits op) (hStep : swapStep enc dec s op = some t)
    (hRest : SwapInv enc t → IsTrace (SwapStep enc dec) t tr) :
    IsTrace (SwapStep enc dec) s ((op, t) :: tr) := by
  have hFirst : SwapStep enc dec s op t := ⟨hAdmits h, hStep⟩
  exact ⟨hFirst, hRest (hFirst.inv h)⟩

theorem privatePage_restored :
    ∃ tr : Trace (SwapSystem Nat) (SwapOp Nat), tr.map Prod.fst =
        [enterSwap 5 (some 1) 9, .tryToUnmap 3 true, .swapWritepage 3 true true,
          .endSwapBioWrite 3 true, .removeMapping 3, .readSwapCacheAsync 3 7,
          .endSwapBioRead 3 true] ∧
      EachStep (FaultsRestored fun _ d => d - 1000) bootSystem tr := by
  have hTr : IsTrace (SwapStep (fun _ d => d + 1000) fun _ d => d - 1000) bootSystem
      [(enterSwap 5 (some 1) 9, _), (.tryToUnmap 3 true, _), (.swapWritepage 3 true true, _),
        (.endSwapBioWrite 3 true, _), (.removeMapping 3, _), (.readSwapCacheAsync 3 7, _),
        (.endSwapBioRead 3 true, _)] :=
    isTrace_cons_of_inv bootSystem_fresh.inv
      (fun h => admits_enterSwap h rfl rfl (by decide) fun c hc =>
        ⟨⟨1, 0⟩, by cases hc; rfl, by decide⟩) rfl
      fun h => isTrace_cons_of_inv h (fun _ => trivial) rfl
      fun h => isTrace_cons_of_inv h (fun _ => trivial) rfl
      fun h => isTrace_cons_of_inv h (fun _ => trivial) rfl
      fun h => isTrace_cons_of_inv h (fun _ => trivial) rfl
      fun h => isTrace_cons_of_inv h (fun h => h.idle rfl) rfl
      fun h => isTrace_cons_of_inv h (fun _ => trivial) rfl fun _ => trivial
  refine ⟨_, rfl, swap_restored ?_ bootSystem_fresh hTr⟩
  exact fun _ d => Nat.add_sub_cancel d 1000

/-- A page that is not private leaves its contents in the clear under entry 3. The entry goes to
a private page; before that is written out, a write fault takes it back. Readahead comes before
the fault drops the entry, reads what the first page has left, and decrypts it. -/
theorem readahead_garbled :
    ∃ tr : Trace (SwapSystem Nat) (SwapOp Nat), tr.map Prod.fst =
        [enterSwap 6 none 8, .tryToUnmap 3 true, .swapWritepage 3 true true,
          .endSwapBioWrite 3 true, .reuseSwapPage 3, .swapFree 3,
          enterSwap 5 (some 1) 9, .tryToUnmap 3 true, .reuseSwapPage 3,
          .readSwapCacheAsync 3 7, .endSwapBioRead 3 true] ∧
      IsTrace (SwapStep (fun _ d => d + 1000) fun _ d => d - 1000) bootSystem tr ∧
      ¬ EachStep (AlwaysRestored fun _ d => d - 1000) bootSystem tr := by
  have hTr : IsTrace (SwapStep (fun _ d => d + 1000) fun _ d => d - 1000) bootSystem
      [(enterSwap 6 none 8, _), (.tryToUnmap 3 true, _), (.swapWritepage 3 true true, _),
        (.endSwapBioWrite 3 true, _), (.reuseSwapPage 3, _), (.swapFree 3, _),
        (enterSwap 5 (some 1) 9, _), (.tryToUnmap 3 true, _), (.reuseSwapPage 3, _),
        (.readSwapCacheAsync 3 7, _), (.endSwapBioRead 3 true, _)] :=
    isTrace_cons_of_inv bootSystem_fresh.inv
      (fun h => admits_enterSwap h rfl rfl (by decide) fun c hc => by cases hc) rfl
      fun h => isTrace_cons_of_inv h (fun _ => trivial) rfl
      fun h => isTrace_cons_of_inv h (fun _ => trivial) rfl
      fun h => isTrace_cons_of_inv h (fun _ => trivial) rfl
      fun h => isTrace_cons_of_inv h (fun _ => trivial) rfl
      fun h => isTrace_cons_of_inv h (fun _ => trivial) rfl
      fun h => isTrace_cons_of_inv h
        (fun h => admits_enterSwap h rfl rfl (by decide) fun c hc =>
          ⟨⟨1, 0⟩, by cases hc; rfl, by decide⟩) rfl
      fun h => isTrace_cons_of_inv h (fun _ => trivial) rfl
      fun h => isTrace_cons_of_inv h (fun _ => trivial) rfl
      fun h => isTrace_cons_of_inv h (fun h => h.idle rfl) rfl
      fun h => isTrace_cons_of_inv h (fun _ => trivial) rfl fun _ => trivial
  refine ⟨_, rfl, hTr, fun hAll => ?_⟩
  obtain ⟨-, -, -, -, -, -, -, -, -, -, hRead, -⟩ := hAll
  have hWritten := (hRead _ rfl).1
  exact absurd hWritten (by decide)

end Lacuna.Swap
