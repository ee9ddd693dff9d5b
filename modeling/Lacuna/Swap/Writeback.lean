import Lacuna.Swap.Slots

/-!
# Private swap — writing a page out

`swap_writepage` frees the swap entry, gives up, or submits the page
(`swapWritepage_cases`); the page that is submitted is encrypted exactly if its
descriptor is there (`SlotInv.encrypt`). When the write ends, the device holds
what was submitted, or the page is dirty (`SwapInv.endSwapBioWrite`).
-/

namespace Lacuna.Swap

open Function

variable {Data : Type}

/-! ## Writing out -/

section Write

variable {enc : Nat → Data → Data} {s : SwapSystem Data} {e : Nat} {p : CachedPage}

variable {l : Life Data}

theorem SlotInv.taken_one (h : SlotInv enc s e) (hTrue : (s.slot e).taken = true) :
    (s.slot e).map.count = 1 := by
  cases h.phase with
  | taken hMap => rw [hMap]
  | free _ _ _ hTaken => rw [hTrue] at hTaken; cases hTaken
  | stored _ _ _ hTaken => rw [hTrue] at hTaken; cases hTaken
  | cached _ _ _ _ hTaken => rw [hTrue] at hTaken; cases hTaken
  | writing _ _ _ _ _ _ hTaken => rw [hTrue] at hTaken; cases hTaken
  | orphan _ _ _ _ _ _ _ hCount =>
    rcases hCount with ⟨-, hTaken⟩ | ⟨hOne, -⟩
    · rw [hTrue] at hTaken
      cases hTaken
    · exact hOne

theorem SlotInv.not_taken (h : SlotInv enc s e) (hZero : (s.slot e).map.count = 0) :
    (s.slot e).taken = false := by
  by_contra hTaken
  have hOne := h.taken_one (Bool.not_eq_false _ ▸ hTaken)
  omega

theorem SlotInv.of_unused (h : SlotInv enc s e) (hUnused : (s.slot e).map = .unused) :
    (s.slot e).page = none ∧ (s.slot e).bio = none ∧ (s.slot e).taken = false ∧
      s.priv.tree e = none := by
  cases h.phase with
  | free _ hPage hBio hTaken hTree => exact ⟨hPage, hBio, hTaken, hTree⟩
  | taken hMap => rw [hUnused] at hMap; cases hMap
  | stored hUsed => exact absurd hUnused hUsed
  | cached _ hSome => exact absurd hUnused (h.used hSome)
  | writing _ _ hSome => exact absurd hUnused (h.used hSome)
  | orphan _ hSome => exact absurd hUnused (h.used hSome)

theorem SwapInv.tree_zero (h : SwapInv enc s) : s.priv.tree 0 = none := by
  have hUnused : (s.slot 0).map = .unused := by
    by_contra hUsed
    exact (h 0).ne_zero hUsed rfl
  exact ((h 0).of_unused hUnused).2.2.2

theorem tryToFreeSwap_life (hPriv : s.priv.pagePrivate p.frame = e) {q : AnonPage}
    (hFrame : q.frame = p.frame) (hCache : q.swapCache = true) (hWb : q.writeback = false)
    (gfpIo : Bool) : tryToFreeSwap (s.life e) q gfpIo =
      if (s.slot e).map.count != 0 || !gfpIo then (false, s.life e)
      else (true, deleteFromSwapCache (s.life e) { q with dirty := true }) := by
  simp only [tryToFreeSwap, hCache, hWb, Bool.not_true, Bool.false_or, pageSwapcount, hFrame,
    SwapSystem.life, hPriv]

/-- **Freeing the swap entry** of a page nobody has swapped out. -/
theorem SwapInv.tryToFreeSwap (h : SwapInv enc s) (hPage : (s.slot e).page = some p)
    (gfpIo : Bool) : SwapInv enc (s.put e (tryToFreeSwap (s.life e) p.toAnonPage gfpIo).2) := by
  obtain ⟨hCache, hPriv⟩ := (h e).page p hPage
  have hLife : s.put e (s.life e) = s := s.put_life e fun q hq => ((h e).page q hq).1
  cases hWb : p.writeback with
  | true =>
    have hKeep : Swap.tryToFreeSwap (s.life e) p.toAnonPage gfpIo = (false, s.life e) := by
      simp only [Swap.tryToFreeSwap, hWb, Bool.or_true, Bool.true_or, if_true]
    rw [hKeep, hLife]
    exact h
  | false =>
    rw [tryToFreeSwap_life hPriv rfl hCache hWb]
    split
    · rw [hLife]
      exact h
    · rename_i hFreed
      have hZero : (s.slot e).map.count = 0 := by
        simp only [Bool.or_eq_true, not_or, bne_iff_ne, ne_eq, not_not] at hFreed
        exact hFreed.1
      rw [put_deleteFromSwapCache hPriv (q := { p.toAnonPage with dirty := true }) rfl]
      exact h.deleted hPage hWb (.inl ⟨hZero, (h e).not_taken hZero⟩)

/-- What `priv_encrypt_page` makes of a page in the swap cache: its ciphertext in the scratch
page, if the descriptor is there for it, or else the page itself, and the descriptor is gone. -/
theorem SlotInv.encrypt (h : SlotInv enc s e) (hPage : (s.slot e).page = some p) :
    (∃ swpd sc, s.priv.tree e = some swpd ∧ swpd.page = some p.frame ∧ swpd.scratch = some sc ∧
      privEncryptPage enc s.priv p.frame = some (sc, setSwappedBit
        { s.priv with
          mem := update s.priv.mem sc (enc swpd.ctx (s.priv.mem p.frame)) } e 1)) ∨
    ∃ st, privEncryptPage enc s.priv p.frame = some (p.frame, st) ∧ st.tree e = none ∧
      Touches s.priv st e fun _ => False := by
  have hPriv := (h.page p hPage).2
  have he : e ≠ 0 := h.ne_zero (h.used hPage)
  have hGone : (deleteFromPriv (setSwappedBit s.priv e 0) e).tree e = none := by
    rw [tree_deleteFromPriv_setSwappedBit _ he, update_self]
  cases hTree : s.priv.tree e with
  | none =>
    refine .inr ⟨s.priv, ?_, hTree, Touches.refl ..⟩
    simp only [privEncryptPage, hPriv, findPrivPage, hTree]
  | some swpd =>
    by_cases hFrame : swpd.page = some p.frame
    · cases hSc : swpd.scratch with
      | none =>
        refine .inr ⟨_, ?_, hGone, Touches.freeEntry ..⟩
        simp only [privEncryptPage, hPriv, findPrivPage, hTree, hFrame, ne_eq, not_true_eq_false,
          if_false, hSc]
      | some sc =>
        have hScPriv := ((h.swpd swpd hTree).scratch sc hSc).1
        refine .inl ⟨swpd, sc, rfl, hFrame, hSc, ?_⟩
        simp only [privEncryptPage, hPriv, findPrivPage, hTree, hFrame, ne_eq, not_true_eq_false,
          if_false, hSc, hScPriv]
    · refine .inr ⟨_, ?_, hGone, Touches.freeEntry ..⟩
      simp only [privEncryptPage, hPriv, findPrivPage, hTree, hFrame, ne_eq, not_false_eq_true,
        if_true]

/-- `p` is on its way to the device by way of `bvPage`. -/
def SwapSystem.submitted (s : SwapSystem Data) (e : Nat) (p : CachedPage) (bvPage : Nat)
    (priv : Privos Data) : SwapSystem Data :=
  SwapSystem.modify { s with priv := priv } e fun slot =>
    { slot with
      page := some { p with dirty := false, writeback := true }
      bio := some ⟨bvPage, e⟩
      written := some (s.priv.mem p.frame)
      encrypted := bvPage != p.frame }

theorem setSwappedBit_of_none {st : Privos Data} {v : Nat} (h : st.tree e = none) :
    setSwappedBit st e v = st := by
  rw [setSwappedBit, findPrivPage, h, Option.map_none, ← h, update_eq_self]

theorem SwapSystem.putWritten_none (h : l.bio = none) :
    s.putWritten e p l = s.put e l := by
  rw [SwapSystem.putWritten, h]

theorem SwapSystem.putWritten_setPriv (priv : Privos Data) (h : l.bio = none) :
    s.putWritten e p { l with priv := priv } = { s.put e l with priv := priv } :=
  SwapSystem.putWritten_none h

theorem SwapSystem.putWritten_some (hPage : (s.slot e).page = some p)
    {q : AnonPage} (hq : q.swapCache = true) {b : Bio} :
    s.putWritten e p { l with page := some q, bio := some b } =
      SwapSystem.modify { s with priv := l.priv } e fun slot =>
        { slot with
          map := l.swapMap e
          page := some { p with toAnonPage := q }
          bio := some b
          disk := l.disk e
          written := some (s.priv.mem p.frame)
          encrypted := b.bvPage != p.frame } := by
  simp only [SwapSystem.putWritten, SwapSystem.put, SwapSystem.modify, Option.filter, hq, if_true,
    Option.bind_some, hPage, Option.map_some, update_self, update_idem]

/-- The swapped bit that `swap_writepage` then clears is that of no entry. -/
theorem swapWritepage_unneeded (h : SwapInv enc s) (hPage : (s.slot e).page = some p)
    (hWb : p.writeback = false) {bio gfpIo : Bool}
    (hNeeded : ((s.slot e).map.count != 0 || !gfpIo) = false) :
    s.swapWritepage enc e p bio gfpIo = some (s.deleted e p (s.slot e).taken) := by
  obtain ⟨hCache, hPriv⟩ := (h e).page p hPage
  have he : e ≠ 0 := (h e).ne_zero ((h e).used hPage)
  have hDel := put_deleteFromSwapCache hPriv (q := { p.toAnonPage with dirty := true }) rfl
  have hTouch := Touches.drop (unlinkPriv s.priv p.frame) e ⟨(s.slot e).map.count, false⟩
    (F := fun _ => False)
  have hZero : (s.deleted e p (s.slot e).taken).priv.pagePrivate p.frame = 0 :=
    (hTouch.frame _ not_false).1.trans (update_self ..)
  have hNone : (s.deleted e p (s.slot e).taken).priv.tree 0 = none :=
    (hTouch.tree 0 he.symm).trans h.tree_zero
  have hFree := tryToFreeSwap_life hPriv (q := { p.toAnonPage with dirty := false }) rfl hCache hWb
    gfpIo
  rw [hNeeded] at hFree
  simp only [Bool.false_eq_true, if_false] at hFree
  have hBio : (deleteFromSwapCache (s.life e) { p.toAnonPage with dirty := true }).bio = none :=
    (h e).quiet hPage hWb
  rw [SwapSystem.swapWritepage, Swap.swapWritepage, hFree]
  refine congrArg some ((SwapSystem.putWritten_setPriv _ hBio).trans ?_)
  have hPrivDel : (deleteFromSwapCache (s.life e) { p.toAnonPage with dirty := true }).priv =
      (s.deleted e p (s.slot e).taken).priv := congrArg SwapSystem.priv hDel
  rw [hDel, hPrivDel, hZero, setSwappedBit_of_none hNone]

theorem swapWritepage_cases (h : SwapInv enc s) (hPage : (s.slot e).page = some p)
    (hWb : p.writeback = false) (hDirty : p.dirty = true) {bio gfpIo : Bool}
    {t : SwapSystem Data} (hStep : s.swapWritepage enc e p bio gfpIo = some t) :
    (t = s.deleted e p (s.slot e).taken ∧ (s.slot e).map.count = 0) ∨ t = s ∨
      ∃ bvPage priv, privEncryptPage enc s.priv p.frame = some (bvPage, priv) ∧
        t = s.submitted e p bvPage priv := by
  obtain ⟨hCache, hPriv⟩ := (h e).page p hPage
  have hBio : (s.life e).bio = none := (h e).quiet hPage hWb
  cases hNeeded : (s.slot e).map.count != 0 || !gfpIo with
  | false =>
    rw [swapWritepage_unneeded h hPage hWb hNeeded] at hStep
    cases hStep
    exact .inl ⟨rfl, by simpa using (Bool.or_eq_false_iff.mp hNeeded).1⟩
  | true =>
    have hKeep := tryToFreeSwap_life hPriv (q := { p.toAnonPage with dirty := false }) rfl hCache
      hWb gfpIo
    rw [hNeeded, if_pos rfl] at hKeep
    rw [SwapSystem.swapWritepage, Swap.swapWritepage, hKeep] at hStep
    cases bio with
    | false =>
      -- no bio: the page is dirty again, as it was before `pageout`
      have hSame : { s.life e with page := some { p.toAnonPage with dirty := true } } =
          s.life e := by
        rw [← hDirty]
        simp only [SwapSystem.life, hPage, Option.map_some]
      have hEq : t = s.put e { s.life e with page := some { p.toAnonPage with dirty := true } } := by
        exact (Option.some.inj hStep).symm.trans (SwapSystem.putWritten_none hBio)
      rw [hSame, s.put_life e fun q hq => ((h e).page q hq).1] at hEq
      exact .inr (.inl hEq)
    | true =>
      cases hEnc : privEncryptPage enc s.priv p.frame with
      | none =>
        simp only [if_true, SwapSystem.life, hEnc] at hStep
        cases hStep
      | some r =>
        obtain ⟨bvPage, priv⟩ := r
        refine .inr (.inr ⟨bvPage, priv, rfl, ?_⟩)
        have hEq : t = s.putWritten e p { s.life e with
            priv := priv
            page := some { p.toAnonPage with dirty := false, writeback := true }
            bio := some ⟨bvPage, s.priv.pagePrivate p.frame⟩ } := by
          have hLife : privEncryptPage enc (s.life e).priv p.frame = some (bvPage, priv) := hEnc
          simp only [if_true, hLife] at hStep
          exact (Option.some.inj hStep).symm
        have hOut := SwapSystem.putWritten_some (l := { s.life e with priv := priv }) hPage
          (q := { p.toAnonPage with dirty := false, writeback := true }) hCache
          (b := ⟨bvPage, s.priv.pagePrivate p.frame⟩)
        rw [hPriv] at hEq hOut
        exact hEq.trans hOut

/-- **Writing out**: what goes to the device is noted, and the tree says in
which form. -/
theorem SwapInv.submitted (h : SwapInv enc s) (hPage : (s.slot e).page = some p)
    (hReading : p.reading = false) (hDirty : p.dirty = true) {bvPage : Nat} {priv : Privos Data}
    (hEnc : privEncryptPage enc s.priv p.frame = some (bvPage, priv)) :
    SwapInv enc (s.submitted e p bvPage priv) := by
  obtain ⟨hCache, hPriv⟩ := (h e).page p hPage
  have he : e ≠ 0 := (h e).ne_zero ((h e).used hPage)
  have hSelf : (s.submitted e p bvPage priv).slot e =
      { s.slot e with
        page := some { p with dirty := false, writeback := true }
        bio := some ⟨bvPage, e⟩
        written := some (s.priv.mem p.frame)
        encrypted := bvPage != p.frame } :=
    update_self ..
  have hUsed : (s.slot e).taken = false ∧ (s.slot e).orphan = false := by
    cases (h e).pagePhase hPage with
    | cached _ _ hTaken hOrphan => exact ⟨hTaken, hOrphan⟩
    | writing _ _ _ _ hTaken hOrphan => exact ⟨hTaken, hOrphan⟩
    | orphan _ _ _ hClean => rw [hDirty] at hClean; cases hClean
  -- what remains to show, given the form in which the page goes out
  have hFinish : ∀ {F : Nat → Prop}, Touches s.priv priv e F → (∀ f, F f → s.Owns e f) →
      priv.pagePrivate = s.priv.pagePrivate →
      (∀ swpd, priv.tree e = some swpd → ∃ old, s.priv.tree e = some old ∧ swpd.ctx = old.ctx ∧
        swpd.scratch = old.scratch) →
      Outgoing enc (s.submitted e p bvPage priv) e { p with dirty := false, writeback := true }
        bvPage → SwapInv enc (s.submitted e p bvPage priv) := by
    intro F hTouch hF hPP hTree hOut
    refine h.of_slot (fun e' hNe => update_of_ne hNe _ _) hTouch (fun f hf => .inl (hF f hf)) ?_
    refine (h e).replacePage { p with dirty := false, writeback := true } hPage (by rw [hSelf])
      (by rw [hSelf]) rfl rfl hPP hTouch.live hTree
      (.writing ⟨bvPage, e⟩ rfl ?_ rfl ?_ ?_ hReading hOut)
    · rw [hSelf]
    · rw [hSelf]; exact hUsed.1
    · rw [hSelf]; exact hUsed.2
  rcases (h e).encrypt hPage with ⟨swpd, sc, hTree, hFrame, hSc, hEq⟩ | ⟨st, hEq, hNone, hTouch⟩
  · rw [hEq] at hEnc
    obtain ⟨rfl, rfl⟩ := Prod.mk.inj (Option.some.inj hEnc)
    have hApart : sc ≠ p.frame := (((h e).swpd swpd hTree).scratch sc hSc).2 p hPage
    have hNew : update s.priv.tree e
        ((s.priv.tree e).map fun swpd => { swpd with flags := 1 }) e =
        some { swpd with flags := 1 } := by
      rw [update_self, hTree, Option.map_some]
    refine hFinish ((Touches.setMem s.priv e sc _).trans (Touches.setTree _ e _))
      (fun f hf => .inr ⟨swpd, hTree, hf ▸ hSc⟩) rfl (fun new hNewTree => ?_)
      (.ciphertext { swpd with flags := 1 } (s.priv.mem p.frame) hNew hFrame hSc Nat.one_ne_zero
        ?_ (update_self ..) ?_)
    · obtain rfl := Option.some.inj (hNew.symm.trans hNewTree)
      exact ⟨swpd, hTree, rfl, rfl⟩
    · rw [hSelf]
    · rw [hSelf]
      exact bne_iff_ne.mpr hApart
  · rw [hEq] at hEnc
    obtain ⟨rfl, rfl⟩ := Prod.mk.inj (Option.some.inj hEnc)
    refine hFinish hTouch (fun f hf => hf.elim) (funext fun f => (hTouch.frame f not_false).1)
      (fun new hNewTree => ?_) (.plain hNone rfl ?_ fun _ => ?_)
    · rw [hNone] at hNewTree
      cases hNewTree
    · rw [hSelf]
      exact bne_self_eq_false p.frame
    · rw [hSelf]
      exact congrArg some (hTouch.frame _ not_false).2.symm

end Write

/-! ## The end of a write -/

section Complete

variable {enc : Nat → Data → Data} {s : SwapSystem Data} {e : Nat} {p : CachedPage} {b : Bio}

variable {l : Life Data}

def setSwpd (st : Privos Data) (e : Nat) (v : Option PrivSwappedPage) : Privos Data :=
  { st with tree := Function.update st.tree e v }

def SwapSystem.completed (s : SwapSystem Data) (e : Nat) (p : CachedPage) (b : Bio)
    (uptodate : Bool) (v : Option PrivSwappedPage) : SwapSystem Data :=
  SwapSystem.modify { s with priv := setSwpd s.priv e v } e fun slot =>
    { slot with
      page := some { p with dirty := p.dirty || !uptodate, writeback := false }
      bio := none
      disk := if uptodate then s.priv.mem b.bvPage else slot.disk }

theorem SwapInv.completed (h : SwapInv enc s) (hPage : (s.slot e).page = some p)
    (hTaken : (s.slot e).taken = false) (hOrphan : (s.slot e).orphan = false)
    (hReading : p.reading = false) {uptodate : Bool} {v : Option PrivSwappedPage}
    (hSwpd : ∀ swpd, v = some swpd → swpd.scratch = none ∧ LiveCtx s.priv swpd.ctx)
    (hStored : p.dirty = false → ∃ d, (s.slot e).written = some d ∧
      s.priv.mem b.bvPage = storedAs enc v d ∧ (s.slot e).encrypted = v.isSome) :
    SwapInv enc (s.completed e p b uptodate v) := by
  have hSelf : (s.completed e p b uptodate v).slot e =
      { s.slot e with
        page := some { p with dirty := p.dirty || !uptodate, writeback := false }
        bio := none
        disk := if uptodate then s.priv.mem b.bvPage else (s.slot e).disk } :=
    update_self ..
  have hTree : (s.completed e p b uptodate v).priv.tree e = v := update_self ..
  refine h.of_slot (fun e' hNe => update_of_ne hNe _ _) (Touches.setTree s.priv e v)
    (F := fun _ => False) (fun f hf => hf.elim) ⟨fun q hq => ?_, fun swpd hv => ?_, ?_,
      fun _ => (h e).ne_zero ((h e).used hPage),
      .cached { p with dirty := p.dirty || !uptodate, writeback := false } ?_ rfl ?_ ?_ ?_
        (fun hR => ?_) fun hClean => ?_⟩
  · rw [hSelf] at hq
    cases hq
    exact (h e).page p hPage
  · rw [hTree] at hv
    obtain ⟨hSc, hLive⟩ := hSwpd swpd hv
    refine ⟨hLive, fun sc hsc => ?_⟩
    rw [hSc] at hsc
    cases hsc
  · rw [hSelf]
    exact (h e).hasCache.trans (by rw [hPage]; rfl)
  · rw [hSelf]
  · rw [hSelf]
  · rw [hSelf]; exact hTaken
  · rw [hSelf]; exact hOrphan
  · exact absurd (hReading.symm.trans hR) Bool.false_ne_true
  · obtain ⟨hOld, hUp⟩ := Bool.or_eq_false_iff.mp hClean
    obtain ⟨d, hWritten, hMem, hEnc⟩ := hStored hOld
    have hOk : uptodate = true := by simpa using hUp
    rw [Stored, hSelf, hTree]
    exact ⟨d, hWritten, by rw [hOk]; exact hMem, hEnc⟩

theorem deleteScratchPage_flagged {st : Privos Data} {swpd : PrivSwappedPage} {sc : Nat}
    (he : e ≠ 0) (hTree : st.tree e = some swpd) (hFlags : swpd.flags ≠ 0)
    (hSc : swpd.scratch = some sc) : deleteScratchPage st e =
      setSwpd st e (some { swpd with scratch := none, page := none }) := by
  simp only [deleteScratchPage, he, ne_eq, not_false_eq_true, if_true, findPrivPage, hTree, hFlags,
    hSc, Option.isSome_some, and_self, setSwpd]

/-- What `end_swap_bio_write` leaves of the page's life, `priv` of the tree. -/
def Life.completed (l : Life Data) (p : AnonPage) (b : Bio) (uptodate : Bool)
    (priv : Privos Data) : Life Data :=
  { l with
    priv := priv
    page := some { p with dirty := p.dirty || !uptodate, writeback := false }
    bio := none
    disk := if uptodate then Function.update l.disk b.sector (l.priv.mem b.bvPage) else l.disk
    tracked := false }

theorem endSwapBioWrite_tracked {q : AnonPage} {swpd : PrivSwappedPage}
    (hFind : l.priv.tree (l.priv.pagePrivate b.bvPage) = some swpd)
    (hFrame : swpd.page = some q.frame) (uptodate : Bool) :
    endSwapBioWrite l q b uptodate = some (l.completed q b uptodate
      (deleteScratchPage l.priv (l.priv.pagePrivate q.frame))) := by
  simp only [endSwapBioWrite, findPrivPage, hFind, hFrame, Option.map_some, Option.getD_some,
    if_true, Life.completed]

theorem endSwapBioWrite_untracked {q : AnonPage}
    (hFind : l.priv.tree (l.priv.pagePrivate b.bvPage) = none) (hFrame : b.bvPage = q.frame)
    (uptodate : Bool) :
    endSwapBioWrite l q b uptodate = some (l.completed q b uptodate l.priv) := by
  rw [hFrame] at hFind
  simp only [endSwapBioWrite, findPrivPage, hFrame, hFind, if_true, Life.completed]

theorem put_completed (hPage : (s.slot e).page = some p) (hCache : p.swapCache = true)
    (hSector : b.sector = e) (uptodate : Bool) (v : Option PrivSwappedPage) :
    s.put e ((s.life e).completed p.toAnonPage b uptodate (setSwpd s.priv e v)) =
      s.completed e p b uptodate v := by
  cases uptodate <;>
    simp only [Life.completed, SwapSystem.life, SwapSystem.put, SwapSystem.completed,
      SwapSystem.modify, Option.filter, hCache, if_true, Option.bind_some, hPage, Option.map_some,
      hSector, update_self, Bool.false_eq_true, if_false]

/-- **The end of a write**: what was submitted is on the device, or the page is dirty. -/
theorem SwapInv.endSwapBioWrite (h : SwapInv enc s) (hPage : (s.slot e).page = some p)
    (hBio : (s.slot e).bio = some b) {uptodate : Bool}
    (hStep : endSwapBioWrite (s.life e) p.toAnonPage b uptodate = some l) :
    SwapInv enc (s.put e l) := by
  obtain ⟨hCache, hPriv⟩ := (h e).page p hPage
  have he : e ≠ 0 := (h e).ne_zero ((h e).used hPage)
  cases (h e).pagePhase hPage with
  | cached _ hNone => rw [hBio] at hNone; cases hNone
  | orphan _ hNone => rw [hBio] at hNone; cases hNone
  | writing b' hWb hb hSector hTaken hOrphan hReading hOut =>
    rw [hBio] at hb
    cases hb
    cases hOut with
    | ciphertext swpd d hTree hFrame hSc hFlags hWritten hMem hEnc =>
      have hScPriv := (((h e).swpd swpd hTree).scratch _ hSc).1
      have hFind : (s.life e).priv.tree ((s.life e).priv.pagePrivate b.bvPage) = some swpd := by
        rw [← hTree, ← hScPriv]
        rfl
      have hGone : deleteScratchPage (s.life e).priv ((s.life e).priv.pagePrivate p.frame) =
          setSwpd s.priv e (some { swpd with scratch := none, page := none }) := by
        rw [← deleteScratchPage_flagged he hTree hFlags hSc, ← hPriv]
        rfl
      rw [endSwapBioWrite_tracked hFind hFrame, hGone] at hStep
      rw [← Option.some.inj hStep, put_completed hPage hCache hSector]
      refine h.completed hPage hTaken hOrphan hReading (fun swpd' hv => ?_)
        fun _ => ⟨d, hWritten, hMem, hEnc⟩
      cases hv
      exact ⟨rfl, ((h e).swpd swpd hTree).live⟩
    | plain hTree hFrame hEnc hWritten =>
      have hFind : (s.life e).priv.tree ((s.life e).priv.pagePrivate b.bvPage) = none := by
        rw [← hTree, hFrame, ← hPriv]
        rfl
      have hSame : (s.life e).priv = setSwpd s.priv e none := by
        rw [setSwpd, ← hTree, update_eq_self]
        rfl
      rw [endSwapBioWrite_untracked hFind hFrame, hSame] at hStep
      rw [← Option.some.inj hStep, put_completed hPage hCache hSector]
      refine h.completed hPage hTaken hOrphan hReading (fun swpd' hv => by cases hv)
        fun hClean => ⟨_, hWritten hClean, ?_, hEnc⟩
      rw [hFrame]
      rfl

end Complete

end Lacuna.Swap
