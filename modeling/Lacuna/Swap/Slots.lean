import Lacuna.Swap.System

/-!
# Private swap — the phases of a swap entry

Nothing on the swap device says whether a slot holds ciphertext: a page that is
read in is decrypted exactly if the tree has a descriptor for its entry. Each
entry is in one of the phases of `SlotPhase`; on the device the contents are
encrypted exactly if there is a descriptor (`Stored`). A step changes one entry, and
`SwapInv.of_slot` reduces it to that entry.
-/

namespace Lacuna.Swap

open Function

variable {Data : Type}

variable {enc : Nat → Data → Data} {s : SwapSystem Data} {e : Nat} {p : CachedPage}

/-! ## What a change of the tree touches -/

/-- `st'` differs from `st` in the descriptor of `e` and the frames `F` only, and every context
is still alive. -/
structure Touches (st st' : Privos Data) (e : Nat) (F : Nat → Prop) : Prop where
  tree : ∀ e', e' ≠ e → st'.tree e' = st.tree e'
  frame : ∀ f, ¬ F f → st'.pagePrivate f = st.pagePrivate f ∧ st'.mem f = st.mem f
  live : ∀ ctx, LiveCtx st ctx → LiveCtx st' ctx

section Touches

variable {st st' st'' : Privos Data} {e : Nat} {F G : Nat → Prop}

theorem Touches.refl (st : Privos Data) (e : Nat) (F : Nat → Prop) : Touches st st e F :=
  ⟨fun _ _ => rfl, fun _ _ => ⟨rfl, rfl⟩, fun _ h => h⟩

theorem Touches.trans (h : Touches st st' e F) (h' : Touches st' st'' e F) :
    Touches st st'' e F where
  tree e' hNe := (h'.tree e' hNe).trans (h.tree e' hNe)
  frame f hf := ⟨(h'.frame f hf).1.trans (h.frame f hf).1, (h'.frame f hf).2.trans (h.frame f hf).2⟩
  live ctx hc := h'.live ctx (h.live ctx hc)

theorem Touches.mono (h : Touches st st' e F) (hFG : ∀ f, F f → G f) : Touches st st' e G :=
  ⟨h.tree, fun f hf => h.frame f fun hF => hf (hFG f hF), h.live⟩

theorem Touches.setTree (st : Privos Data) (e : Nat) (v : Option PrivSwappedPage) :
    Touches st { st with tree := update st.tree e v } e F :=
  ⟨fun _ hNe => update_of_ne hNe _ _, fun _ _ => ⟨rfl, rfl⟩, fun _ h => h⟩

theorem Touches.setPrivate (st : Privos Data) (e f v : Nat) :
    Touches st { st with pagePrivate := update st.pagePrivate f v } e (· = f) :=
  ⟨fun _ _ => rfl, fun _ hNe => ⟨update_of_ne hNe _ _, rfl⟩, fun _ h => h⟩

theorem Touches.setMem (st : Privos Data) (e f : Nat) (d : Data) :
    Touches st { st with mem := update st.mem f d } e (· = f) :=
  ⟨fun _ _ => rfl, fun _ hNe => ⟨rfl, update_of_ne hNe _ _⟩, fun _ h => h⟩

theorem LiveCtx.entryGet (ctx : Nat) {c : Nat} (h : LiveCtx st c) :
    LiveCtx (privCtxEntryGet st ctx) c := by
  obtain ⟨k, hk, hMap⟩ := h
  by_cases hc : c = ctx
  · subst hc
    exact ⟨{ k with pagecount := k.pagecount + 1 }, by simp [privCtxEntryGet, hk], hMap⟩
  · exact ⟨k, (update_of_ne hc _ _).trans hk, hMap⟩

theorem LiveCtx.entryPut (ctx : Nat) {c : Nat} (h : LiveCtx st c) :
    LiveCtx (privCtxEntryPut st ctx) c := by
  obtain ⟨k, hk, hMap⟩ := h
  by_cases hc : c = ctx
  · subst hc
    exact ⟨{ k with pagecount := k.pagecount - 1 }, by simp [privCtxEntryPut, hk, hMap], hMap⟩
  · exact ⟨k, (update_of_ne hc _ _).trans hk, hMap⟩

theorem Touches.entryGet (st : Privos Data) (e ctx : Nat) :
    Touches st (privCtxEntryGet st ctx) e F :=
  ⟨fun _ _ => rfl, fun _ _ => ⟨rfl, rfl⟩, fun _ h => h.entryGet ctx⟩

theorem Touches.freePage (st : Privos Data) (e : Nat) (swpd : PrivSwappedPage) :
    Touches st (freePrivPage st swpd) e F :=
  ⟨fun _ _ => rfl, fun _ _ => ⟨rfl, rfl⟩, fun _ h => h.entryPut swpd.ctx⟩

theorem Touches.deletePriv (st : Privos Data) (e : Nat) :
    Touches st (deleteFromPriv st e) e F := by
  unfold deleteFromPriv
  split
  · split
    · exact (Touches.setTree st e none).trans (Touches.freePage _ _ _)
    · exact Touches.refl st e F
  · exact Touches.refl st e F

theorem Touches.freeEntry (st : Privos Data) (e : Nat) :
    Touches st (deleteFromPriv (setSwappedBit st e 0) e) e F :=
  (Touches.setTree st e _).trans (Touches.deletePriv _ e)

end Touches

/-! ## The phases of an entry -/

/-- What the device holds for the contents `d`, given the descriptor. -/
def storedAs (enc : Nat → Data → Data) (swpd : Option PrivSwappedPage) (d : Data) : Data :=
  match swpd with
  | some swpd => enc swpd.ctx d
  | none => d

/-- The device holds what was last written, encrypted exactly if there is a
descriptor. -/
def Stored (enc : Nat → Data → Data) (s : SwapSystem Data) (e : Nat) : Prop :=
  ∃ d, (s.slot e).written = some d ∧ (s.slot e).disk = storedAs enc (s.priv.tree e) d ∧
    (s.slot e).encrypted = (s.priv.tree e).isSome

/-- The page `frame` is on the way to the device: through the scratch page
`bvPage`, or itself. -/
inductive Outgoing (enc : Nat → Data → Data) (s : SwapSystem Data) (e : Nat) (p : CachedPage)
    (bvPage : Nat) : Prop
  | ciphertext (swpd : PrivSwappedPage) (d : Data) (hTree : s.priv.tree e = some swpd)
      (hFrame : swpd.page = some p.frame) (hScratch : swpd.scratch = some bvPage)
      (hFlags : swpd.flags ≠ 0) (hWritten : (s.slot e).written = some d)
      (hMem : s.priv.mem bvPage = enc swpd.ctx d) (hEnc : (s.slot e).encrypted = true)
  | plain (hTree : s.priv.tree e = none) (hFrame : bvPage = p.frame)
      (hEnc : (s.slot e).encrypted = false)
      (hWritten : p.dirty = false → (s.slot e).written = some (s.priv.mem p.frame))

inductive SlotPhase (enc : Nat → Data → Data) (s : SwapSystem Data) (e : Nat) : Prop
  /-- not in use -/
  | free (hMap : (s.slot e).map = .unused) (hPage : (s.slot e).page = none)
      (hBio : (s.slot e).bio = none) (hTaken : (s.slot e).taken = false)
      (hTree : s.priv.tree e = none)
  /-- about to be dropped by a fault that has taken its page -/
  | taken (hMap : (s.slot e).map = ⟨1, false⟩) (hPage : (s.slot e).page = none)
      (hBio : (s.slot e).bio = none) (hTaken : (s.slot e).taken = true)
  /-- on the device only -/
  | stored (hMap : (s.slot e).map ≠ .unused) (hPage : (s.slot e).page = none)
      (hBio : (s.slot e).bio = none) (hTaken : (s.slot e).taken = false)
      (hStored : Stored enc s e)
  /-- in the swap cache, also on the device unless dirty -/
  | cached (p : CachedPage) (hPage : (s.slot e).page = some p) (hWb : p.writeback = false)
      (hBio : (s.slot e).bio = none) (hTaken : (s.slot e).taken = false)
      (hOrphan : (s.slot e).orphan = false) (hReading : p.reading = true → p.dirty = false)
      (hStored : p.dirty = false → Stored enc s e)
  /-- in the swap cache and being written -/
  | writing (p : CachedPage) (b : Bio) (hPage : (s.slot e).page = some p)
      (hWb : p.writeback = true) (hBio : (s.slot e).bio = some b) (hSector : b.sector = e)
      (hTaken : (s.slot e).taken = false) (hOrphan : (s.slot e).orphan = false)
      (hReading : p.reading = false) (hOut : Outgoing enc s e p b.bvPage)
  /-- in the swap cache, but read while the entry was taken -/
  | orphan (p : CachedPage) (hPage : (s.slot e).page = some p) (hWb : p.writeback = false)
      (hBio : (s.slot e).bio = none) (hOrphan : (s.slot e).orphan = true)
      (hDirty : p.dirty = false) (hMapcount : p.mapcount = 0)
      (hCount : (s.slot e).map.count = 0 ∧ (s.slot e).taken = false ∨
        (s.slot e).map.count = 1 ∧ (s.slot e).taken = true)

/-- A descriptor's context is alive, and its scratch page is its own. -/
structure SwpdInv (s : SwapSystem Data) (e : Nat) (swpd : PrivSwappedPage) : Prop where
  live : LiveCtx s.priv swpd.ctx
  scratch : ∀ sc, swpd.scratch = some sc →
    s.priv.pagePrivate sc = e ∧ ∀ p, (s.slot e).page = some p → sc ≠ p.frame

structure SlotInv (enc : Nat → Data → Data) (s : SwapSystem Data) (e : Nat) : Prop where
  page : ∀ p, (s.slot e).page = some p → p.swapCache = true ∧ s.priv.pagePrivate p.frame = e
  swpd : ∀ swpd, s.priv.tree e = some swpd → SwpdInv s e swpd
  hasCache : (s.slot e).map.hasCache = (s.slot e).page.isSome
  ne_zero : (s.slot e).map ≠ .unused → e ≠ 0
  phase : SlotPhase enc s e

theorem SlotInv.owned {f : Nat}
    (h : SlotInv enc s e) (hf : s.Owns e f) : s.priv.pagePrivate f = e := by
  rcases hf with ⟨p, hPage, rfl⟩ | ⟨swpd, hTree, hSc⟩
  · exact (h.page p hPage).2
  · exact ((h.swpd swpd hTree).scratch f hSc).1

theorem SlotInv.used
    (h : SlotInv enc s e) (hPage : (s.slot e).page = some p) : (s.slot e).map ≠ .unused := by
  intro hUnused
  have hCache := h.hasCache
  rw [hUnused, hPage] at hCache
  cases hCache

/-- The phases of an entry with the page `p` in the swap cache. -/
inductive PagePhase (enc : Nat → Data → Data) (s : SwapSystem Data) (e : Nat) (p : CachedPage) :
    Prop
  | cached (hWb : p.writeback = false) (hBio : (s.slot e).bio = none)
      (hTaken : (s.slot e).taken = false) (hOrphan : (s.slot e).orphan = false)
      (hReading : p.reading = true → p.dirty = false) (hStored : p.dirty = false → Stored enc s e)
  | writing (b : Bio) (hWb : p.writeback = true) (hBio : (s.slot e).bio = some b)
      (hSector : b.sector = e) (hTaken : (s.slot e).taken = false)
      (hOrphan : (s.slot e).orphan = false) (hReading : p.reading = false)
      (hOut : Outgoing enc s e p b.bvPage)
  | orphan (hWb : p.writeback = false) (hBio : (s.slot e).bio = none)
      (hOrphan : (s.slot e).orphan = true) (hDirty : p.dirty = false) (hMapcount : p.mapcount = 0)
      (hCount : (s.slot e).map.count = 0 ∧ (s.slot e).taken = false ∨
        (s.slot e).map.count = 1 ∧ (s.slot e).taken = true)

theorem SlotInv.pagePhase
    (h : SlotInv enc s e) (hPage : (s.slot e).page = some p) : PagePhase enc s e p := by
  cases h.phase with
  | free _ hNone => rw [hPage] at hNone; cases hNone
  | taken _ hNone => rw [hPage] at hNone; cases hNone
  | stored _ hNone => rw [hPage] at hNone; cases hNone
  | cached q hq hWb hBio hTaken hOrphan hReading hStored =>
    obtain rfl := Option.some.inj (hPage.symm.trans hq)
    exact .cached hWb hBio hTaken hOrphan hReading hStored
  | writing q b hq hWb hBio hSector hTaken hOrphan hReading hOut =>
    obtain rfl := Option.some.inj (hPage.symm.trans hq)
    exact .writing b hWb hBio hSector hTaken hOrphan hReading hOut
  | orphan q hq hWb hBio hOrphan hDirty hMapcount hCount =>
    obtain rfl := Option.some.inj (hPage.symm.trans hq)
    exact .orphan hWb hBio hOrphan hDirty hMapcount hCount

theorem PagePhase.slotPhase (h : PagePhase enc s e p) (hPage : (s.slot e).page = some p) :
    SlotPhase enc s e := by
  cases h with
  | cached hWb hBio hTaken hOrphan hReading hStored =>
    exact .cached p hPage hWb hBio hTaken hOrphan hReading hStored
  | writing b hWb hBio hSector hTaken hOrphan hReading hOut =>
    exact .writing p b hPage hWb hBio hSector hTaken hOrphan hReading hOut
  | orphan hWb hBio hOrphan hDirty hMapcount hCount =>
    exact .orphan p hPage hWb hBio hOrphan hDirty hMapcount hCount

theorem SlotInv.quiet
    (h : SlotInv enc s e) (hPage : (s.slot e).page = some p) (hWb : p.writeback = false) :
    (s.slot e).bio = none := by
  cases h.pagePhase hPage with
  | cached _ hBio => exact hBio
  | orphan _ hBio => exact hBio
  | writing b hTrue =>
    rw [hWb] at hTrue
    cases hTrue

def SwapInv (enc : Nat → Data → Data) (s : SwapSystem Data) : Prop :=
  ∀ e, SlotInv enc s e

section Frame

variable {enc : Nat → Data → Data} {s t : SwapSystem Data} {e : Nat}

theorem Stored.congr (h : Stored enc s e) (hSlot : t.slot e = s.slot e)
    (hTree : t.priv.tree e = s.priv.tree e) : Stored enc t e := by
  rw [Stored, hSlot, hTree]
  exact h

/-- A write in flight is not disturbed as long as the descriptor, what was noted and the scratch
page stay. -/
theorem Outgoing.congr {p p' : CachedPage} {f : Nat} (h : Outgoing enc s e p f)
    (hTree : t.priv.tree e = s.priv.tree e) (hWritten : (t.slot e).written = (s.slot e).written)
    (hEnc : (t.slot e).encrypted = (s.slot e).encrypted) (hFrame : p'.frame = p.frame)
    (hScratch : ∀ swpd, s.priv.tree e = some swpd → swpd.scratch = some f →
      t.priv.mem f = s.priv.mem f)
    (hClean : p'.dirty = false → p.dirty = false ∧ t.priv.mem p.frame = s.priv.mem p.frame) :
    Outgoing enc t e p' f := by
  cases h with
  | ciphertext swpd d hSwpd hPage hSc hFlags hW hM hE =>
    exact .ciphertext swpd d (hTree.trans hSwpd) (hFrame ▸ hPage) hSc hFlags (hWritten.trans hW)
      ((hScratch swpd hSwpd hSc).trans hM) (hEnc.trans hE)
  | plain hNone hPage hE hW =>
    refine .plain (hTree.trans hNone) (hPage.trans hFrame.symm) (hEnc.trans hE) fun hd => ?_
    obtain ⟨hOld, hMem⟩ := hClean hd
    rw [hWritten, hFrame, hMem]
    exact hW hOld

theorem SlotInv.congr (h : SlotInv enc s e) (hSlot : t.slot e = s.slot e)
    (hTree : t.priv.tree e = s.priv.tree e)
    (hFrame : ∀ f, s.Owns e f →
      t.priv.pagePrivate f = s.priv.pagePrivate f ∧ t.priv.mem f = s.priv.mem f)
    (hLive : ∀ ctx, LiveCtx s.priv ctx → LiveCtx t.priv ctx) : SlotInv enc t e where
  page p hPage := by
    rw [hSlot] at hPage
    rw [(hFrame p.frame (.inl ⟨p, hPage, rfl⟩)).1]
    exact h.page p hPage
  swpd swpd hSwpd := by
    rw [hTree] at hSwpd
    refine ⟨hLive _ (h.swpd swpd hSwpd).live, fun sc hSc => ?_⟩
    rw [(hFrame sc (.inr ⟨swpd, hSwpd, hSc⟩)).1, hSlot]
    exact (h.swpd swpd hSwpd).scratch sc hSc
  hasCache := by rw [hSlot]; exact h.hasCache
  ne_zero hMap := h.ne_zero (hSlot ▸ hMap)
  phase := by
    cases h.phase with
    | free hMap hPage hBio hTaken hNone =>
      rw [← hSlot] at hMap hPage hBio hTaken
      exact .free hMap hPage hBio hTaken (hTree.trans hNone)
    | taken hMap hPage hBio hTaken =>
      rw [← hSlot] at hMap hPage hBio hTaken
      exact .taken hMap hPage hBio hTaken
    | stored hMap hPage hBio hTaken hStored =>
      rw [← hSlot] at hMap hPage hBio hTaken
      exact .stored hMap hPage hBio hTaken (hStored.congr hSlot hTree)
    | cached p hPage hWb hBio hTaken hOrphan hReading hStored =>
      rw [← hSlot] at hPage hBio hTaken hOrphan
      exact .cached p hPage hWb hBio hTaken hOrphan hReading fun hd =>
        (hStored hd).congr hSlot hTree
    | orphan p hPage hWb hBio hOrphan hDirty hMapcount hCount =>
      rw [← hSlot] at hPage hBio hOrphan hCount
      exact .orphan p hPage hWb hBio hOrphan hDirty hMapcount hCount
    | writing p b hPage hWb hBio hSector hTaken hOrphan hReading hOut =>
      have hOut' : Outgoing enc t e p b.bvPage :=
        hOut.congr hTree (by rw [hSlot]) (by rw [hSlot]) rfl
          (fun swpd hSwpd hSc => (hFrame b.bvPage (.inr ⟨swpd, hSwpd, hSc⟩)).2)
          fun hd => ⟨hd, (hFrame p.frame (.inl ⟨p, hPage, rfl⟩)).2⟩
      rw [← hSlot] at hPage hBio hTaken hOrphan
      exact .writing p b hPage hWb hBio hSector hTaken hOrphan hReading hOut'

theorem SlotInv.replacePage {p : CachedPage} (h : SlotInv enc s e) (p' : CachedPage)
    (hPage : (s.slot e).page = some p) (hNew : (t.slot e).page = some p')
    (hMap : (t.slot e).map.hasCache = (s.slot e).map.hasCache) (hCache : p'.swapCache = p.swapCache)
    (hFrame : p'.frame = p.frame) (hPrivate : t.priv.pagePrivate = s.priv.pagePrivate)
    (hLive : ∀ ctx, LiveCtx s.priv ctx → LiveCtx t.priv ctx)
    (hTree : ∀ swpd, t.priv.tree e = some swpd → ∃ old, s.priv.tree e = some old ∧
      swpd.ctx = old.ctx ∧ swpd.scratch = old.scratch)
    (hPhase : PagePhase enc t e p') : SlotInv enc t e := by
  refine ⟨fun q hq => ?_, fun swpd hSwpd => ?_, ?_, fun _ => h.ne_zero (h.used hPage),
    hPhase.slotPhase hNew⟩
  · obtain rfl := Option.some.inj (hNew.symm.trans hq)
    rw [hCache, hFrame, hPrivate]
    exact h.page p hPage
  · obtain ⟨old, hOld, hCtx, hSame⟩ := hTree swpd hSwpd
    refine ⟨hCtx ▸ hLive _ (h.swpd old hOld).live, fun sc hSc => ?_⟩
    obtain ⟨hOwned, hApart⟩ := (h.swpd old hOld).scratch sc (hSame ▸ hSc)
    refine ⟨(congrFun hPrivate sc).trans hOwned, fun q hq => ?_⟩
    obtain rfl := Option.some.inj (hNew.symm.trans hq)
    rw [hFrame]
    exact hApart p hPage
  · rw [hMap, hNew, h.hasCache, hPage]
    rfl

/-- **A step at one entry**: it is enough to look at that entry when only its
slot changes, and only its own frames and idle ones are touched. -/
theorem SwapInv.of_slot (h : SwapInv enc s) (hSlot : ∀ e', e' ≠ e → t.slot e' = s.slot e')
    {F : Nat → Prop} (hPriv : Touches s.priv t.priv e F)
    (hFrames : ∀ f, F f → s.Owns e f ∨ s.Idle f) (hAt : SlotInv enc t e) : SwapInv enc t := by
  intro e'
  by_cases hNe : e' = e
  · exact hNe ▸ hAt
  · refine (h e').congr (hSlot e' hNe) (hPriv.tree e' hNe) (fun f hf => hPriv.frame f fun hF => ?_)
      hPriv.live
    rcases hFrames f hF with hOwn | hIdle
    · exact hNe (((h e').owned hf).symm.trans ((h e).owned hOwn))
    · exact hIdle e' hf

end Frame

/-! ## Reading and changing one slot -/

section Slot

variable (s : SwapSystem Data) (e : Nat) (f : SwapSlot Data → SwapSlot Data) (l : Life Data)

@[simp] theorem SwapSystem.priv_modify : (s.modify e f).priv = s.priv := rfl
@[simp] theorem SwapSystem.slot_modify_self : (s.modify e f).slot e = f (s.slot e) :=
  update_self ..

theorem SwapSystem.slot_modify_of_ne {e' : Nat} (h : e' ≠ e) :
    (s.modify e f).slot e' = s.slot e' :=
  update_of_ne h _ _

theorem SwapSystem.modify_id (h : f (s.slot e) = s.slot e) : s.modify e f = s := by
  rw [SwapSystem.modify, h, update_eq_self]

theorem SwapSystem.page_life (h : ∀ p, (s.slot e).page = some p → p.swapCache = true) :
    (((s.life e).page.filter AnonPage.swapCache).bind fun q =>
      (s.slot e).page.map fun p => { p with toAnonPage := q }) = (s.slot e).page := by
  cases hPage : (s.slot e).page with
  | none => simp [SwapSystem.life, hPage]
  | some p => simp [SwapSystem.life, hPage, Option.filter, h p hPage]

theorem SwapSystem.put_life (h : ∀ p, (s.slot e).page = some p → p.swapCache = true) :
    s.put e (s.life e) = s := by
  refine s.modify_id e _ ?_
  simp only [s.page_life e h]
  rfl

end Slot

/-! ## Leaving the swap cache -/

section Delete

variable {enc : Nat → Data → Data} {s : SwapSystem Data} {e : Nat} {p : CachedPage}

/-- The tree side of dropping an entry's reference: the descriptor goes with
the last one. -/
def dropPriv (st : Privos Data) (e : Nat) (m : SwapCount) : Privos Data :=
  if m = .unused then deleteFromPriv (setSwappedBit st e 0) e else st

theorem Touches.drop (st : Privos Data) (e : Nat) (m : SwapCount) {F : Nat → Prop} :
    Touches st (dropPriv st e m) e F := by
  unfold dropPriv
  split
  · exact Touches.freeEntry st e
  · exact Touches.refl st e F

theorem tree_dropPriv_unused (st : Privos Data) (he : e ≠ 0) :
    (dropPriv st e .unused).tree e = none := by
  rw [dropPriv, if_pos rfl, tree_deleteFromPriv_setSwappedBit st he, update_self]

theorem dropPriv_used (st : Privos Data) {m : SwapCount} (h : m ≠ .unused) :
    dropPriv st e m = st :=
  if_neg h

def unlinkPriv (st : Privos Data) (frame : Nat) : Privos Data :=
  { st with pagePrivate := Function.update st.pagePrivate frame 0 }

/-- `p` is out of the swap cache; `b` says whether a fault has taken it. -/
def SwapSystem.deleted (s : SwapSystem Data) (e : Nat) (p : CachedPage) (b : Bool) :
    SwapSystem Data :=
  SwapSystem.modify
    { s with priv := dropPriv (unlinkPriv s.priv p.frame) e ⟨(s.slot e).map.count, false⟩ } e
    fun slot => { slot with map := ⟨slot.map.count, false⟩, page := none, taken := b }

theorem put_deleteFromSwapCache (hPriv : s.priv.pagePrivate p.frame = e) {q : AnonPage}
    (hq : q.frame = p.frame) :
    s.put e (deleteFromSwapCache (s.life e) q) = s.deleted e p (s.slot e).taken := by
  simp only [SwapSystem.put, SwapSystem.deleted, SwapSystem.modify, deleteFromSwapCache, hq,
    SwapSystem.life, hPriv, swapEntryFree, SwapCount.drop, if_true, update_self,
    Option.filter, Bool.false_eq_true, if_false, Option.bind_none, dropPriv, unlinkPriv]

theorem put_removeMapping (hPriv : s.priv.pagePrivate p.frame = e) :
    s.put e (removeMapping (s.life e) p.toAnonPage) = s.deleted e p (s.slot e).taken := by
  rw [← put_deleteFromSwapCache hPriv (q := p.toAnonPage) rfl]
  rfl

theorem reuseSwapPage_eq_deleted (hPriv : s.priv.pagePrivate p.frame = e) :
    s.reuseSwapPage e p = s.deleted e p ((s.slot e).map.count == 1) := by
  rw [SwapSystem.reuseSwapPage,
    put_deleteFromSwapCache hPriv (q := { p.toAnonPage with dirty := true }) rfl]
  simp only [SwapSystem.deleted, SwapSystem.modify, update_self, update_idem]

/-- **Leaving the swap cache** is harmless when nobody holds the entry, when a
fault takes the page, and when the device holds the contents. -/
theorem SwapInv.deleted (h : SwapInv enc s) (hPage : (s.slot e).page = some p)
    (hWb : p.writeback = false) {b : Bool}
    (hAfter : (s.slot e).map.count = 0 ∧ b = false ∨ (s.slot e).map.count = 1 ∧ b = true ∨
      b = false ∧ Stored enc s e) : SwapInv enc (s.deleted e p b) := by
  have hOwn : s.Owns e p.frame := .inl ⟨p, hPage, rfl⟩
  have he : e ≠ 0 := (h e).ne_zero ((h e).used hPage)
  have hBio := (h e).quiet hPage hWb
  have hTouch : Touches s.priv (s.deleted e p b).priv e (· = p.frame) :=
    (Touches.setPrivate s.priv e p.frame 0).trans (Touches.drop _ e _)
  have hSelf : (s.deleted e p b).slot e =
      { s.slot e with map := ⟨(s.slot e).map.count, false⟩, page := none, taken := b } :=
    SwapSystem.slot_modify_self ..
  refine h.of_slot (fun e' hNe' => SwapSystem.slot_modify_of_ne _ _ _ hNe') hTouch
    (fun f hf => .inl (hf ▸ hOwn)) ?_
  by_cases hCount : (s.slot e).map.count = 0
  · -- the entry is freed, and its descriptor with it
    have hTree : (s.deleted e p b).priv.tree e = none := by
      have hMap : (⟨(s.slot e).map.count, false⟩ : SwapCount) = .unused := by rw [hCount]; rfl
      show (dropPriv _ e _).tree e = none
      rw [hMap]
      exact tree_dropPriv_unused _ he
    have hb : b = false := by
      rcases hAfter with ⟨-, hb⟩ | ⟨hOne, -⟩ | ⟨hb, -⟩
      · exact hb
      · omega
      · exact hb
    refine ⟨fun p' hp' => ?_, fun swpd hSwpd => ?_, ?_, fun _ => he, .free ?_ ?_ ?_ ?_ hTree⟩
    · rw [hSelf] at hp'
      cases hp'
    · rw [hTree] at hSwpd
      cases hSwpd
    · rw [hSelf]; rfl
    · rw [hSelf, hCount]; rfl
    · rw [hSelf]
    · rw [hSelf]; exact hBio
    · rw [hSelf]; exact hb
  · have hMap : (⟨(s.slot e).map.count, false⟩ : SwapCount) ≠ .unused := by
      intro hEq
      exact hCount (congrArg SwapCount.count hEq)
    have hPriv : (s.deleted e p b).priv = unlinkPriv s.priv p.frame := dropPriv_used _ hMap
    have hTree : (s.deleted e p b).priv.tree e = s.priv.tree e := by rw [hPriv]; rfl
    refine ⟨fun p' hp' => ?_, fun swpd hSwpd => ?_, ?_, fun _ => he, ?_⟩
    · rw [hSelf] at hp'
      cases hp'
    · rw [hTree] at hSwpd
      refine ⟨hTouch.live _ ((h e).swpd swpd hSwpd).live, fun sc hSc => ⟨?_, fun p' hp' => ?_⟩⟩
      · obtain ⟨hOwned, hApart⟩ := ((h e).swpd swpd hSwpd).scratch sc hSc
        rw [hPriv]
        exact (update_of_ne (hApart p hPage) _ _).trans hOwned
      · rw [hSelf] at hp'
        cases hp'
    · rw [hSelf]; rfl
    · rcases hAfter with ⟨hZero, -⟩ | ⟨hOne, hb⟩ | ⟨hb, hStored⟩
      · exact absurd hZero hCount
      · refine .taken ?_ ?_ ?_ ?_ <;> rw [hSelf]
        · rw [hOne]
        · exact hBio
        · exact hb
      · refine .stored ?_ ?_ ?_ ?_ ?_
        · rw [hSelf]; exact hMap
        · rw [hSelf]
        · rw [hSelf]; exact hBio
        · rw [hSelf]; exact hb
        · rw [Stored, hSelf, hTree]
          exact hStored

end Delete

/-! ## Mapping and unmapping -/

section Map

variable {enc : Nat → Data → Data} {s : SwapSystem Data} {e : Nat} {p : CachedPage}

/-- The page is mapped, or a page table entry other than that of the fault which took it holds
the entry. -/
def SwapSystem.InUse (s : SwapSystem Data) (e : Nat) (p : CachedPage) : Prop :=
  p.mapcount ≠ 0 ∨ (s.slot e).map.count ≠ 0 ∧ (s.slot e).taken = false

theorem SlotInv.not_orphan (h : SlotInv enc s e) (hPage : (s.slot e).page = some p)
    (hUse : s.InUse e p) : (s.slot e).orphan = false := by
  cases h.pagePhase hPage with
  | cached _ _ _ hOrphan => exact hOrphan
  | writing _ _ _ _ _ hOrphan => exact hOrphan
  | orphan _ _ _ _ hMapcount hCount =>
    rcases hUse with hMapped | ⟨hHeld, hTaken⟩
    · exact absurd hMapcount hMapped
    · rcases hCount with ⟨hZero, -⟩ | ⟨-, hTrue⟩
      · exact absurd hZero hHeld
      · rw [hTaken] at hTrue
        cases hTrue

/-- `p'` is `p`, mapped differently, and possibly dirtied by a write of `d`. -/
structure Dirtied (p p' : CachedPage) (old d : Data) : Prop where
  frame : p'.frame = p.frame
  swapCache : p'.swapCache = p.swapCache
  writeback : p'.writeback = p.writeback
  reading : p'.reading = p.reading
  kept : p'.dirty = false → p.dirty = false ∧ d = old
  locked : p.reading = true → p'.dirty = p.dirty

/-- `s` with `p'` for the page under `e`, its contents `d`, and `count` page
table entries that hold `e`. -/
def SwapSystem.rewrite (s : SwapSystem Data) (e count : Nat) (p' : CachedPage) (d : Data) :
    SwapSystem Data :=
  SwapSystem.remap
    { s with priv := { s.priv with mem := Function.update s.priv.mem p'.frame d } } e count p'

theorem SwapSystem.rewrite_same (s : SwapSystem Data) (e count : Nat) (p' : CachedPage) :
    s.rewrite e count p' (s.priv.mem p'.frame) = s.remap e count p' := by
  rw [SwapSystem.rewrite, update_eq_self]

/-- **Mapping, unmapping, writing** to a page that is in use. -/
theorem SwapInv.rewrite (h : SwapInv enc s) (hPage : (s.slot e).page = some p)
    (hUse : s.InUse e p) (count : Nat) (p' : CachedPage) {d : Data}
    (hDirty : Dirtied p p' (s.priv.mem p.frame) d) : SwapInv enc (s.rewrite e count p' d) := by
  have hOwn : s.Owns e p.frame := .inl ⟨p, hPage, rfl⟩
  have hSelf : (s.rewrite e count p' d).slot e =
      { s.slot e with map := { (s.slot e).map with count := count }, page := some p' } :=
    update_self ..
  have hMem : ∀ f, f ≠ p.frame → (s.rewrite e count p' d).priv.mem f = s.priv.mem f := by
    intro f hNe
    exact update_of_ne (hDirty.frame ▸ hNe) _ _
  refine h.of_slot (fun e' hNe => update_of_ne hNe _ _)
    (Touches.setMem s.priv e p'.frame d) (fun f hf => .inl (hf ▸ hDirty.frame ▸ hOwn)) ?_
  refine (h e).replacePage p' hPage (by rw [hSelf]) (by rw [hSelf]) hDirty.swapCache hDirty.frame rfl
    (fun _ hc => hc) (fun swpd hSwpd => ⟨swpd, hSwpd, rfl, rfl⟩) ?_
  have hOrphan := (h e).not_orphan hPage hUse
  cases (h e).pagePhase hPage with
  | orphan _ _ hTrue => rw [hOrphan] at hTrue; cases hTrue
  | cached hWb hBio hTaken _ hReading hStored =>
    refine .cached (hDirty.writeback.trans hWb) ?_ ?_ ?_ (fun hR => ?_) fun hClean => ?_
    · rw [hSelf]; exact hBio
    · rw [hSelf]; exact hTaken
    · rw [hSelf]; exact hOrphan
    · rw [hDirty.reading] at hR
      rw [hDirty.locked hR]
      exact hReading hR
    · rw [Stored, hSelf]
      exact hStored (hDirty.kept hClean).1
  | writing b hWb hBio hSector hTaken _ hReading hOut =>
    refine .writing b (hDirty.writeback.trans hWb) ?_ hSector ?_ ?_
      (hDirty.reading.trans hReading) (hOut.congr rfl ?_ ?_ hDirty.frame ?_ fun hClean => ?_)
    · rw [hSelf]; exact hBio
    · rw [hSelf]; exact hTaken
    · rw [hSelf]; exact hOrphan
    · rw [hSelf]
    · rw [hSelf]
    · intro swpd hSwpd hSc
      exact hMem _ ((((h e).swpd swpd hSwpd).scratch _ hSc).2 p hPage)
    · obtain ⟨hOld, rfl⟩ := hDirty.kept hClean
      refine ⟨hOld, ?_⟩
      rw [← hDirty.frame]
      exact update_self (f := s.priv.mem) p'.frame _

theorem SwapInv.remap (h : SwapInv enc s) (hPage : (s.slot e).page = some p)
    (hUse : s.InUse e p) (count : Nat) (p' : CachedPage)
    (hDirty : Dirtied p p' (s.priv.mem p.frame) (s.priv.mem p.frame)) :
    SwapInv enc (s.remap e count p') := by
  rw [← SwapSystem.rewrite_same, hDirty.frame]
  exact h.rewrite hPage hUse count p' hDirty

theorem doSwapPage_eq_remap (h : SlotInv enc s e) (hPage : (s.slot e).page = some p) :
    s.doSwapPage e p = s.remap e ((s.slot e).map.count - 1) { p with mapcount := p.mapcount + 1 } := by
  have hCached : (s.slot e).map.hasCache = true := h.hasCache.trans (by rw [hPage]; rfl)
  have hUsed : ({ (s.slot e).map with count := (s.slot e).map.count - 1 } : SwapCount) ≠
      .unused := by
    intro hEq
    have hFalse : (s.slot e).map.hasCache = false := congrArg SwapCount.hasCache hEq
    rw [hCached] at hFalse
    cases hFalse
  simp only [SwapSystem.doSwapPage, SwapSystem.remap, SwapSystem.put, SwapSystem.modify,
    swapEntryFree, SwapSystem.life, SwapCount.drop, Bool.false_eq_true, if_false, hUsed,
    update_self, update_idem]

end Map

/-! ## Page table entries that hold the swap entry -/

section Count

variable {enc : Nat → Data → Data} {s : SwapSystem Data} {e : Nat} {p : CachedPage}

/-- `count` page table entries hold `e` from now on, and no fault has it
taken. -/
def SwapSystem.recount (s : SwapSystem Data) (e count : Nat) : SwapSystem Data :=
  SwapSystem.modify { s with priv := dropPriv s.priv e ⟨count, (s.slot e).map.hasCache⟩ } e
    fun slot => { slot with map := { slot.map with count := count }, taken := false }

theorem SwapSystem.slot_recount_self (s : SwapSystem Data) (e count : Nat) :
    (s.recount e count).slot e =
      { s.slot e with map := { (s.slot e).map with count := count }, taken := false } :=
  update_self ..

theorem SwapSystem.tree_recount_unused (s : SwapSystem Data) {e count : Nat} (he : e ≠ 0)
    (hUnused : ((s.recount e count).slot e).map = .unused) :
    (s.recount e count).priv.tree e = none := by
  rw [s.slot_recount_self] at hUnused
  show (dropPriv _ e _).tree e = none
  rw [show (⟨count, (s.slot e).map.hasCache⟩ : SwapCount) = .unused from hUnused]
  exact tree_dropPriv_unused _ he

theorem swapFree_eq_recount (h : SlotInv enc s e) :
    s.swapFree e = s.recount e ((s.slot e).map.count - 1) := by
  have hPage := s.page_life e fun p hp => (h.page p hp).1
  simp only [SwapSystem.life] at hPage
  simp only [SwapSystem.swapFree, SwapSystem.recount, SwapSystem.put, SwapSystem.modify,
    swapEntryFree, SwapSystem.life, SwapCount.drop, Bool.false_eq_true, if_false,
    update_self, update_idem, hPage, dropPriv]

theorem swapDuplicate_eq_recount (hTaken : (s.slot e).taken = false) (n : Nat) :
    (s.modify e fun slot => { slot with map := { slot.map with count := n + 1 } }) =
      s.recount e (n + 1) := by
  have hUsed : (⟨n + 1, (s.slot e).map.hasCache⟩ : SwapCount) ≠ .unused := fun hEq =>
    Nat.succ_ne_zero n (congrArg SwapCount.count hEq)
  rw [SwapSystem.recount, dropPriv_used _ hUsed]
  simp only [SwapSystem.modify, ← hTaken]

theorem SwapInv.recount (h : SwapInv enc s) (hCount : (s.slot e).map.count ≠ 0) (count : Nat)
    (hTaken : (s.slot e).taken = true → count = 0) : SwapInv enc (s.recount e count) := by
  have he : e ≠ 0 := (h e).ne_zero fun hUnused => hCount (by rw [hUnused]; rfl)
  have hTouch : Touches s.priv (s.recount e count).priv e fun _ => False := Touches.drop _ e _
  have hSelf := s.slot_recount_self e count
  have hFrame := fun f => hTouch.frame f not_false
  refine h.of_slot (fun e' hNe => update_of_ne hNe _ _) hTouch (fun f hf => hf.elim) ?_
  -- the descriptor is still there, or the entry is no longer in use
  have hTree : (s.recount e count).priv.tree e = s.priv.tree e ∨
      ((s.recount e count).slot e).map = .unused ∧ (s.recount e count).priv.tree e = none := by
    by_cases hUnused : ((s.recount e count).slot e).map = .unused
    · exact .inr ⟨hUnused, s.tree_recount_unused he hUnused⟩
    · rw [s.slot_recount_self] at hUnused
      exact .inl (congrArg (fun st => st.tree e) (dropPriv_used s.priv hUnused))
  refine ⟨fun q hq => ?_, fun swpd hSwpd => ?_, ?_, fun _ => he, ?_⟩
  · rw [hSelf] at hq
    rw [(hFrame q.frame).1]
    exact (h e).page q hq
  · rcases hTree with hSame | ⟨-, hNone⟩
    · rw [hSame] at hSwpd
      refine ⟨hTouch.live _ ((h e).swpd swpd hSwpd).live, fun sc hSc => ?_⟩
      rw [(hFrame sc).1, hSelf]
      exact ((h e).swpd swpd hSwpd).scratch sc hSc
    · rw [hNone] at hSwpd
      cases hSwpd
  · rw [hSelf]
    exact (h e).hasCache
  · have hFree : (s.slot e).page = none → (s.slot e).bio = none →
        ((s.recount e count).slot e).map = .unused →
        SlotPhase enc (s.recount e count) e := by
      intro hPage hBio hUnused
      have hNone := s.tree_recount_unused he hUnused
      exact .free hUnused (by rw [hSelf]; exact hPage) (by rw [hSelf]; exact hBio)
        (by rw [hSelf]) hNone
    have hKept : ((s.recount e count).slot e).map ≠ .unused → Stored enc s e →
        Stored enc (s.recount e count) e := by
      intro hUsed hStored
      rcases hTree with hSame | ⟨hUnused, -⟩
      · rw [Stored, hSelf, hSame]
        exact hStored
      · exact absurd hUnused hUsed
    have hUsed : ∀ q, (s.slot e).page = some q → ((s.recount e count).slot e).map ≠ .unused := by
      intro q hq hUnused
      have hCache := (h e).hasCache
      rw [hSelf] at hUnused
      rw [show (s.slot e).map.hasCache = false from congrArg SwapCount.hasCache hUnused, hq]
        at hCache
      cases hCache
    cases (h e).phase with
    | free hMap => exact absurd (by rw [hMap]; rfl) hCount
    | taken hMap hPage hBio hTk =>
      refine hFree hPage hBio ?_
      rw [hSelf, hTaken hTk, hMap]
      rfl
    | stored hMap hPage hBio hTk hStored =>
      by_cases hUnused : ((s.recount e count).slot e).map = .unused
      · exact hFree hPage hBio hUnused
      · exact .stored hUnused (by rw [hSelf]; exact hPage) (by rw [hSelf]; exact hBio)
          (by rw [hSelf]) (hKept hUnused hStored)
    | cached q hq hWb hBio hTk hOrphan hReading hStored =>
      exact .cached q (by rw [hSelf]; exact hq) hWb (by rw [hSelf]; exact hBio) (by rw [hSelf])
        (by rw [hSelf]; exact hOrphan) hReading fun hd => hKept (hUsed q hq) (hStored hd)
    | orphan q hq hWb hBio hOrphan hDirty hMapcount hC =>
      refine .orphan q (by rw [hSelf]; exact hq) hWb (by rw [hSelf]; exact hBio)
        (by rw [hSelf]; exact hOrphan) hDirty hMapcount (.inl ?_)
      rcases hC with ⟨hZero, -⟩ | ⟨-, hTk⟩
      · exact absurd hZero hCount
      · rw [hSelf, hTaken hTk]
        exact ⟨rfl, rfl⟩
    | writing q b hq hWb hBio hSector hTk hOrphan hReading hOut =>
      have hSame : (s.recount e count).priv.tree e = s.priv.tree e :=
        hTree.resolve_right fun hBoth => hUsed q hq hBoth.1
      exact .writing q b (by rw [hSelf]; exact hq) hWb (by rw [hSelf]; exact hBio) hSector
        (by rw [hSelf]) (by rw [hSelf]; exact hOrphan) hReading
        (hOut.congr hSame (by rw [hSelf]) (by rw [hSelf]) rfl (fun _ _ _ => (hFrame _).2)
          fun hd => ⟨hd, (hFrame _).2⟩)

end Count

end Lacuna.Swap
