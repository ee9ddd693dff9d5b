import Lacuna.Lib.Trace
import Lacuna.Swap.Phase

/-!
# Private swap — what is written to the swap device

`swap_writepage` hands to `submit_bio` the scratch page with the ciphertext
exactly if the page is tracked (`swapWritepage_inv`). A page may be submitted
untracked: after a failed `add_to_priv` it stays in the swap cache, so the next pass
of reclaim does not try again; and a completed write gives the scratch page up while
the page may stay in the swap cache and be written a second time.
-/

namespace Lacuna.Swap

open Lacuna.Lib

variable {Data : Type}

/-! ## Writing out -/

section Writing

variable {s : Life Data} {p : AnonPage} {enc : Nat → Data → Data}

/-- Whether `swap_writepage` gets as far as `submit_bio`. -/
def submits (s : Life Data) (bio gfpIo : Bool) : Bool :=
  match s.page with
  | some p => bio && (pageSwapcount s p != 0 || !gfpIo)
  | none => false

/-- What `swap_writepage` hands to `submit_bio` is the scratch page of the page's descriptor,
and holds the page's encryption. -/
def SubmitsCiphertext (enc : Nat → Data → Data) (s s' : Life Data) : Prop :=
  ∀ p b, s.page = some p → s'.bio = some b →
    ∃ swpd, s.priv.tree (s.priv.pagePrivate p.frame) = some swpd ∧
      swpd.scratch = some b.bvPage ∧ b.bvPage ≠ p.frame ∧
      s'.priv.mem b.bvPage = enc swpd.ctx (s.priv.mem p.frame)

theorem submits_of_page (hPage : s.page = some p) (bio gfpIo : Bool) :
    submits s bio gfpIo = (bio && (pageSwapcount s p != 0 || !gfpIo)) := by
  rw [submits, hPage]

theorem SubmitsCiphertext.of_quiet {s' : Life Data} (h : s'.bio = none) :
    SubmitsCiphertext enc s s' := by
  intro p b _ hb
  rw [h] at hb
  cases hb

theorem tryToFreeSwap_cached (hCache : p.swapCache = true) (hWb : p.writeback = false)
    (gfpIo : Bool) : tryToFreeSwap s { p with dirty := false } gfpIo =
      if pageSwapcount s p != 0 || !gfpIo then (false, s)
      else (true, deleteFromSwapCache s { p with dirty := true }) := by
  simp only [tryToFreeSwap, hCache, hWb, Bool.not_true, Bool.false_or, pageSwapcount]

theorem swapWritepage_freed (h : LifeInv s) (hPage : s.page = some p)
    (hCache : p.swapCache = true) (hWb : p.writeback = false) (hCount : pageSwapcount s p = 0)
    (entry : Nat) :
    LifeInv { deleteFromSwapCache s { p with dirty := true } with
      priv := setSwappedBit (deleteFromSwapCache s { p with dirty := true }).priv entry 0 } := by
  have hInv := deleteFromSwapCache_inv h hPage hCache hWb hCount { p with dirty := true } ⟨rfl, hWb⟩
  refine ⟨hInv.unused.setBit _ _, ?_⟩
  cases hInv.phase with
  | resident q hq hc hw hPte hb => exact .resident q hq hc hw hPte hb
  | cached q e' hq hc => cases hq; cases hc
  | writing q e' b hq hc => cases hq; cases hc
  | swapped e' hNone => cases hNone

def submitted (s : Life Data) (p : AnonPage) (bvPage : Nat) (priv : Privos Data) : Life Data :=
  { s with
    priv := priv
    page := some { p with dirty := false, writeback := true }
    bio := some ⟨bvPage, s.priv.pagePrivate p.frame⟩ }

theorem submit_tracked (h : LifeInv s) (hPage : s.page = some p) (hCache : p.swapCache = true)
    (hWb : p.writeback = false) (hTr : s.tracked = true) :
    ∃ sc priv, privEncryptPage enc s.priv p.frame = some (sc, priv) ∧
      LifeInv (submitted s p sc priv) ∧ SubmitsCiphertext enc s (submitted s p sc priv) := by
  obtain ⟨e, hPriv, hMap, -, hT, -⟩ := h.cached hPage hCache hWb
  obtain ⟨-, sc, hArmed⟩ := hT hTr
  obtain ⟨swpd, hTree, hSc, hEnc⟩ := privEncryptPage_armed enc hPriv hArmed
  obtain ⟨swpd', hTree', hFrame, -, hScPriv, hNe⟩ := hArmed
  obtain rfl : swpd = swpd' := Option.some.inj (hTree.symm.trans hTree')
  refine ⟨sc, _, hEnc, ⟨h.unused.of_inUse hMap.ne_unused rfl fun e' hNe' => ?_,
    .writing { p with dirty := false, writeback := true } e ⟨sc, e⟩ rfl hCache rfl hPriv
      ⟨hMap.1, hMap.2, hMap.3⟩ (by rw [submitted, hPriv]) (fun _ => ⟨?_, ?_⟩) fun hF => ?_⟩, ?_⟩
  · exact Function.update_of_ne hNe' _ _
  · exact ⟨{ swpd with flags := 1 }, by simp [submitted, setSwappedBit, findPrivPage, hTree],
      hFrame, hSc, hScPriv, hNe⟩
  · simp [submitted, testSwappedBit, setSwappedBit, findPrivPage, hTree]
  · rw [submitted, hTr] at hF
    cases hF
  · intro q b hq hb
    obtain rfl : p = q := Option.some.inj (hPage.symm.trans hq)
    cases hb
    exact ⟨swpd, by rw [hPriv, hTree], hSc, hNe, by simp [submitted]⟩

theorem submit_untracked (h : LifeInv s) (hPage : s.page = some p) (hCache : p.swapCache = true)
    (hWb : p.writeback = false) (hTr : s.tracked = false) :
    ∃ priv, privEncryptPage enc s.priv p.frame = some (p.frame, priv) ∧
      LifeInv (submitted s p p.frame priv) ∧
      ¬ SubmitsCiphertext enc s (submitted s p p.frame priv) := by
  obtain ⟨e, hPriv, hMap, -, -, hE⟩ := h.cached hPage hCache hWb
  obtain ⟨priv, hEnc, hTree, hPP⟩ :=
    privEncryptPage_unarmed enc hPriv hMap.ne_zero (hE hTr)
  refine ⟨priv, hEnc, ⟨h.unused.of_inUse hMap.ne_unused rfl fun e' hNe' => ?_,
    .writing { p with dirty := false, writeback := true } e ⟨p.frame, e⟩ rfl hCache rfl
      ((congrFun hPP _).trans hPriv) ⟨hMap.1, hMap.2, hMap.3⟩ (by rw [submitted, hPriv])
      (fun hT => ?_) fun _ => ⟨rfl, ?_⟩⟩, fun hEncrypted => ?_⟩
  · rw [submitted, hTree, Function.update_of_ne hNe']
  · rw [submitted, hTr] at hT
    cases hT
  · rw [submitted, hTree, Function.update_self]
  · obtain ⟨-, -, -, hNe, -⟩ := hEncrypted p _ hPage rfl
    exact hNe rfl

/-- **Writing out**: a submitted page is encrypted exactly when it is
tracked. -/
theorem swapWritepage_inv (h : LifeInv s) (hPage : s.page = some p)
    (hCache : p.swapCache = true) (hWb : p.writeback = false) (hDirty : p.dirty = true)
    {bio gfpIo : Bool} {s' : Life Data}
    (hStep : swapWritepage enc s { p with dirty := false } bio gfpIo = some s') :
    LifeInv s' ∧
      (SubmitsCiphertext enc s s' ↔ (submits s bio gfpIo = true → s.tracked = true)) := by
  have hBio := h.bio_eq_none hPage hWb
  rw [submits_of_page hPage]
  rw [swapWritepage, tryToFreeSwap_cached hCache hWb] at hStep
  cases hNeeded : pageSwapcount s p != 0 || !gfpIo with
  | false =>
    rw [hNeeded] at hStep
    cases hStep
    have hCount : pageSwapcount s p = 0 := by simpa using (Bool.or_eq_false_iff.mp hNeeded).1
    exact ⟨swapWritepage_freed h hPage hCache hWb hCount _, iff_of_true (.of_quiet hBio) (by simp)⟩
  | true =>
    rw [hNeeded] at hStep
    cases bio with
    | false =>
      -- no bio: the page is dirty again, as it was before `pageout`
      cases hStep
      have hSame : { p with dirty := true } = p := by rw [← hDirty]
      refine ⟨?_, iff_of_true (.of_quiet hBio) (by simp)⟩
      simp only [hSame, ← hPage]
      exact h
    | true =>
      cases hTr : s.tracked with
      | true =>
        obtain ⟨sc, priv, hEnc, hInv, hCipher⟩ := submit_tracked h hPage hCache hWb hTr
        simp only [if_true] at hStep
        rw [hEnc] at hStep
        cases hStep
        exact ⟨hInv, iff_of_true hCipher fun _ => rfl⟩
      | false =>
        obtain ⟨priv, hEnc, hInv, hPlain⟩ := submit_untracked h hPage hCache hWb hTr
        simp only [if_true] at hStep
        rw [hEnc] at hStep
        cases hStep
        exact ⟨hInv, iff_of_false hPlain (by simp)⟩

end Writing

section Runs

variable (enc dec : Nat → Data → Data) (vmas : List AnonVma)

def LifeStep (s : Life Data) (op : LifeOp Data) (s' : Life Data) : Prop :=
  lifeStep enc dec vmas s op = some s'

/-- Whatever the step hands to `submit_bio` is ciphertext. -/
def NeverPlaintext (s : Life Data) : LifeOp Data → Prop
  | .swapWritepage bio gfpIo => ∀ s', LifeStep enc dec vmas s (.swapWritepage bio gfpIo) s' →
      SubmitsCiphertext enc s s'
  | _ => True

def SubmitsTracked (s : Life Data) : LifeOp Data → Prop
  | .swapWritepage bio gfpIo => submits s bio gfpIo = true → s.tracked = true
  | _ => True

structure FreshLife (s : Life Data) : Prop where
  unused : UnusedClear s
  page : ∃ p, s.page = some p ∧ p.swapCache = false ∧ p.writeback = false
  pte : ∃ d, s.pte = .present d
  bio : s.bio = none

theorem FreshLife.inv {s : Life Data} (h : FreshLife s) : LifeInv s := by
  obtain ⟨p, hPage, hCache, hWb⟩ := h.page
  exact ⟨h.unused, .resident p hPage hCache hWb h.pte h.bio⟩

variable {enc dec vmas}

/-- **One step** keeps the invariant, and shows no plaintext exactly if it
submits the page only while tracked. -/
theorem LifeStep.inv (hVmas : PrivateVmas vmas) {s s' : Life Data} {op : LifeOp Data}
    (h : LifeInv s) (hStep : LifeStep enc dec vmas s op s') :
    LifeInv s' ∧ (NeverPlaintext enc dec vmas s op ↔ SubmitsTracked s op) := by
  have hCopy := hStep
  unfold LifeStep lifeStep at hStep
  split at hStep
  case h_1 r p d hPage hPte =>
    split at hStep
    · cases hStep
    · rename_i hGuard
      cases hStep
      simp only [Bool.or_eq_true, Bool.and_eq_true, bne_iff_ne, ne_eq, beq_iff_eq, not_or,
        not_and, not_not, Bool.not_eq_true] at hGuard
      obtain ⟨⟨⟨hCache, hWb⟩, hFree⟩, hSc⟩ := hGuard
      exact ⟨shrinkPageList_inv hVmas h hPage hPte hCache hWb hFree hSc, Iff.rfl⟩
  case h_2 p d hPage hPte =>
    split at hStep
    · cases hStep
    · rename_i hGuard
      cases hStep
      simp only [Bool.or_eq_true, Bool.not_eq_true', not_or, Bool.not_eq_false,
        Bool.not_eq_true] at hGuard
      exact ⟨tryToUnmap_inv h hPage hPte hGuard.1 hGuard.2, Iff.rfl⟩
  case h_3 bio gfpIo p hPage =>
    split at hStep
    · cases hStep
    · rename_i hGuard
      simp only [Bool.or_eq_true, Bool.not_eq_true', not_or, Bool.not_eq_false,
        Bool.not_eq_true] at hGuard
      obtain ⟨⟨hCache, hWb⟩, hDirty⟩ := hGuard
      obtain ⟨hInv, hIff⟩ := swapWritepage_inv h hPage hCache hWb hDirty hStep
      refine ⟨hInv, ⟨fun hNever => hIff.mp (hNever s' hCopy), fun hTracked s'' hStep'' => ?_⟩⟩
      obtain rfl : s' = s'' := Option.some.inj (hCopy.symm.trans hStep'')
      exact hIff.mpr hTracked
  case h_4 uptodate p hPage =>
    obtain ⟨b, hBio, hStep⟩ := Option.bind_eq_some_iff.mp hStep
    exact ⟨endSwapBioWrite_inv h hPage hBio hStep, Iff.rfl⟩
  case h_5 data p hPage =>
    cases hStep
    exact ⟨setPageDirty_inv h hPage data, Iff.rfl⟩
  case h_6 gfpIo p hPage =>
    cases hStep
    exact ⟨tryToFreeSwap_inv h hPage gfpIo, Iff.rfl⟩
  case h_7 p d hPage hPte =>
    cases hStep
    exact ⟨reuseSwapPage_inv h hPage hPte, Iff.rfl⟩
  case h_8 p e hPage hPte =>
    split at hStep
    · cases hStep
    · rename_i hGuard
      cases hStep
      simp only [Bool.or_eq_true, Bool.not_eq_true', not_or, Bool.not_eq_false,
        Bool.not_eq_true] at hGuard
      obtain ⟨⟨hCache, hDirty⟩, hWb⟩ := hGuard
      exact ⟨removeMapping_inv h hPage hPte hCache hDirty hWb, Iff.rfl⟩
  case h_9 write frame vmSwapFull gfpIo p e hPage hPte =>
    split at hStep
    · rename_i hGuard
      cases hStep
      have hCache : p.swapCache = true := (Bool.and_eq_true_iff.mp hGuard).1
      exact ⟨mapSwapPage_inv h hPage hPte hCache write vmSwapFull gfpIo, Iff.rfl⟩
    · cases hStep
  case h_10 write frame vmSwapFull gfpIo e hPage hPte =>
    cases hStep
    exact ⟨mapSwapPage_inv (readSwapCacheAsync_inv h hPage hPte frame) rfl hPte rfl write
      vmSwapFull gfpIo, Iff.rfl⟩
  case h_11 => cases hStep

end Runs

/-- **Private swap and plaintext.** In a run of the life of a private page,
every page handed to `submit_bio` is the scratch page with the ciphertext
exactly when the page is never submitted untracked: each time, the `add_to_priv`
that followed the last `add_to_swap` has succeeded, and no write under that
swap entry has completed since. -/
theorem swap_never_plaintext_iff (enc dec : Nat → Data → Data) {vmas : List AnonVma}
    (hVmas : PrivateVmas vmas) {s : Life Data} {tr : Trace (Life Data) (LifeOp Data)}
    (hFresh : FreshLife s) (hTr : IsTrace (LifeStep enc dec vmas) s tr) :
    EachStep (NeverPlaintext enc dec vmas) s tr ↔ EachStep SubmitsTracked s tr := by
  refine eachStep_iff_of_inv (fun s op s' h hStep hC => ?_) (fun s op s' h hStep hP => ?_)
    hFresh.inv hTr
  · obtain ⟨hInv, hIff⟩ := hStep.inv hVmas h
    exact ⟨hIff.mpr hC, hInv⟩
  · exact (hStep.inv hVmas h).2.mp hP

/-- A mapped private page in frame 5, all swap entries unused. -/
def freshPage : Life Nat where
  priv := {
    tree := fun _ => none
    ctxs := fun ctx => if ctx = 1 then some ⟨1, 0⟩ else none
    pagePrivate := fun _ => 0
    mem := fun frame => frame }
  swapMap := fun _ => .unused
  page := some { frame := 5, swapCache := false, dirty := true, writeback := false }
  pte := .present true
  bio := none
  disk := fun _ => 0
  tracked := false

theorem freshPage_fresh : FreshLife freshPage :=
  ⟨fun _ _ => rfl, ⟨_, rfl, rfl, rfl⟩, ⟨true, rfl⟩, rfl⟩

def freshPageVmas : List AnonVma := [⟨1, some 1⟩]

theorem freshPageVmas_private : PrivateVmas freshPageVmas :=
  ⟨by decide, by decide, by decide⟩

/-- A reclaim pass that gets swap entry 3; `scratch` is the scratch page, if there is one. -/
def reclaimPass (scratch : Option Nat) : ReclaimOutcome where
  swapEntry := 3
  cacheInsert := true
  alloc := ⟨scratch, true, true, true⟩
  vmSwapFull := false
  gfpIo := true

theorem firstWrite_neverPlaintext :
    ∃ tr : Trace (Life Nat) (LifeOp Nat), tr.map Prod.fst =
        [.shrinkPageList (reclaimPass (some 9)), .tryToUnmap, .swapWritepage true true] ∧
      EachStep (NeverPlaintext (fun _ d => d + 1000) (fun _ d => d - 1000) freshPageVmas)
        freshPage tr := by
  have hTr : IsTrace (LifeStep (fun _ d => d + 1000) (fun _ d => d - 1000) freshPageVmas)
      freshPage [(.shrinkPageList (reclaimPass (some 9)), _), (.tryToUnmap, _),
        (.swapWritepage true true, _)] :=
    ⟨rfl, rfl, rfl, trivial⟩
  refine ⟨_, rfl, (swap_never_plaintext_iff _ _ freshPageVmas_private freshPage_fresh hTr).mpr ?_⟩
  exact ⟨trivial, trivial, fun _ => rfl, trivial⟩

/-- Without memory for a scratch page the page stays in the swap cache, and the next pass writes
it. With memory throughout, a page written to while its ciphertext is on the way to the disk is
written again under the same entry once that has completed. -/
theorem swap_plaintext :
    (∃ tr : Trace (Life Nat) (LifeOp Nat), tr.map Prod.fst =
        [.shrinkPageList (reclaimPass none), .tryToUnmap, .swapWritepage true true] ∧
      IsTrace (LifeStep (fun _ d => d + 1000) (fun _ d => d - 1000) freshPageVmas) freshPage tr ∧
      ¬ EachStep (NeverPlaintext (fun _ d => d + 1000) (fun _ d => d - 1000) freshPageVmas)
        freshPage tr) ∧
    ∃ tr : Trace (Life Nat) (LifeOp Nat), tr.map Prod.fst =
        [.shrinkPageList (reclaimPass (some 9)), .tryToUnmap, .swapWritepage true true,
          .doSwapPage true 0 false true, .endSwapBioWrite true, .tryToUnmap,
          .swapWritepage true true] ∧
      IsTrace (LifeStep (fun _ d => d + 1000) (fun _ d => d - 1000) freshPageVmas) freshPage tr ∧
      ¬ EachStep (NeverPlaintext (fun _ d => d + 1000) (fun _ d => d - 1000) freshPageVmas)
        freshPage tr := by
  constructor
  · refine ⟨[(_, _), (_, _), (_, _)], rfl, ⟨rfl, rfl, rfl, trivial⟩, fun hAll => ?_⟩
    obtain ⟨-, -, -, hNe, -⟩ := hAll.2.2.1 _ rfl _ _ rfl rfl
    exact hNe rfl
  · refine ⟨[(_, _), (_, _), (_, _), (_, _), (_, _), (_, _), (_, _)], rfl,
      ⟨rfl, rfl, rfl, rfl, rfl, rfl, rfl, trivial⟩, fun hAll => ?_⟩
    obtain ⟨-, -, -, hNe, -⟩ := hAll.2.2.2.2.2.2.1 _ rfl _ _ rfl rfl
    exact hNe rfl

end Lacuna.Swap
