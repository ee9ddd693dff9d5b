import Lacuna.Lib.Trace
import Lacuna.Swap.Isolation

/-!
# Private swap — releasing a context

`priv_ctx_put` when it drops the last holder, and what is left of the context
afterwards. The cleanup runs under `ctx->lock` and comes back to the context
through `swapcache_free`, `delete_from_priv` and `priv_ctx_entry_put`, which takes
that lock once the last page goes. Entries that the cleanup leaves in the tree
keep the context alive until they are deleted.
-/

namespace Lacuna.Swap

open Lacuna.Lib Function List

variable {Data : Type}

/-! ## The entries of a context -/

def entryOf (ctx : Nat) (s : SwapTree Data) (e : Nat) : Bool :=
  (s.priv.tree e).any fun swpd => swpd.ctx == ctx

def entriesOf (ctx : Nat) (s : SwapTree Data) : Nat :=
  (List.range s.top).countP (entryOf ctx s)

/-- An entry that the cleanup after `ctx` leaves in the tree. -/
def survives (ctx : Nat) (s : SwapTree Data) (e : Nat) : Bool :=
  entryOf ctx s e && !releases ctx s e

/-! ## Later runs -/

inductive LaterOp where
  /-- an entry is deleted, of this context or another: `swap_entry_free` of its
  slot, `priv_encrypt_page` of a page it does not know, an insertion that
  collides with it -/
  | delete (e : Nat)
  /-- anything that neither makes nor deletes an entry of the context -/
  | other
  deriving DecidableEq, Repr

/-- The entries and the counts of `ctx` are as they were. -/
structure LeavesAlone (ctx : Nat) (s t : SwapTree Data) : Prop where
  top : t.top = s.top
  ctxs : t.priv.ctxs ctx = s.priv.ctxs ctx
  entryOf : ∀ e, entryOf ctx t e = entryOf ctx s e

def LaterStep (ctx : Nat) (s : SwapTree Data) : LaterOp → SwapTree Data → Prop
  | .delete e, t => e ≠ 0 ∧ t = (s.clearSwappedBit e).delete e
  | .other, t => LeavesAlone ctx s t

/-- The number of times that the context is freed along a list of states. -/
def frees (ctx : Nat) : List (SwapTree Data) → Nat
  | s :: t :: rest =>
    (if (s.priv.ctxs ctx).isSome ∧ t.priv.ctxs ctx = none then 1 else 0) + frees ctx (t :: rest)
  | _ => 0

/-- A deletion of an entry of the context finds it allocated. -/
def FindsCtx (ctx : Nat) (s : SwapTree Data) : LaterOp → Prop
  | .delete e => entryOf ctx s e = true → (s.priv.ctxs ctx).isSome = true
  | .other => True

/-- **The release protocol.** The last holder's `priv_ctx_put` does not wait for
its own lock. In every later run no deletion touches a context that has been
freed, the context is there only as long as it has pages, and when its
entries are gone it has been freed exactly once. -/
def ReleaseProtocol (ctx : Nat) (s : SwapTree Data) : Prop :=
  (privCtxPut ctx s).1 = false ∧
    ∀ tr : Trace (SwapTree Data) LaterOp, IsTrace (LaterStep ctx) (privCtxPut ctx s).2 tr →
      EachStep (FindsCtx ctx) (privCtxPut ctx s).2 tr ∧
      EachState (fun t => ∀ k, t.priv.ctxs ctx = some k → k.mapcount = 0 ∧ k.pagecount ≠ 0)
        (privCtxPut ctx s).2 tr ∧
      frees ctx (s :: (privCtxPut ctx s).2 :: tr.map Prod.snd) =
        if entriesOf ctx (lastState (privCtxPut ctx s).2 tr) = 0 then 1 else 0

/-! ## What `priv_ctx_put` leaves -/

section Put

variable {ctx e : Nat} {s t : SwapTree Data}

theorem entryOf_eq_true : entryOf ctx s e = true ↔ ∃ swpd, s.priv.tree e = some swpd ∧ swpd.ctx = ctx := by
  simp only [entryOf, Option.any_eq_true, beq_iff_eq]

theorem entryOf_of_releases (h : releases ctx s e = true) : entryOf ctx s e = true := by
  simp only [releases, Option.any_eq_true, Bool.and_eq_true, beq_iff_eq] at h
  obtain ⟨swpd, hTree, ⟨⟨hCtx, -⟩, -⟩, -⟩ := h
  exact entryOf_eq_true.mpr ⟨swpd, hTree, hCtx⟩

theorem lt_top_of_entryOf (h : entryOf ctx s e = true) : e < s.top := by
  obtain ⟨swpd, hTree, -⟩ := entryOf_eq_true.mp h
  by_contra hGe
  rw [s.tree_top e (Nat.le_of_not_lt hGe)] at hTree
  cases hTree

theorem entriesOf_eq_add (ctx : Nat) (s : SwapTree Data) : entriesOf ctx s =
    (range s.top).countP (releases ctx s) + (range s.top).countP (survives ctx s) := by
  unfold entriesOf
  induction range s.top with
  | nil => rfl
  | cons e l ih =>
    have hSplit : (if entryOf ctx s e = true then 1 else 0) =
        (if releases ctx s e = true then 1 else 0) + if survives ctx s e = true then 1 else 0 := by
      by_cases hRel : releases ctx s e = true
      · simp [survives, hRel, entryOf_of_releases hRel]
      · simp [survives, hRel]
    rw [countP_cons, countP_cons, countP_cons, ih, hSplit]
    omega

theorem exists_survives_iff :
    0 < (range s.top).countP (survives ctx s) ↔ ∃ e, survives ctx s e = true := by
  rw [countP_pos_iff]
  refine ⟨fun ⟨e, _, h⟩ => ⟨e, h⟩, fun ⟨e, h⟩ => ⟨e, List.mem_range.mpr ?_, h⟩⟩
  exact lt_top_of_entryOf (Bool.and_eq_true_iff.mp h).1

theorem entryOf_cleaned {swpd : PrivSwappedPage} (h : s.priv.tree e = some swpd)
    (hTree : t.priv.tree e = (cleaned e swpd (s.swapMap e)).1) :
    entryOf ctx t e = survives ctx s e := by
  have hSlot : s.swapMap e = ⟨0, true⟩ ↔ (s.swapMap e).hasCache = true ∧ (s.swapMap e).count = 0 := by
    generalize s.swapMap e = m
    obtain ⟨count, hasCache⟩ := m
    simp only [SwapCount.mk.injEq]
    exact and_comm
  simp only [survives, entryOf, releases, h, hTree, Option.any_some, cleaned]
  by_cases hCond : swpd.page.isSome ∧ e ≠ 0 ∧ (s.swapMap e).hasCache = true
  · rw [if_pos hCond]
    obtain ⟨hPage, he, hCache⟩ := hCond
    by_cases hCount : (s.swapMap e).count = 0
    · rw [if_pos hCount, hSlot.mpr ⟨hCache, hCount⟩]
      cases hCtx : swpd.ctx == ctx <;> simp [hPage, he]
    · have hNot : (s.swapMap e == ⟨0, true⟩) = false :=
        beq_eq_false_iff_ne.mpr fun hEq => hCount (hSlot.mp hEq).2
      rw [if_neg hCount, hNot]
      simp
  · rw [if_neg hCond]
    have hNot : (swpd.ctx == ctx && swpd.page.isSome && e != 0 && s.swapMap e == ⟨0, true⟩) =
        false := by
      by_contra hYes
      simp only [Bool.not_eq_false, Bool.and_eq_true, bne_iff_ne, beq_iff_eq] at hYes
      obtain ⟨⟨⟨-, hPage⟩, he⟩, hEq⟩ := hYes
      exact hCond ⟨hPage, he, (hSlot.mp hEq).1⟩
    rw [hNot]
    simp

/-- **What the last holder's `priv_ctx_put` leaves**, unless it hangs. -/
theorem privCtxPut_left {p : Int} (hLast : s.priv.ctxs ctx = some ⟨1, p⟩)
    (hPut : privCtxPut ctx s = (false, t)) :
    ¬ (0 < p ∧ p ≤ (range s.top).countP (releases ctx s)) ∧ t.top = s.top ∧
      (∀ e, entryOf ctx t e = survives ctx s e) ∧
      t.priv.ctxs ctx = if p - (range s.top).countP (releases ctx s) = 0 then none
        else some ⟨0, p - (range s.top).countP (releases ctx s)⟩ := by
  have hCtx : (s.setCtx ctx (some ⟨0, p⟩)).priv.ctxs ctx = some ⟨0, p⟩ := update_self ..
  simp only [privCtxPut, hLast, if_true] at hPut
  rcases hAll : deleteAllFromPriv ctx (s.setCtx ctx (some ⟨0, p⟩)) with ⟨hung, u⟩
  rw [hAll] at hPut
  cases hung with
  | true => cases hPut
  | false =>
    obtain rfl := (Prod.mk.inj hPut).2
    have hVisits := hAll
    rw [deleteAllFromPriv_eq] at hVisits
    have hHeld := visitAll_held nodup_range hCtx hVisits
    have hNot : ¬ (0 < p ∧ p ≤ (range s.top).countP (releases ctx s)) := by
      intro hHang
      cases (if_pos hHang).mp hHeld
    obtain ⟨-, hLeft⟩ := (if_neg hNot).mp hHeld
    refine ⟨hNot, (visitAll_top hVisits : u.top = _), fun e => ?_, ?_⟩
    · show entryOf ctx u e = _
      cases hTree : s.priv.tree e with
      | none =>
        have hNone : u.priv.tree e = none := visitAll_absent hVisits hTree
        simp only [survives, entryOf, hNone, hTree, Option.any_none, Bool.false_and]
      | some swpd =>
        have hAt := deleteAllFromPriv_at hCtx (show (s.setCtx ctx _).priv.tree e = some swpd from hTree)
        have hReach : Reached ctx p (s.setCtx ctx (some ⟨0, p⟩)) e := by
          have hLe : (range e).countP (releases ctx s) ≤
              (range s.top).countP (releases ctx s) := by
            refine List.Sublist.countP_le (List.range_sublist.mpr (Nat.le_of_lt ?_))
            exact lt_top_of_entryOf (entryOf_eq_true.mpr ⟨swpd, hTree, rfl⟩)
          have hSame : (range e).countP (releases ctx (s.setCtx ctx (some ⟨0, p⟩))) =
              (range e).countP (releases ctx s) := rfl
          unfold Reached
          omega
        rw [if_pos hReach, hAll] at hAt
        exact entryOf_cleaned hTree (congrArg Prod.fst hAt)
    · show update u.priv.ctxs ctx _ ctx = _
      rw [update_self, hLeft]
      rfl

/-- `priv_ctx_put` waits for its own lock exactly if the cleanup releases as many
entries as the context counts pages. -/
theorem privCtxPut_returns_iff {p : Int} (hLast : s.priv.ctxs ctx = some ⟨1, p⟩) :
    (privCtxPut ctx s).1 = false ↔
      ¬ (0 < p ∧ p ≤ (range s.top).countP (releases ctx s)) := by
  refine ⟨fun h => (privCtxPut_left hLast (Prod.ext h rfl)).1, fun hNot => ?_⟩
  have hCtx : (s.setCtx ctx (some ⟨0, p⟩)).priv.ctxs ctx = some ⟨0, p⟩ := update_self ..
  rw [(privCtxPut_last hLast).2.2, deleteAllFromPriv_eq]
  have hHeld := visitAll_held (s := s.setCtx ctx (some ⟨0, p⟩)) (l := range s.top)
    nodup_range hCtx Prod.mk.eta.symm
  exact ((if_neg hNot).mp hHeld).1

end Put

/-! ## Later deletions -/

/-- The context is there as long as it has entries, and counts them. -/
def FreedWithEntries (ctx : Nat) (s : SwapTree Data) : Prop :=
  s.priv.ctxs ctx = if entriesOf ctx s = 0 then none else some ⟨0, entriesOf ctx s⟩

section Later

variable {ctx e : Nat} {s t : SwapTree Data}

variable {tr : Trace (SwapTree Data) LaterOp}

theorem entriesOf_congr (hTop : t.top = s.top) (h : ∀ e, entryOf ctx t e = entryOf ctx s e) :
    entriesOf ctx t = entriesOf ctx s := by
  rw [entriesOf, entriesOf, hTop, funext h]

theorem entryOf_delete (he : e ≠ 0) (e' : Nat) :
    entryOf ctx ((s.clearSwappedBit e).delete e) e' = (entryOf ctx s e' && e' != e) := by
  have hTree : ((s.clearSwappedBit e).delete e).priv.tree = update s.priv.tree e none :=
    tree_deleteFromPriv_setSwappedBit s.priv he
  unfold entryOf
  rw [hTree]
  by_cases hEq : e' = e
  · rw [hEq, update_self, bne_self_eq_false, Bool.and_false, Option.any_none]
  · rw [update_of_ne hEq, bne_iff_ne.mpr hEq, Bool.and_true]

theorem entriesOf_delete (he : e ≠ 0) :
    entriesOf ctx ((s.clearSwappedBit e).delete e) =
      if entryOf ctx s e then entriesOf ctx s - 1 else entriesOf ctx s := by
  have hErase : entriesOf ctx ((s.clearSwappedBit e).delete e) =
      ((range s.top).erase e).countP (entryOf ctx s) := by
    rw [entriesOf, funext (entryOf_delete he), ← countP_filter,
      List.nodup_range.erase_eq_filter]
    rfl
  rw [hErase, countP_erase, entriesOf]
  by_cases hEntry : entryOf ctx s e = true
  · rw [if_pos hEntry, if_pos ⟨List.mem_range.mpr (lt_top_of_entryOf hEntry), hEntry⟩]
  · rw [if_neg hEntry, if_neg fun h => hEntry h.2, Nat.sub_zero]

variable (ctx s) in
theorem ctxs_delete_self (he : e ≠ 0) : ((s.clearSwappedBit e).delete e).priv.ctxs ctx =
    if entryOf ctx s e then (s.priv.ctxs ctx).bind fun k =>
        if k.mapcount = 0 ∧ k.pagecount - 1 = 0 then none
        else some { k with pagecount := k.pagecount - 1 }
      else s.priv.ctxs ctx := by
  cases hTree : s.priv.tree e with
  | none =>
    have hSame : ((s.clearSwappedBit e).delete e).priv.ctxs = s.priv.ctxs := by
      show (deleteFromPriv (setSwappedBit s.priv e 0) e).ctxs = _
      have hNone : (setSwappedBit s.priv e 0).tree e = none := tree_setSwappedBit_of_none hTree e 0
      unfold deleteFromPriv
      rw [hNone]
      split <;> rfl
    rw [hSame]
    simp only [entryOf, hTree, Option.any_none, Bool.false_eq_true, if_false]
  | some swpd =>
    rw [ctxs_delete he hTree]
    simp only [entryOf, hTree, Option.any_some, beq_iff_eq]
    by_cases hCtx : swpd.ctx = ctx
    · rw [if_pos hCtx, hCtx]
      exact Function.update_self ..
    · rw [if_neg hCtx]
      exact Function.update_of_ne (Ne.symm hCtx) _ _

/-- **One later step** keeps the count, and frees the context with its last
entry. -/
theorem FreedWithEntries.step (h : FreedWithEntries ctx s) {op : LaterOp}
    (hStep : LaterStep ctx s op t) : FreedWithEntries ctx t := by
  cases op with
  | other =>
    obtain ⟨hTop, hCtxs, hEntries⟩ := hStep
    rw [FreedWithEntries, entriesOf_congr hTop hEntries, hCtxs]
    exact h
  | delete e =>
    obtain ⟨he, rfl⟩ := hStep
    unfold FreedWithEntries at h ⊢
    rw [ctxs_delete_self ctx s he, entriesOf_delete he]
    by_cases hEntry : entryOf ctx s e = true
    · have hPos : entriesOf ctx s ≠ 0 := by
        refine Nat.ne_of_gt (List.countP_pos_iff.mpr ⟨e, ?_, hEntry⟩)
        exact List.mem_range.mpr (lt_top_of_entryOf hEntry)
      rw [if_pos hEntry, if_pos hEntry, h, if_neg hPos]
      by_cases hOne : entriesOf ctx s - 1 = 0
      · rw [if_pos hOne]
        exact if_pos ⟨rfl, show ((entriesOf ctx s : Nat) : Int) - 1 = 0 by omega⟩
      · rw [if_neg hOne]
        refine (if_neg fun hZero => hOne ?_).trans ?_
        · have hZero' : ((entriesOf ctx s : Nat) : Int) - 1 = 0 := hZero.2
          omega
        · have hSub : ((entriesOf ctx s - 1 : Nat) : Int) = (entriesOf ctx s : Int) - 1 := by omega
          rw [hSub]
    · rw [if_neg hEntry, if_neg hEntry]
      exact h

theorem LaterStep.gone {op : LaterOp} (hStep : LaterStep ctx s op t) (h : s.priv.ctxs ctx = none) :
    t.priv.ctxs ctx = none := by
  cases op with
  | other => rw [hStep.ctxs, h]
  | delete e =>
    obtain ⟨he, rfl⟩ := hStep
    rw [ctxs_delete_self ctx s he, h, Option.bind_none, ite_self]

theorem gone_of_run (hTr : IsTrace (LaterStep ctx) s tr)
    (h : s.priv.ctxs ctx = none) : (lastState s tr).priv.ctxs ctx = none := by
  have hKeep : ∀ (u : SwapTree Data) op u', u.priv.ctxs ctx = none →
      LaterStep ctx u op u' → True → u'.priv.ctxs ctx = none :=
    fun u op u' hu hStep _ => hStep.gone hu
  exact (eachState_of_inv (Q := fun u => u.priv.ctxs ctx = none) (fun _ hu => hu) hKeep h hTr
    (eachStep_trivial tr)).last

theorem frees_later (hTr : IsTrace (LaterStep ctx) s tr) :
    frees ctx (s :: tr.map Prod.snd) =
      if (s.priv.ctxs ctx).isSome ∧ (lastState s tr).priv.ctxs ctx = none then 1 else 0 := by
  induction tr generalizing s with
  | nil =>
    refine (if_neg fun h => ?_).symm
    rw [show s.priv.ctxs ctx = none from h.2] at h
    exact Bool.noConfusion h.1
  | cons p tr ih =>
    obtain ⟨op, t⟩ := p
    have hRest := ih hTr.2
    rw [map_cons] at *
    rw [frees, hRest]
    cases hCtx : s.priv.ctxs ctx with
    | none => simp [hTr.1.gone hCtx]
    | some k =>
      cases hNext : t.priv.ctxs ctx with
      | some k' => simp [lastState]
      | none =>
        simp [lastState, gone_of_run hTr.2 hNext]

theorem counted_of_runs {q : Int} (hZero : entryOf ctx s 0 = false)
    (hCtx : s.priv.ctxs ctx = some ⟨0, q⟩)
    (hRuns : ∀ tr : Trace (SwapTree Data) LaterOp, IsTrace (LaterStep ctx) s tr →
      ((lastState s tr).priv.ctxs ctx = none ↔ entriesOf ctx (lastState s tr) = 0)) :
    q = entriesOf ctx s := by
  -- delete the entries one by one
  induction hn : entriesOf ctx s generalizing s q with
  | zero =>
    have hNone := (hRuns [] trivial).mpr hn
    rw [show s.priv.ctxs ctx = none from hNone] at hCtx
    cases hCtx
  | succ n ih =>
    obtain ⟨e, -, hEntry⟩ := List.countP_pos_iff.mp (show 0 < entriesOf ctx s by omega)
    have he : e ≠ 0 := by
      rintro rfl
      rw [hZero] at hEntry
      exact Bool.noConfusion hEntry
    have hStep : LaterStep ctx s (.delete e) ((s.clearSwappedBit e).delete e) := ⟨he, rfl⟩
    have hLess : entriesOf ctx ((s.clearSwappedBit e).delete e) = n := by
      rw [entriesOf_delete he, if_pos hEntry, hn, Nat.add_sub_cancel]
    have hPut := ctxs_delete_self ctx s he
    rw [if_pos hEntry, hCtx, Option.bind_some] at hPut
    by_cases hOne : q - 1 = 0
    · rw [if_pos ⟨rfl, hOne⟩] at hPut
      have hDone := (hRuns [(.delete e, _)] ⟨hStep, trivial⟩).mp hPut
      change entriesOf ctx ((s.clearSwappedBit e).delete e) = 0 at hDone
      omega
    · rw [if_neg fun h => hOne h.2] at hPut
      change _ = some (PrivCipherCtx.mk 0 (q - 1)) at hPut
      have hNoZero : entryOf ctx ((s.clearSwappedBit e).delete e) 0 = false := by
        rw [entryOf_delete he, hZero, Bool.false_and]
      have hCount := ih hNoZero hPut (fun tr hTr => hRuns ((.delete e, _) :: tr) ⟨hStep, hTr⟩) hLess
      omega

theorem frees_put {k : PrivCipherCtx} (hSome : s.priv.ctxs ctx = some k) (hTr : IsTrace (LaterStep ctx) t tr) :
    frees ctx (s :: t :: tr.map Prod.snd) =
      if (lastState t tr).priv.ctxs ctx = none then 1 else 0 := by
  have hRest := frees_later hTr
  rw [frees, hRest, hSome]
  cases hNext : t.priv.ctxs ctx with
  | some k' => simp
  | none => simp [gone_of_run hTr hNext]

/-- **A whole later run** of a context that counts its entries. -/
theorem FreedWithEntries.run (h : FreedWithEntries ctx t) {k : PrivCipherCtx}
    (hSome : s.priv.ctxs ctx = some k)
    (hTr : IsTrace (LaterStep ctx) t tr) :
    EachStep (FindsCtx ctx) t tr ∧
      EachState (fun t => ∀ k, t.priv.ctxs ctx = some k → k.mapcount = 0 ∧ k.pagecount ≠ 0) t tr ∧
      frees ctx (s :: t :: tr.map Prod.snd) =
        if entriesOf ctx (lastState t tr) = 0 then 1 else 0 := by
  have hKeep : ∀ (u : SwapTree Data) op u', FreedWithEntries ctx u → LaterStep ctx u op u' → True →
      FreedWithEntries ctx u' := fun u op u' hu hStep _ => hu.step hStep
  refine ⟨?_, ?_, ?_⟩
  · have hFinds : ∀ (u : SwapTree Data) op u', FreedWithEntries ctx u → LaterStep ctx u op u' →
        True → FindsCtx ctx u op ∧ FreedWithEntries ctx u' := by
      intro u op u' hu hStep _
      refine ⟨?_, hu.step hStep⟩
      cases op with
      | other => trivial
      | delete e =>
        intro hEntry
        have hPos : entriesOf ctx u ≠ 0 := by
          refine Nat.ne_of_gt (List.countP_pos_iff.mpr ⟨e, ?_, hEntry⟩)
          exact List.mem_range.mpr (lt_top_of_entryOf hEntry)
        rw [show u.priv.ctxs ctx = _ from hu, if_neg hPos]
        rfl
    exact eachStep_of_inv hFinds h hTr (eachStep_trivial tr)
  · refine eachState_of_inv (fun u hu k hk => ?_) hKeep h hTr (eachStep_trivial tr)
    rw [show u.priv.ctxs ctx = _ from hu] at hk
    split at hk
    · cases hk
    · cases hk
      exact ⟨rfl, by simpa using ‹¬ entriesOf ctx u = 0›⟩
  · have hLast : FreedWithEntries ctx (lastState t tr) :=
      (eachState_of_inv (Q := FreedWithEntries ctx) (fun _ hu => hu) hKeep h hTr
        (eachStep_trivial tr)).last
    rw [frees_put hSome hTr, show (lastState t tr).priv.ctxs ctx = _ from hLast]
    by_cases hZero : entriesOf ctx (lastState t tr) = 0
    · simp [hZero]
    · simp [hZero]

end Later

/-! ## The protocol -/

section Protocol

variable {ctx : Nat} {s : SwapTree Data} {p : Int}

/-- **Releasing a context.** The lock is not taken twice and the context is freed exactly once,
with its last entry, exactly if `pagecount` counts the entries and, unless there is none, one of
them survives the cleanup. -/
theorem release_protocol_iff (hLast : s.priv.ctxs ctx = some ⟨1, p⟩)
    (hZero : s.priv.tree 0 = none) :
    ReleaseProtocol ctx s ↔ p = entriesOf ctx s ∧ (p = 0 ∨ ∃ e, survives ctx s e = true) := by
  have hSplit := entriesOf_eq_add ctx s
  rw [← exists_survives_iff]
  constructor
  · rintro ⟨hReturns, hRuns⟩
    obtain ⟨hNot, hTop, hEntries, hCtx⟩ := privCtxPut_left hLast (Prod.ext hReturns rfl)
    have hLeft : entriesOf ctx (privCtxPut ctx s).2 = (range s.top).countP (survives ctx s) := by
      rw [entriesOf, hTop, funext hEntries]
    have hGone : ∀ tr : Trace (SwapTree Data) LaterOp, IsTrace (LaterStep ctx) (privCtxPut ctx s).2 tr →
        ((lastState (privCtxPut ctx s).2 tr).priv.ctxs ctx = none ↔
          entriesOf ctx (lastState (privCtxPut ctx s).2 tr) = 0) := by
      intro tr hTr
      have hFrees := (hRuns tr hTr).2.2
      rw [frees_put hLast hTr] at hFrees
      split at hFrees <;> split at hFrees <;> simp_all
    have hCounts : p - (range s.top).countP (releases ctx s) =
        (range s.top).countP (survives ctx s) := by
      by_cases hDone : p - (range s.top).countP (releases ctx s) = 0
      · rw [if_pos hDone] at hCtx
        have hNone : entriesOf ctx (privCtxPut ctx s).2 = 0 := (hGone [] trivial).mp hCtx
        omega
      · rw [if_neg hDone] at hCtx
        have hNoZero : entryOf ctx (privCtxPut ctx s).2 0 = false := by
          rw [hEntries, survives, entryOf, hZero, Option.any_none, Bool.false_and]
        rw [counted_of_runs hNoZero hCtx hGone, hLeft]
    omega
  · rintro ⟨hCount, hSurvives⟩
    have hNot : ¬ (0 < p ∧ p ≤ (range s.top).countP (releases ctx s)) := by omega
    have hReturns := (privCtxPut_returns_iff hLast).mpr hNot
    obtain ⟨-, hTop, hEntries, hCtx⟩ := privCtxPut_left hLast (Prod.ext hReturns rfl)
    have hLeft : entriesOf ctx (privCtxPut ctx s).2 = (range s.top).countP (survives ctx s) := by
      rw [entriesOf, hTop, funext hEntries]
    have hInv : FreedWithEntries ctx (privCtxPut ctx s).2 := by
      have hSub : p - (range s.top).countP (releases ctx s) =
          (entriesOf ctx (privCtxPut ctx s).2 : Int) := by omega
      rw [FreedWithEntries, hCtx, hSub]
      simp only [Int.natCast_eq_zero]
    exact ⟨hReturns, fun tr hTr => hInv.run hLast hTr⟩

end Protocol

/-- The last entry of context 2 is in the swap cache alone: its release waits for
the lock that `priv_ctx_put` holds. -/
theorem put_waits_for_itself :
    oneWrittenOneCachedTree.priv.ctxs 2 = some ⟨1, 1⟩ ∧ entriesOf 2 oneWrittenOneCachedTree = 1 ∧
      (privCtxPut 2 oneWrittenOneCachedTree).1 = true ∧
      ¬ ReleaseProtocol 2 oneWrittenOneCachedTree := by
  have hHangs : (privCtxPut 2 oneWrittenOneCachedTree).1 = true := by
    rw [(privCtxPut_last (p := 1) (by decide)).2.2, deleteAllFromPriv_eq]
    decide
  refine ⟨by decide, by decide, hHangs, fun h => ?_⟩
  rw [h.1] at hHangs
  cases hHangs

theorem put_of_written : ReleaseProtocol 1 oneWrittenOneCachedTree :=
  (release_protocol_iff (p := 1) (by decide) (by decide)).mpr ⟨by decide, .inr ⟨1, by decide⟩⟩

end Lacuna.Swap
