import Mathlib.Algebra.Group.Nat.Defs
import Mathlib.Data.List.Sort
import Lacuna.Swap.Cleanup

/-!
# Private swap — which descriptors the cleanup loop touches

`delete_all_from_priv` of `mm/privos.c` with a record of the descriptors it reads and
of the calls to `swapcache_free`. After a batch the next index comes from
`victims[found - 1]->entry`; the visit of that victim may have released it.

Modelling conventions:

* a released descriptor's memory holds whatever its next owner has put there:
  `stale` gives what each batch would find in it;
* `index` is an `unsigned long` and wraps;
* a loop that has used up its turns is still running.
-/

namespace Lacuna.Swap

open List

/-! ## The loop with its accesses -/

/-- What the loop does with the descriptor under a key: it reads a field, of one that is there
or of one that is gone, or hands the entry to `swapcache_free`. -/
inductive Access where
  | read (e : Nat) (live : Bool)
  | swapcacheFree (e : Nat)
  deriving DecidableEq

inductive Progress where
  | returned
  | blocked
  | running
  deriving DecidableEq

variable {Data : Type}

def visitAccesses (s : SwapTree Data) (e : Nat) : List Access :=
  match s.priv.tree e with
  | none => [.read e false]
  | some swpd => .read e true :: if swpd.page.isSome then [.swapcacheFree e] else []

def visitAllAccesses (held : Nat) : List Nat → SwapTree Data → List Access
  | [], _ => []
  | e :: es, s =>
    visitAccesses s e ++
      match visit held s e with
      | (true, _) => []
      | (false, t) => visitAllAccesses held es t

/-- The loop of `delete_all_from_priv`, for at most that many batches. -/
def deleteAllLoop (held : Nat) : Nat → (Nat → Nat) → Nat → SwapTree Data →
    List Access × Progress × SwapTree Data
  | 0, _, _, s => ([], .running, s)
  | turns + 1, stale, index, s =>
    let victims := gangLookup s index 64
    match victims.getLast? with
    | none => ([], .returned, s)
    | some last =>
      let accesses := visitAllAccesses held victims s
      match visitAll held victims s with
      | (true, t) => (accesses, .blocked, t)
      | (false, t) =>
        let live := (t.priv.tree last).isSome
        let entry := if live then last else stale 0
        let rest := deleteAllLoop held turns (fun n => stale (n + 1)) ((entry + 1) % 2 ^ 64) t
        (accesses ++ .read last live :: rest.1, rest.2)

/-- The visit of `e` frees the slot, and with it the descriptor. -/
def freesSlot (s : SwapTree Data) (e : Nat) : Bool :=
  (s.priv.tree e).any fun swpd => swpd.page.isSome && e != 0 && s.swapMap e == ⟨0, true⟩

/-- The keys that end a batch: every 64th and the last. -/
def batchEnds : List Nat → List Nat
  | [] => []
  | e :: keys => (keys.take 63).getLastD e :: batchEnds (keys.drop 63)
termination_by keys => keys.length
decreasing_by simp only [List.length_drop, List.length_cons]; omega

/-- The last page of `held` is among those that the visits of `keys` release. -/
def Blocks (held : Nat) (s : SwapTree Data) (keys : List Nat) : Prop :=
  ∃ p : Int, s.priv.ctxs held = some ⟨0, p⟩ ∧ 0 < p ∧ p ≤ keys.countP (releases held s)

/-! ## What the visits of a batch release -/

section Visits

variable {held e : Nat} {s t : SwapTree Data} {l : List Nat} {hung : Bool}

theorem freesSlot_congr (hTree : t.priv.tree e = s.priv.tree e)
    (hMap : t.swapMap e = s.swapMap e) : freesSlot t e = freesSlot s e := by
  rw [freesSlot, freesSlot, hTree, hMap]

theorem visit_frees (h : visit held s e = (hung, t)) (hSome : (s.priv.tree e).isSome) :
    if freesSlot s e then t.priv.tree e = none
    else (t.priv.tree e).isSome ∧ freesSlot t e = false := by
  obtain ⟨swpd, hTree⟩ := Option.isSome_iff_exists.mp hSome
  have hSelf := (visit_visited h).self swpd hTree
  rw [freesSlot, hTree, Option.any_some]
  rw [cleaned] at hSelf
  by_cases hCond : swpd.page.isSome ∧ e ≠ 0 ∧ (s.swapMap e).hasCache = true
  · rw [if_pos hCond] at hSelf
    by_cases hZero : (s.swapMap e).count = 0
    · rw [if_pos hZero] at hSelf
      have hSlot : s.swapMap e = ⟨0, true⟩ :=
        (SwapCount.mk.injEq ..).mpr ⟨hZero, hCond.2.2⟩
      rw [if_pos (by simp [hCond.1, hCond.2.1, hSlot])]
      exact (Prod.mk.inj hSelf).1
    · rw [if_neg hZero] at hSelf
      have hSlot : s.swapMap e ≠ ⟨0, true⟩ := fun hEq => hZero (by rw [hEq])
      rw [if_neg (by simp [hSlot])]
      obtain ⟨hTree', hMap'⟩ := Prod.mk.inj hSelf
      simp [freesSlot, hTree', hMap']
  · rw [if_neg hCond] at hSelf
    obtain ⟨hTree', hMap'⟩ := Prod.mk.inj hSelf
    have hNot : ¬ (swpd.page.isSome && e != 0 && s.swapMap e == ⟨0, true⟩) = true := by
      intro hAll
      simp only [Bool.and_eq_true, bne_iff_ne, beq_iff_eq] at hAll
      exact hCond ⟨hAll.1.1, hAll.1.2, by rw [hAll.2]⟩
    rw [if_neg hNot]
    refine ⟨by rw [hTree']; rfl, ?_⟩
    rw [freesSlot, hTree', hMap', Option.any_some]
    exact Bool.eq_false_iff.mpr hNot

theorem visitAll_frees (hNodup : l.Nodup) (he : e ∈ l) (h : visitAll held l s = (false, t))
    (hSome : (s.priv.tree e).isSome) :
    if freesSlot s e then t.priv.tree e = none
    else (t.priv.tree e).isSome ∧ freesSlot t e = false := by
  induction l generalizing s with
  | nil => cases he
  | cons x l ih =>
    obtain ⟨hNot, hNodup⟩ := List.nodup_cons.mp hNodup
    rcases hVisit : visit held s x with ⟨b, u⟩
    simp only [visitAll, hVisit] at h
    cases b with
    | true => cases (Prod.mk.inj h).1
    | false =>
      by_cases hEq : e = x
      · subst hEq
        obtain ⟨hTree, hMap⟩ := visitAll_of_not_mem hNot h
        rw [hTree, freesSlot_congr hTree hMap]
        exact visit_frees hVisit hSome
      · have hu := visit_visited hVisit
        have hTree := hu.tree_of_ne e hEq
        rw [← freesSlot_congr hTree (hu.swapMap_of_ne e hEq)]
        exact ih hNodup ((List.mem_cons.mp he).resolve_left hEq) h (hTree ▸ hSome)

theorem releaseEntry_of_mapped (h : releaseEntry held s e = (hung, t))
    (he : e ≠ 0) (hSome : (s.priv.tree e).isSome)
    (hMapped : ∀ p, s.priv.ctxs held ≠ some ⟨0, p⟩) :
    hung = false ∧ ∀ p, t.priv.ctxs held ≠ some ⟨0, p⟩ := by
  obtain ⟨swpd, hTree⟩ := Option.isSome_iff_exists.mp hSome
  obtain ⟨-, -, -, hHung, hCtxs⟩ := releaseEntry_eq he hTree h
  have hNot : hung = false := by
    rw [hHung, putBlocks]
    by_cases hCtx : swpd.ctx = held
    · cases hk : s.priv.ctxs held with
      | none => simp [hCtx, hk]
      | some k =>
        have hMap : k.mapcount ≠ 0 := fun hZero => hMapped k.pagecount (by rw [hk, ← hZero])
        simp [hCtx, hk, hMap]
    · simp [hCtx]
  refine ⟨hNot, fun p hp => ?_⟩
  rw [hCtxs, hNot, if_neg Bool.false_ne_true] at hp
  by_cases hCtx : swpd.ctx = held
  · -- dropping a page leaves the mappings as they are
    rw [hCtx, privCtxEntryPut] at hp
    simp only [Function.update_self, Option.bind_eq_some_iff] at hp
    obtain ⟨k, hk, hPut⟩ := hp
    split at hPut
    · cases hPut
    · have hZero : k.mapcount = 0 := congrArg PrivCipherCtx.mapcount (Option.some.inj hPut)
      exact hMapped k.pagecount (by rw [hk, ← hZero])
  · exact hMapped p ((Function.update_of_ne (Ne.symm hCtx) _ _).symm.trans hp)

theorem visit_of_mapped (h : visit held s e = (hung, t))
    (hMapped : ∀ p, s.priv.ctxs held ≠ some ⟨0, p⟩) :
    hung = false ∧ ∀ p, t.priv.ctxs held ≠ some ⟨0, p⟩ := by
  unfold visit at h
  cases hTree : s.priv.tree e with
  | none =>
    rw [hTree] at h
    obtain ⟨rfl, rfl⟩ := Prod.mk.inj h
    exact ⟨rfl, hMapped⟩
  | some swpd =>
    rw [hTree] at h
    obtain ⟨hTree', hCtxs, hMap, -⟩ := clearIfSwapped_eq hTree
    rw [← hCtxs] at hMapped
    simp only [swapcacheFree] at h
    split at h
    next =>
      split at h
      next =>
        obtain ⟨rfl, rfl⟩ := Prod.mk.inj h
        exact ⟨rfl, hMapped⟩
      next hUsed =>
        split at h
        next =>
          refine releaseEntry_of_mapped h (not_or.mp hUsed).1 ?_ hMapped
          show ((clearIfSwapped s e).priv.tree e).isSome
          rw [hTree', Function.update_self]
          rfl
        next =>
          obtain ⟨rfl, rfl⟩ := Prod.mk.inj h
          exact ⟨rfl, hMapped⟩
    next =>
      obtain ⟨rfl, rfl⟩ := Prod.mk.inj h
      exact ⟨rfl, hMapped⟩

theorem visitAll_of_mapped (hMapped : ∀ p, s.priv.ctxs held ≠ some ⟨0, p⟩) :
    (visitAll held l s).1 = false := by
  induction l generalizing s with
  | nil => rfl
  | cons x l ih =>
    rcases hVisit : visit held s x with ⟨b, u⟩
    obtain ⟨rfl, hMapped'⟩ := visit_of_mapped hVisit hMapped
    simp only [visitAll, hVisit]
    exact ih hMapped'

theorem visitAll_blocks_iff (hNodup : l.Nodup) :
    (visitAll held l s).1 = true ↔ Blocks held s l := by
  by_cases hHeld : ∃ p, s.priv.ctxs held = some ⟨0, p⟩
  · obtain ⟨p, hp⟩ := hHeld
    have hVisits := visitAll_held hNodup hp (Prod.mk.eta (p := visitAll held l s)).symm
    split at hVisits
    next hCond => exact iff_of_true hVisits ⟨p, hp, hCond⟩
    next hCond =>
      refine iff_of_false (by simp [hVisits.1]) fun ⟨q, hq, hCond'⟩ => hCond ?_
      rw [hp] at hq
      cases hq
      exact hCond'
  · refine iff_of_false ?_ fun ⟨p, hp, _⟩ => hHeld ⟨p, hp⟩
    rw [visitAll_of_mapped fun p hp => hHeld ⟨p, hp⟩]
    exact Bool.false_ne_true

end Visits

/-! ## One batch -/

section Batch

variable {held index last x : Nat} {s t : SwapTree Data} {hung : Bool}

theorem batchEnds_eq {keys : List Nat} (hLast : (keys.take 64).getLast? = some last) :
    batchEnds keys = last :: batchEnds (keys.drop 64) := by
  cases keys with
  | nil => cases hLast
  | cons e keys =>
    rw [take_succ_cons, List.getLast?_cons] at hLast
    rw [batchEnds, List.getLastD_eq_getLast?, Option.some.inj hLast, drop_succ_cons]

theorem batchEnds_subset (keys : List Nat) : batchEnds keys ⊆ keys := by
  fun_induction batchEnds keys with
  | case1 => exact List.Subset.refl _
  | case2 e keys ih =>
    refine List.cons_subset.mpr ⟨?_, fun x hx => ?_⟩
    · rw [List.getLastD_eq_getLast?]
      cases hLast : (keys.take 63).getLast? with
      | none => exact mem_cons_self
      | some last =>
        exact mem_cons_of_mem e (mem_of_mem_take (List.mem_of_getLast? hLast))
    · exact mem_cons_of_mem e (mem_of_mem_drop (ih hx))

theorem keysFrom_pairwise : (keysFrom s index).Pairwise (· < ·) :=
  List.pairwise_lt_range.filter _

theorem keysFrom_nodup : (keysFrom s index).Nodup :=
  keysFrom_pairwise.imp Nat.ne_of_lt

theorem gangLookup_nodup : (gangLookup s index 64).Nodup :=
  keysFrom_nodup.sublist (take_sublist 64 _)

theorem keysFrom_of_none (hNone : (gangLookup s index 64).getLast? = none) :
    keysFrom s index = [] := by
  rw [List.getLast?_eq_none_iff, gangLookup] at hNone
  exact (List.take_eq_nil_iff.mp hNone).resolve_left (by decide)

theorem gangLookup_append (s : SwapTree Data) (index : Nat) :
    gangLookup s index 64 ++ (keysFrom s index).drop 64 = keysFrom s index :=
  take_append_drop 64 _

variable (hLast : (gangLookup s index 64).getLast? = some last)
include hLast

theorem le_last (hx : x ∈ gangLookup s index 64) : x ≤ last := by
  have hSorted : (gangLookup s index 64).Pairwise (· < ·) :=
    keysFrom_pairwise.sublist (take_sublist 64 _)
  obtain ⟨init, hInit⟩ := List.getLast?_eq_some_iff.mp hLast
  rw [hInit] at hSorted hx
  rcases List.mem_append.mp hx with hx | hx
  · exact Nat.le_of_lt ((List.pairwise_append.mp hSorted).2.2 x hx last mem_cons_self)
  · rw [List.mem_singleton.mp hx]

theorem mem_later_iff :
    x ∈ (keysFrom s index).drop 64 ↔ x ∈ keysFrom s index ∧ last < x := by
  constructor
  · intro hx
    have hSorted := @keysFrom_pairwise _ index s
    rw [← gangLookup_append s index] at hSorted
    exact ⟨mem_of_mem_drop hx,
      (List.pairwise_append.mp hSorted).2.2 last (List.mem_of_getLast? hLast) x hx⟩
  · rintro ⟨hx, hLt⟩
    rw [← gangLookup_append s index] at hx
    refine (List.mem_append.mp hx).resolve_left fun hMem => ?_
    exact absurd (le_last hLast hMem) (Nat.not_le_of_lt hLt)

variable (h : visitAll held (gangLookup s index 64) s = (hung, t))
include h

theorem later_unchanged (hLt : last < x) :
    t.priv.tree x = s.priv.tree x ∧ t.swapMap x = s.swapMap x :=
  visitAll_of_not_mem (fun hMem => absurd (le_last hLast hMem) (Nat.not_le_of_lt hLt)) h

theorem keysFrom_later : keysFrom t (last + 1) = (keysFrom s index).drop 64 := by
  refine keysFrom_pairwise.eq_of_mem_iff (keysFrom_pairwise.sublist (drop_sublist 64 _)) fun x => ?_
  have hIndex : index ≤ last := (mem_gangLookup (List.mem_of_getLast? hLast)).2.1
  rw [mem_later_iff hLast, mem_keysFrom, mem_keysFrom, visitAll_top h]
  constructor
  · rintro ⟨hTop, hLt, hSome⟩
    rw [(later_unchanged hLast h hLt).1] at hSome
    exact ⟨⟨hTop, by omega, hSome⟩, hLt⟩
  · rintro ⟨⟨hTop, -, hSome⟩, hLt⟩
    rw [← (later_unchanged hLast h hLt).1] at hSome
    exact ⟨hTop, hLt, hSome⟩

theorem later_frees_iff :
    (∀ e ∈ batchEnds (keysFrom t (last + 1)), freesSlot t e = false) ↔
      ∀ e ∈ batchEnds ((keysFrom s index).drop 64), freesSlot s e = false := by
  rw [keysFrom_later hLast h]
  refine forall₂_congr fun e he => ?_
  have hLt := ((mem_later_iff hLast).mp (batchEnds_subset _ he)).2
  obtain ⟨hTree, hMap⟩ := later_unchanged hLast h hLt
  rw [freesSlot_congr hTree hMap]

end Batch

/-! ## What a loop without stale reads has found -/

section Returns

variable {held index last turns : Nat} {stale : Nat → Nat} {s t : SwapTree Data}
  {accesses : List Access}

theorem deleteAllLoop_done (hNone : (gangLookup s index 64).getLast? = none) :
    deleteAllLoop held (turns + 1) stale index s = ([], .returned, s) := by
  simp only [deleteAllLoop, hNone]

theorem deleteAllLoop_blocked (hLast : (gangLookup s index 64).getLast? = some last)
    (hBatch : visitAll held (gangLookup s index 64) s = (true, t)) :
    deleteAllLoop held (turns + 1) stale index s =
      (visitAllAccesses held (gangLookup s index 64) s, .blocked, t) := by
  simp only [deleteAllLoop, hLast, hBatch]

theorem deleteAllLoop_batch (hLast : (gangLookup s index 64).getLast? = some last)
    (hBatch : visitAll held (gangLookup s index 64) s = (false, t)) :
    deleteAllLoop held (turns + 1) stale index s =
      let entry := if (t.priv.tree last).isSome then last else stale 0
      let rest := deleteAllLoop held turns (fun n => stale (n + 1)) ((entry + 1) % 2 ^ 64) t
      (visitAllAccesses held (gangLookup s index 64) s ++
        .read last (t.priv.tree last).isSome :: rest.1, rest.2) := by
  simp only [deleteAllLoop, hLast, hBatch]

/-- Behind the largest index the search starts again: with a descriptor there
that no visit releases, the loop does not end. -/
theorem not_returned_of_top (hIndex : index < 2 ^ 64)
    (hSome : (s.priv.tree (2 ^ 64 - 1)).isSome) (hKept : freesSlot s (2 ^ 64 - 1) = false) :
    (deleteAllLoop held turns stale index s).2.1 ≠ .returned := by
  induction turns generalizing stale index s with
  | zero => exact fun hEq => Progress.noConfusion hEq
  | succ turns ih =>
    have hMem : 2 ^ 64 - 1 ∈ keysFrom s index := by
      refine mem_keysFrom.mpr ⟨Nat.lt_of_not_le fun hTop => ?_, by omega, hSome⟩
      rw [s.tree_top _ hTop] at hSome
      exact Bool.false_ne_true hSome
    cases hLast : (gangLookup s index 64).getLast? with
    | none =>
      rw [keysFrom_of_none hLast] at hMem
      cases hMem
    | some last =>
      rcases hBatch : visitAll held (gangLookup s index 64) s with ⟨hung, t⟩
      cases hung with
      | true =>
        rw [deleteAllLoop_blocked hLast hBatch]
        exact fun hEq => Progress.noConfusion hEq
      | false =>
        rw [deleteAllLoop_batch hLast hBatch]
        have hStays : (t.priv.tree (2 ^ 64 - 1)).isSome ∧ freesSlot t (2 ^ 64 - 1) = false := by
          by_cases hVictim : 2 ^ 64 - 1 ∈ gangLookup s index 64
          · have hVisit := visitAll_frees gangLookup_nodup hVictim hBatch hSome
            rwa [hKept, if_neg Bool.false_ne_true] at hVisit
          · obtain ⟨hTree, hMap⟩ := visitAll_of_not_mem hVictim hBatch
            rw [hTree, freesSlot_congr hTree hMap]
            exact ⟨hSome, hKept⟩
        exact ih (Nat.mod_lt _ (by decide)) hStays.1 hStays.2

theorem conditions_of_returned (hTop : s.top ≤ 2 ^ 64)
    (h : deleteAllLoop held turns stale index s = (accesses, .returned, t))
    (hLive : ∀ e, Access.read e false ∉ accesses) :
    (∀ e ∈ batchEnds (keysFrom s index), freesSlot s e = false) ∧
      (visitAll held (keysFrom s index) s).1 = false ∧ 2 ^ 64 - 1 ∉ keysFrom s index := by
  induction turns generalizing stale index s accesses with
  | zero => cases (Prod.mk.inj (Prod.mk.inj h).2).1
  | succ turns ih =>
    cases hLast : (gangLookup s index 64).getLast? with
    | none =>
      rw [keysFrom_of_none hLast, batchEnds]
      exact ⟨fun e he => absurd he not_mem_nil, rfl, not_mem_nil⟩
    | some last =>
      rcases hBatch : visitAll held (gangLookup s index 64) s with ⟨hung, u⟩
      cases hung with
      | true =>
        rw [deleteAllLoop_blocked hLast hBatch] at h
        cases (Prod.mk.inj (Prod.mk.inj h).2).1
      | false =>
        rw [deleteAllLoop_batch hLast hBatch] at h
        obtain ⟨hAccesses, hRest⟩ := Prod.mk.inj h
        have hMem := List.mem_of_getLast? hLast
        obtain ⟨hLt, -, hSome⟩ := mem_gangLookup hMem
        -- the last victim has been read again after the batch, so it is still there
        have hThere : (u.priv.tree last).isSome = true := by
          cases hGone : (u.priv.tree last).isSome with
          | true => rfl
          | false =>
            refine absurd ?_ (hLive last)
            rw [← hAccesses, hGone]
            exact mem_append_right _ mem_cons_self
        have hVisit := visitAll_frees gangLookup_nodup hMem hBatch hSome
        have hKept : freesSlot s last = false := by
          cases hFrees : freesSlot s last with
          | false => rfl
          | true =>
            rw [hFrees, if_pos rfl] at hVisit
            rw [hVisit] at hThere
            cases hThere
        rw [hKept, if_neg Bool.false_ne_true] at hVisit
        simp only [hThere, if_true] at hRest hAccesses
        -- nor was it the largest index
        have hNotTop : last ≠ 2 ^ 64 - 1 := by
          rintro rfl
          refine absurd (congrArg Prod.fst hRest) (not_returned_of_top ?_ hThere hVisit.2)
          exact Nat.mod_lt _ (by decide)
        rw [Nat.mod_eq_of_lt (by omega)] at hRest hAccesses
        have hLater : ∀ e, Access.read e false ∉
            (deleteAllLoop held turns (fun n => stale (n + 1)) (last + 1) u).1 := by
          intro e he
          refine hLive e (hAccesses ▸ ?_)
          exact mem_append_right _ (mem_cons_of_mem _ he)
        obtain ⟨hEnds, hRuns, hLarge⟩ :=
          ih ((visitAll_top hBatch).trans_le hTop) (Prod.ext rfl hRest) hLater
        rw [later_frees_iff hLast hBatch] at hEnds
        rw [keysFrom_later hLast hBatch] at hRuns hLarge
        refine ⟨?_, ?_, fun hMax => ?_⟩
        · rw [batchEnds_eq hLast]
          exact List.forall_mem_cons.mpr ⟨hKept, hEnds⟩
        · rw [← gangLookup_append s index, visitAll_append, hBatch]
          exact hRuns
        · exact hLarge ((mem_later_iff hLast).mpr ⟨hMax, by omega⟩)

end Returns

/-! ## A loop that keeps the end of every batch -/

structure SoundAccesses (accesses : List Access) (keys : List Nat) : Prop where
  live : ∀ e, Access.read e false ∉ accesses
  once : ∀ e, accesses.count (.swapcacheFree e) ≤ 1
  within : ∀ e, Access.swapcacheFree e ∈ accesses → e ∈ keys
  visited : ∀ e ∈ keys, Access.read e true ∈ accesses

section Sound

variable {held index last e : Nat} {s t : SwapTree Data} {as bs : List Access} {l l' : List Nat}

theorem SoundAccesses.append (ha : SoundAccesses as l) (hb : SoundAccesses bs l')
    (hDisjoint : l.Disjoint l') : SoundAccesses (as ++ bs) (l ++ l') where
  live e he := (List.mem_append.mp he).elim (ha.live e) (hb.live e)
  once e := by
    have hOne := ha.once e
    have hTwo := hb.once e
    rw [count_append]
    by_cases hMem : Access.swapcacheFree e ∈ as
    · have hNot : Access.swapcacheFree e ∉ bs := fun hMem' =>
        hDisjoint (ha.within e hMem) (hb.within e hMem')
      rw [List.count_eq_zero.mpr hNot]
      exact hOne
    · rw [List.count_eq_zero.mpr hMem]
      omega
  within e he := List.mem_append.mpr ((List.mem_append.mp he).imp (ha.within e) (hb.within e))
  visited e he := List.mem_append.mpr ((List.mem_append.mp he).imp (ha.visited e) (hb.visited e))

theorem soundAccesses_nil : SoundAccesses [] [] where
  live _ := not_mem_nil
  once _ := Nat.zero_le 1
  within _ h := absurd h not_mem_nil
  visited _ h := absurd h not_mem_nil

theorem SoundAccesses.read (h : SoundAccesses as l) (e : Nat) :
    SoundAccesses (.read e true :: as) l where
  live x hx := h.live x (by simpa using hx)
  once x := by simpa [count_cons] using h.once x
  within x hx := h.within x (by simpa using hx)
  visited x hx := mem_cons_of_mem _ (h.visited x hx)

theorem visitAccesses_sound (hSome : (s.priv.tree e).isSome) :
    SoundAccesses (visitAccesses s e) [e] := by
  obtain ⟨swpd, hTree⟩ := Option.isSome_iff_exists.mp hSome
  rw [visitAccesses, hTree]
  refine ⟨fun x hx => ?_, fun x => ?_, fun x hx => ?_, fun x hx => ?_⟩
  · simp only at hx
    split at hx <;> simp at hx
  · simp only
    split
    · rw [count_cons_of_ne (by simp)]
      exact count_le_length
    · simp
  · simp only at hx
    split at hx <;> simp at hx
    exact List.mem_singleton.mpr hx
  · rw [List.mem_singleton.mp hx]
    exact mem_cons_self

theorem visitAllAccesses_sound (hNodup : l.Nodup) (hSome : ∀ e ∈ l, (s.priv.tree e).isSome)
    (h : (visitAll held l s).1 = false) : SoundAccesses (visitAllAccesses held l s) l := by
  induction l generalizing s with
  | nil => exact soundAccesses_nil
  | cons x l ih =>
    obtain ⟨hNot, hNodup⟩ := List.nodup_cons.mp hNodup
    rcases hVisit : visit held s x with ⟨b, u⟩
    simp only [visitAll, hVisit] at h
    cases b with
    | true => cases h
    | false =>
      simp only [visitAllAccesses, hVisit]
      refine (visitAccesses_sound (hSome x mem_cons_self)).append
        (ih hNodup (fun e he => ?_) h) fun e he he' => hNot (List.mem_singleton.mp he ▸ he')
      rw [(visit_visited hVisit).tree_of_ne e fun hEq => hNot (hEq ▸ he)]
      exact hSome e (mem_cons_of_mem x he)

theorem returns_of_conditions (n : Nat) (stale : Nat → Nat)
    (hLength : (keysFrom s index).length ≤ n)
    (hTop : s.top ≤ 2 ^ 64)
    (hEnds : ∀ e ∈ batchEnds (keysFrom s index), freesSlot s e = false)
    (hRuns : (visitAll held (keysFrom s index) s).1 = false)
    (hLarge : 2 ^ 64 - 1 ∉ keysFrom s index) :
    ∃ accesses t, deleteAllLoop held (n + 1) stale index s = (accesses, .returned, t) ∧
      SoundAccesses accesses (keysFrom s index) := by
  induction n generalizing stale index s with
  | zero =>
    have hNil : keysFrom s index = [] := List.length_eq_zero_iff.mp (Nat.le_zero.mp hLength)
    rw [hNil]
    exact ⟨_, _, deleteAllLoop_done (by rw [gangLookup, hNil]; rfl), soundAccesses_nil⟩
  | succ n ih =>
    cases hLast : (gangLookup s index 64).getLast? with
    | none =>
      rw [deleteAllLoop_done hLast, keysFrom_of_none hLast]
      exact ⟨_, _, rfl, soundAccesses_nil⟩
    | some last =>
      have hMem := List.mem_of_getLast? hLast
      obtain ⟨hLt, -, hSome⟩ := mem_gangLookup hMem
      rw [batchEnds_eq hLast, forall_mem_cons] at hEnds
      rw [← gangLookup_append s index, visitAll_append] at hRuns
      rcases hBatch : visitAll held (gangLookup s index 64) s with ⟨hung, t⟩
      rw [hBatch] at hRuns
      cases hung with
      | true => cases hRuns
      | false =>
        have hThere : (t.priv.tree last).isSome = true := by
          have hVisit := visitAll_frees gangLookup_nodup hMem hBatch hSome
          rw [hEnds.1, if_neg Bool.false_ne_true] at hVisit
          exact hVisit.1
        have hNotTop : last ≠ 2 ^ 64 - 1 := fun hEq =>
          hLarge (hEq ▸ mem_of_mem_take hMem)
        have hKeys := keysFrom_later hLast hBatch
        obtain ⟨accesses, u, hRest, hSound⟩ := ih (fun n => stale (n + 1)) (by
            have hPos := length_pos_of_mem (mem_of_mem_take hMem)
            rw [hKeys, length_drop]
            omega)
          ((visitAll_top hBatch).trans_le hTop) ((later_frees_iff hLast hBatch).mpr hEnds.2)
          (by rw [hKeys]; exact hRuns) (by rw [hKeys]; exact fun h => hLarge (mem_of_mem_drop h))
        refine ⟨visitAllAccesses held (gangLookup s index 64) s ++ .read last true :: accesses,
          u, ?_, ?_⟩
        · rw [deleteAllLoop_batch hLast hBatch, hThere]
          simp only [if_true]
          rw [Nat.mod_eq_of_lt (by omega), hRest]
        · have hNodup : (gangLookup s index 64 ++ (keysFrom s index).drop 64).Nodup := by
            rw [gangLookup_append]
            exact keysFrom_nodup
          rw [hKeys] at hSound
          rw [← gangLookup_append s index]
          refine (visitAllAccesses_sound gangLookup_nodup (fun e he => (mem_gangLookup he).2.2)
            (congrArg Prod.fst hBatch)).append (hSound.read last) ?_
          exact disjoint_of_nodup_append hNodup

end Sound

/-! ## Main results -/

/-- **The bulk cleanup.** -/
theorem cleanup_iff (held : Nat) (s : SwapTree Data) (stale : Nat → Nat)
    (hTop : s.top ≤ 2 ^ 64) :
    (∃ turns accesses t, deleteAllLoop held turns stale 0 s = (accesses, .returned, t) ∧
      (∀ e, Access.read e false ∉ accesses) ∧
      (∀ e, accesses.count (.swapcacheFree e) ≤ 1) ∧
      ∀ e, (s.priv.tree e).isSome → Access.read e true ∈ accesses) ↔
    (∀ e ∈ batchEnds (keysFrom s 0), freesSlot s e = false) ∧ ¬ Blocks held s (keysFrom s 0) ∧
      s.priv.tree (2 ^ 64 - 1) = none := by
  have hKey : ∀ e, e ∈ keysFrom s 0 ↔ (s.priv.tree e).isSome := by
    intro e
    rw [mem_keysFrom]
    refine ⟨fun h => h.2.2, fun hSome => ⟨Nat.lt_of_not_le fun hLe => ?_, Nat.zero_le e, hSome⟩⟩
    rw [s.tree_top e hLe] at hSome
    exact Bool.false_ne_true hSome
  have hRuns : (visitAll held (keysFrom s 0) s).1 = false ↔ ¬ Blocks held s (keysFrom s 0) := by
    rw [← visitAll_blocks_iff keysFrom_nodup, Bool.not_eq_true]
  have hLarge : 2 ^ 64 - 1 ∉ keysFrom s 0 ↔ s.priv.tree (2 ^ 64 - 1) = none := by
    rw [hKey, Option.not_isSome_iff_eq_none]
  rw [← hRuns, ← hLarge]
  constructor
  · rintro ⟨turns, accesses, t, hLoop, hLive, -, -⟩
    exact conditions_of_returned hTop hLoop hLive
  · rintro ⟨hEnds, hNotBlocked, hNotLarge⟩
    obtain ⟨accesses, t, hLoop, hSound⟩ :=
      returns_of_conditions _ stale (Nat.le_refl _) hTop hEnds hNotBlocked hNotLarge
    exact ⟨_, accesses, t, hLoop, hSound.live, hSound.once,
      fun e he => hSound.visited e ((hKey e).mpr he)⟩

/-- One private page, in slot 5, that the swap cache alone keeps there. -/
def lastInCache : SwapTree Nat where
  priv :=
    { tree := fun e => if e = 5 then some ⟨1, some 7, none, 5, 1⟩ else none
      ctxs := fun c => if c = 1 then some ⟨1, 1⟩ else if c = 2 then some ⟨0, 0⟩ else none
      pagePrivate := fun _ => 0
      mem := fun _ => 0 }
  swapMap e := if e = 5 then ⟨0, true⟩ else .unused
  top := 6
  tree_top e he := if_neg (by omega)

def lastMapped : SwapTree Nat :=
  { lastInCache with swapMap := fun e => if e = 5 then ⟨1, true⟩ else .unused }

theorem cleanup_lastMapped :
    ∃ turns accesses t, deleteAllLoop 2 turns (fun _ => 0) 0 lastMapped = (accesses, .returned, t) ∧
      (∀ e, Access.read e false ∉ accesses) ∧
      (∀ e, accesses.count (.swapcacheFree e) ≤ 1) ∧
      ∀ e, (lastMapped.priv.tree e).isSome → Access.read e true ∈ accesses := by
  refine (cleanup_iff 2 lastMapped (fun _ => 0) (by decide)).mpr ⟨by decide +kernel, ?_, rfl⟩
  rintro ⟨p, hp, hPos, -⟩
  cases hp
  exact absurd hPos (by decide)

/-- The descriptor of slot 5 is read once more after it has been released. -/
theorem cleanup_stale_read :
    (deleteAllLoop 2 2 (fun _ => 0) 0 lastInCache).1 =
      [.read 5 true, .swapcacheFree 5, .read 5 false] ∧
    (deleteAllLoop 2 2 (fun _ => 0) 0 lastInCache).2.1 = .returned := by
  decide +kernel

end Lacuna.Swap
