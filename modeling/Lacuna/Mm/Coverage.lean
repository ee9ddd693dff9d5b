import Lacuna.Mm.Process
import Lacuna.Mm.Counting
import Lacuna.Swap.Privos

/-!
# Coverage of private address spaces

An area gets its context when it is linked, from the address space. In a private
address space all areas that are not shared should have its context (`Covered`):
`__add_to_priv` swaps out the others in the clear (`Covered.privateVmas`).

Here the address space is one that `bprm_mm_init` made for a private process. At most
one area is exposed, the stack: it is inserted before the context is installed, and
stays so until some operation settles it (`exec_covered_iff`). `priv_ctx_get` does not
fail: the context always has at least as many references as pointers.
-/

namespace Lacuna.Mm

open Lacuna.Lib List

variable {vma : Vma}

/-! ## Covered address spaces -/

/-- All areas that are not shared have the context of the address space. -/
def Covered (mm : MmStruct) : Prop :=
  ∀ vma ∈ mm.vmas, vma.shared = false → vma.privCtx = mm.privCtx

/-- The areas of a page of a covered address space that are not shared all have the one context. -/
theorem Covered.privateVmas {mm : MmStruct} (h : Covered mm) (hPrivate : mm.privCtx ≠ none)
    (k : Nat) {vmas : List Vma} (hNe : vmas ≠ [])
    (hIn : ∀ vma ∈ vmas, vma ∈ mm.vmas ∧ vma.shared = false) :
    Swap.PrivateVmas (vmas.map fun vma => { vmMm := k, privCtx := vma.privCtx }) where
  ne_nil := by simpa using hNe
  one_mm := by simp
  ctx := by
    intro v hv
    obtain ⟨vma, hVma, rfl⟩ := List.mem_map.mp hv
    obtain ⟨hMem, hUnshared⟩ := hIn vma hVma
    rw [h vma hMem hUnshared]
    exact Option.isSome_iff_ne_none.mpr hPrivate

/-- `add_to_priv` enters every page of areas that are not shared before it may be written out. -/
def TracksPages (mm : MmStruct) : Prop :=
  ∀ vmas : List Vma, vmas ≠ [] → (∀ vma ∈ vmas, vma ∈ mm.vmas ∧ vma.shared = false) →
    ∀ (st st' : Swap.Privos (List UInt8)) (o : Swap.PrivAlloc) (page : Nat),
      st.pagePrivate page ≠ 0 → st.tree (st.pagePrivate page) = none → o.scratch ≠ some page →
      Swap.addToPriv st o page 1 (some (vmas.map fun vma => ⟨0, vma.privCtx⟩)) = (true, st') →
      ∃ sc, Swap.Armed st' page (st.pagePrivate page) sc

/-- Not shared and without a context: its pages are swapped out in the clear. -/
def Vma.exposed (vma : Vma) : Bool := !vma.shared && vma.privCtx.isNone

def exposedCount (vmas : List Vma) : Nat := vmas.countP Vma.exposed

@[simp] theorem exposedCount_cons (vma : Vma) (vmas : List Vma) :
    exposedCount (vma :: vmas) = exposedCount vmas + if vma.exposed then 1 else 0 :=
  countP_cons

@[simp] theorem exposedCount_append (vmas vmas' : List Vma) :
    exposedCount (vmas ++ vmas') = exposedCount vmas + exposedCount vmas' :=
  countP_append

theorem exposedCount_perm {vmas vmas' : List Vma} (h : vmas.Perm vmas') :
    exposedCount vmas = exposedCount vmas' :=
  h.countP_eq _

theorem Vma.exposed_iff : vma.exposed = true ↔ vma.shared = false ∧ vma.privCtx = none := by
  simp [Vma.exposed]

def Vma.Own (m : Nat) (vma : Vma) : Prop := vma.privCtx = none ∨ vma.privCtx = some m

/-- An address space that only ever had the context `m`, which it holds. -/
structure OwnCtx (m : Nat) (T : CtxTable) (mm : MmStruct) : Prop where
  ctx : mm.privCtx = some m
  live : (T m).live = true
  /-- references are at least as many as pointers -/
  enough : 0 ≤ excess T mm.ptrs m
  own : ∀ vma ∈ mm.vmas, vma.Own m

section OwnCtx

variable {m : Nat} {T : CtxTable} {mm : MmStruct}

theorem OwnCtx.gettable (h : OwnCtx m T mm) : Gettable T mm.privCtx := by
  intro c hc
  rw [h.ctx] at hc
  cases hc
  have hEnough := h.enough
  rw [MmStruct.ptrs, h.ctx, excess_cons, pointsTo_self, excess] at hEnough
  exact ⟨h.live, by omega⟩

theorem OwnCtx.covered_iff (h : OwnCtx m T mm) : Covered mm ↔ exposedCount mm.vmas = 0 := by
  rw [exposedCount, countP_eq_zero]
  refine forall₂_congr fun vma hIn => ?_
  rw [Vma.exposed_iff, h.ctx]
  rcases h.own vma hIn with hNone | hSome
  · simp [hNone]
  · simp [hSome]

theorem OwnCtx.tracksPages_iff (h : OwnCtx m T mm) :
    TracksPages mm ↔ exposedCount mm.vmas = 0 := by
  rw [← h.covered_iff]
  constructor
  · intro hTracks vma hMem hUnshared
    refine (h.own vma hMem).elim (fun hNone => ?_) fun hSome => hSome.trans h.ctx.symm
    -- a page of an exposed area goes to swap entry 1
    let st : Swap.Privos (List UInt8) := ⟨fun _ => none, fun _ => none, fun _ => 1, fun _ => []⟩
    obtain ⟨_, _, hTree, -⟩ := hTracks [vma] (cons_ne_nil _ _) (by simpa using ⟨hMem, hUnshared⟩) st st
      ⟨none, true, true, true⟩ 0 Nat.one_ne_zero rfl nofun
      (by simp [Swap.addToPriv, Swap.scanAnonVma, hNone])
    cases hTree
  · intro hCovered vmas hNe hIn st st' o page he hNone hSc hAdd
    have hVmas := hCovered.privateVmas (by rw [h.ctx]; exact Option.some_ne_none m) 0 hNe hIn
    exact (Swap.addToPriv_private hVmas he hNone hSc hAdd).2.2

end OwnCtx

/-! ## What covers an exposed area -/

/-- Of two neighbours, one is exposed and the other has a context to give. -/
def PairSettles (vma next : Vma) : Prop :=
  vma.exposed = true ∧ next.privCtx ≠ none ∨ next.exposed = true ∧ vma.privCtx ≠ none

/-- `vma_adjust` gives an exposed area a context, or merges it away. -/
def AdjustSettles (endAddr : Nat) (insert : Bool) (clone : Nat → Bool) (vma : Vma)
    (rest : List Vma) : Prop :=
  match adjustKind endAddr insert clone vma rest with
  | .pair => ∃ next ∈ rest.head?, PairSettles vma next
  | .removes => ∃ gone ∈ removedNext clone endAddr rest,
      gone.exposed = true ∨ vma.exposed = true ∧ gone.privCtx ≠ none
  | _ => False

/-- The call unmaps, merges away or gives a context to an exposed area. -/
def MmCall.Settles (mm : MmStruct) : MmCall → Prop
  | .adjust i _ endAddr insert clone =>
    match mm.mmap.drop i with
    | [] => False
    | vma :: rest => AdjustSettles endAddr insert.isSome clone vma rest
  | .remove j => ∃ vma, mm.detached[j]? = some vma ∧ vma.exposed = true
  | _ => False

theorem propagate_exposed (T : CtxTable) (m : Nat) (vma next : Vma) :
    ((propagate T (some m) vma next).2.1.exposed = true ↔
      vma.exposed = true ∧ next.privCtx = none) ∧
    ((propagate T (some m) vma next).2.2.exposed = true ↔
      next.exposed = true ∧ vma.privCtx = none) := by
  cases hVma : vma.privCtx with
  | none =>
    cases hNext : next.privCtx with
    | none => simp [propagate, hVma, hNext]
    | some e => simp [propagate, hVma, hNext, Vma.exposed]
  | some d =>
    cases hNext : next.privCtx with
    | none => simp [propagate, hVma, hNext, Vma.exposed]
    | some e => simp [propagate, hVma, hNext, Vma.exposed]

theorem mergeNext_exposed {next left : Vma} {rest : List Vma}
    (hOne : exposedCount (vma :: next :: rest) ≤ 1)
    (hLeft : left.exposed = true ↔ vma.exposed = true ∧ next.privCtx = none) :
    exposedCount (left :: rest) ≤ 1 ∧
      (exposedCount (left :: rest) = 0 ↔ exposedCount (vma :: next :: rest) = 0 ∨
        next.exposed = true ∨ vma.exposed = true ∧ next.privCtx ≠ none) := by
  have hNext : next.exposed = true → next.privCtx = none := fun hExp =>
    (Vma.exposed_iff.mp hExp).2
  simp only [exposedCount_cons] at hOne ⊢
  by_cases hE : vma.exposed = true <;> by_cases hN : next.exposed = true <;>
    by_cases hC : next.privCtx = none <;> simp_all

/-- The exposed area, if there is one, is left only if it is `vma` and nothing merged into it
had a context, or comes later. -/
theorem removeNext_exposed {m start : Nat} (rest : List Vma) :
    ∀ {T : CtxTable} {clone : Nat → Bool} {endAddr : Nat} {vma : Vma},
      exposedCount (vma :: rest) ≤ 1 →
      let r := removeNext T (some m) start clone endAddr vma rest
      exposedCount (r.2.2.1 :: r.2.2.2) ≤ 1 ∧
        (exposedCount (r.2.2.1 :: r.2.2.2) = 0 ↔ exposedCount (vma :: rest) = 0 ∨
          ∃ gone ∈ removedNext clone endAddr rest,
            gone.exposed = true ∨ vma.exposed = true ∧ gone.privCtx ≠ none) := by
  induction rest with
  | nil =>
    intro T clone endAddr vma hOne
    exact ⟨hOne, by simp [removeNext, removedNext]⟩
  | cons next rest ih =>
    intro T clone endAddr vma hOne
    by_cases hClone : clone 0 = true
    · obtain ⟨hVma, -⟩ := propagate_exposed T m vma next
      simp only [removeNext, removedNext, hClone, if_true]
      -- what the first round leaves of `vma`
      generalize hLeft : ({ (propagate T (some m) vma next).2.1 with
        vmStart := start, vmEnd := next.vmEnd } : Vma) = left
      have hLeftExp : left.exposed = true ↔ vma.exposed = true ∧ next.privCtx = none := by
        rw [← hLeft]
        exact hVma
      have hRound := mergeNext_exposed hOne hLeftExp
      split
      · obtain ⟨hLe, hIff⟩ := @ih (propagate T (some m) vma next).1 (fun j => clone (j + 1))
          next.vmEnd left hRound.1
        refine ⟨hLe, hIff.trans ?_⟩
        rw [hRound.2]
        simp only [exists_mem_cons_iff, hLeftExp]
        constructor
        · rintro ((hZero | hFirst) | ⟨gone, hIn, hGone | ⟨⟨hExp, -⟩, hCtx⟩⟩)
          · exact .inl hZero
          · exact .inr (.inl hFirst)
          · exact .inr (.inr ⟨gone, hIn, .inl hGone⟩)
          · exact .inr (.inr ⟨gone, hIn, .inr ⟨hExp, hCtx⟩⟩)
        · rintro (hZero | hFirst | ⟨gone, hIn, hGone | ⟨hExp, hCtx⟩⟩)
          · exact .inl (.inl hZero)
          · exact .inl (.inr hFirst)
          · exact .inr ⟨gone, hIn, .inl hGone⟩
          · -- if the first round has covered `vma`, the later ones do not matter
            by_cases hNone : next.privCtx = none
            · exact .inr ⟨gone, hIn, .inr ⟨⟨hExp, hNone⟩, hCtx⟩⟩
            · exact .inl (.inr (.inr ⟨hExp, hNone⟩))
      · refine ⟨hRound.1, hRound.2.trans ?_⟩
        simp
    · have hStay : removeNext T (some m) start clone endAddr vma (next :: rest) =
          (-ENOMEM, T, vma, next :: rest) := by
        simp [removeNext, hClone]
      rw [hStay]
      exact ⟨hOne, by simp [removedNext, hClone]⟩

theorem propagate_pair_exposed {T : CtxTable} {m : Nat} {next v n : Vma} {rest : List Vma}
    (hOne : exposedCount (vma :: next :: rest) ≤ 1)
    (hv : v.exposed = (propagate T (some m) vma next).2.1.exposed)
    (hn : n.exposed = (propagate T (some m) vma next).2.2.exposed) :
    exposedCount (v :: n :: rest) ≤ 1 ∧ (exposedCount (v :: n :: rest) = 0 ↔
        exposedCount (vma :: next :: rest) = 0 ∨ PairSettles vma next) := by
  obtain ⟨hVma, hNext⟩ := propagate_exposed T m vma next
  rw [← hv] at hVma
  rw [← hn] at hNext
  have hVmaNone : vma.exposed = true → vma.privCtx = none := fun h => (Vma.exposed_iff.mp h).2
  have hNextNone : next.exposed = true → next.privCtx = none := fun h => (Vma.exposed_iff.mp h).2
  simp only [exposedCount_cons, PairSettles] at hOne ⊢
  by_cases hE : vma.exposed = true <;> by_cases hN : next.exposed = true <;>
    by_cases hC : next.privCtx = none <;> by_cases hD : vma.privCtx = none <;>
    simp_all

theorem vmaAdjustAt_exposed {T : CtxTable} {m start endAddr : Nat} {insert : Bool}
    {clone : Nat → Bool} {vma : Vma} (rest : List Vma) (hOne : exposedCount (vma :: rest) ≤ 1) :
    let r := vmaAdjustAt T (some m) start endAddr insert clone vma rest
    exposedCount (r.2.2.1 :: r.2.2.2) ≤ 1 ∧
      (exposedCount (r.2.2.1 :: r.2.2.2) = 0 ↔ exposedCount (vma :: rest) = 0 ∨
        AdjustSettles endAddr insert clone vma rest) := by
  unfold AdjustSettles
  cases hKind : adjustKind endAddr insert clone vma rest with
  | last =>
    rw [vmaAdjustAt_last hKind] at hOne ⊢
    simp only [or_false]
    exact ⟨hOne, Iff.rfl⟩
  | pair =>
    obtain ⟨next, rest', x, rfl, hRes⟩ := @vmaAdjustAt_pair (some m) start T _ _ _ _ _ hKind
    rw [hRes]
    simp only [List.head?_cons, Option.mem_def, Option.some.injEq, exists_eq_left']
    exact propagate_pair_exposed hOne rfl rfl
  | removes =>
    rw [vmaAdjustAt_removes T hKind]
    exact removeNext_exposed rest hOne
  | fails =>
    rw [vmaAdjustAt_fails T hKind]
    exact ⟨hOne, (or_iff_left id).symm⟩

theorem exposedCount_pos {vmas : List Vma} (hIn : vma ∈ vmas)
    (hExp : vma.exposed = true) : 0 < exposedCount vmas :=
  List.countP_pos_iff.mpr ⟨vma, hIn, hExp⟩

theorem removedNext_subset (rest : List Vma) : ∀ {clone : Nat → Bool} {endAddr : Nat},
    removedNext clone endAddr rest ⊆ rest := by
  induction rest with
  | nil =>
    intro clone endAddr
    exact List.Subset.refl []
  | cons next rest ih =>
    intro clone endAddr gone hGone
    simp only [removedNext] at hGone
    split at hGone
    · rcases List.mem_cons.mp hGone with rfl | hLater
      · exact mem_cons_self
      · split at hLater
        · exact mem_cons_of_mem _ (ih hLater)
        · cases hLater
    · cases hGone

theorem AdjustSettles.exposed {endAddr : Nat} {insert : Bool} {clone : Nat → Bool}
    {rest : List Vma} (h : AdjustSettles endAddr insert clone vma rest) :
    0 < exposedCount (vma :: rest) := by
  unfold AdjustSettles at h
  split at h
  · obtain ⟨next, hHead, ⟨hExp, -⟩ | ⟨hExp, -⟩⟩ := h
    · exact exposedCount_pos mem_cons_self hExp
    · exact exposedCount_pos (mem_cons_of_mem _ (List.mem_of_mem_head? hHead)) hExp
  · obtain ⟨gone, hIn, hExp | ⟨hExp, -⟩⟩ := h
    · exact exposedCount_pos (mem_cons_of_mem _ (removedNext_subset rest hIn)) hExp
    · exact exposedCount_pos mem_cons_self hExp
  · cases h

/-! ## Contexts of its own -/

section Own

variable {m start : Nat} {T : CtxTable}

theorem propagate_own {vma next : Vma} (hVma : vma.Own m) (hNext : next.Own m) :
    (propagate T (some m) vma next).2.1.Own m ∧ (propagate T (some m) vma next).2.2.Own m := by
  simp only [propagate]
  split
  · exact ⟨.inr rfl, .inr rfl⟩
  · exact ⟨hVma, hNext⟩

theorem propagateBalanced_own {vma next : Vma} (hVma : vma.Own m) (hNext : next.Own m) :
    PropagateBalanced (some m) vma next := by
  intro hNe
  rcases hVma with hVma | hVma
  · rcases hNext with hNext | hNext
    · exact absurd (by rw [hVma, hNext]) hNe
    · exact .inr hNext
  · exact .inl hVma

theorem removeNext_own (rest : List Vma) : ∀ {T : CtxTable} {clone : Nat → Bool}
    {endAddr : Nat} {vma : Vma}, (∀ v ∈ vma :: rest, v.Own m) →
    ∀ v ∈ (removeNext T (some m) start clone endAddr vma rest).2.2.1 ::
      (removeNext T (some m) start clone endAddr vma rest).2.2.2, v.Own m := by
  induction rest with
  | nil =>
    intro T clone endAddr vma hOwn
    exact hOwn
  | cons next rest ih =>
    intro T clone endAddr vma hOwn
    obtain ⟨hVma, hNext, hRest⟩ : vma.Own m ∧ next.Own m ∧ ∀ v ∈ rest, v.Own m := by
      simpa using hOwn
    simp only [removeNext]
    have hLeft : ∀ v ∈ ({ (propagate T (some m) vma next).2.1 with
        vmStart := start, vmEnd := next.vmEnd } : Vma) :: rest, v.Own m :=
      List.forall_mem_cons.mpr ⟨(propagate_own hVma hNext).1, hRest⟩
    split
    · split
      · exact ih hLeft
      · exact hLeft
    · exact hOwn

theorem vmaAdjustAt_own {endAddr : Nat} {insert : Bool} {clone : Nat → Bool} {vma : Vma}
    (rest : List Vma) (hGet : Gettable T (some m)) (hOwn : ∀ v ∈ vma :: rest, v.Own m) :
    let r := vmaAdjustAt T (some m) start endAddr insert clone vma rest
    (∀ v ∈ r.2.2.1 :: r.2.2.2, v.Own m) ∧
      ∀ c, excess T (ctxsOf (vma :: rest)) c ≤ excess r.2.1 (ctxsOf (r.2.2.1 :: r.2.2.2)) c := by
  have hExcess := @vmaAdjustAt_excess (some m) start T endAddr insert clone vma rest hGet
  cases hKind : adjustKind endAddr insert clone vma rest with
  | last =>
    rw [vmaAdjustAt_last hKind] at hOwn ⊢
    refine ⟨fun v hv => ?_, fun c => Int.le_refl _⟩
    rw [List.mem_singleton.mp hv]
    exact hOwn vma mem_cons_self
  | pair =>
    obtain ⟨next, rest', x, rfl, hRes⟩ := @vmaAdjustAt_pair (some m) start T _ _ _ _ _ hKind
    obtain ⟨hVma, hNext, hRest⟩ : vma.Own m ∧ next.Own m ∧ ∀ v ∈ rest', v.Own m := by
      simpa using hOwn
    refine ⟨?_, fun c => Int.le_of_eq (hExcess.mpr ?_ c).symm⟩
    · rw [hRes]
      obtain ⟨hv, hn⟩ := @propagate_own m T _ _ hVma hNext
      exact List.forall_mem_cons.mpr ⟨hv, List.forall_mem_cons.mpr ⟨hn, hRest⟩⟩
    · simp only [AdjustBalanced, hKind, List.head?_cons, Option.mem_def, Option.some.injEq,
        forall_eq']
      exact propagateBalanced_own hVma hNext
  | removes =>
    rw [vmaAdjustAt_removes T hKind]
    obtain ⟨k, hLeak, hk⟩ := @removeNext_excess (some m) start rest T clone endAddr vma hGet
    refine ⟨removeNext_own rest hOwn, fun c => ?_⟩
    have hPos := hLeak.nonneg c
    have hAt := hk c
    omega
  | fails =>
    rw [vmaAdjustAt_fails T hKind]
    exact ⟨hOwn, fun c => Int.le_refl _⟩

end Own

section Calls

variable {m : Nat} {T : CtxTable} {mm : MmStruct}

theorem vmaLinkCtx_covered (hGet : Gettable T (some m)) (vma : Vma) :
    (vmaLinkCtx T (some m) vma).2.Own m ∧ (vmaLinkCtx T (some m) vma).2.exposed = false := by
  have hFst := privCtxGet_fst hGet
  simp only [vmaLinkCtx, hFst, Option.isSome_some, if_true]
  split
  · rename_i hShared
    refine ⟨.inl rfl, ?_⟩
    simp only [Vma.exposed, hShared]
    rfl
  · exact ⟨.inr rfl, by simp [Vma.exposed]⟩

theorem vmaLink_own (h : OwnCtx m T mm) (vma : Vma) :
    OwnCtx m (vmaLink T mm vma).1 (vmaLink T mm vma).2 ∧
      exposedCount (vmaLink T mm vma).2.vmas = exposedCount mm.vmas := by
  have hGet := h.gettable
  obtain ⟨hOwn, hExp⟩ := vmaLinkCtx_covered (h.ctx ▸ hGet) vma
  rw [← h.ctx] at hOwn hExp
  have hPerm : (vmaLink T mm vma).2.vmas.Perm ((vmaLinkCtx T mm.privCtx vma).2 :: mm.vmas) :=
    (vmaLinkList_perm (vmaLinkCtx T mm.privCtx vma).2 mm.mmap).append_right mm.detached
  refine ⟨⟨h.ctx, ?_, ?_, fun v hv => ?_⟩, ?_⟩
  · rw [← h.live]
    exact (vmaLinkCtx_gets hGet vma m).1
  · rw [vmaLink_excess hGet vma m]
    exact h.enough
  · rcases List.mem_cons.mp (hPerm.subset hv) with rfl | hIn
    · exact hOwn
    · exact h.own v hIn
  · rw [exposedCount_perm hPerm, exposedCount_cons, hExp]
    simp

theorem exposedCount_vmas {pre part : List Vma} (hSplit : mm.mmap = pre ++ part) :
    exposedCount mm.vmas = exposedCount pre + exposedCount part + exposedCount mm.detached := by
  rw [MmStruct.vmas, hSplit, exposedCount_append, exposedCount_append]

theorem OwnCtx.splice (h : OwnCtx m T mm) {T' : CtxTable} {pre part new : List Vma}
    (hSplit : mm.mmap = pre ++ part) (hLive : (T' m).live = (T m).live)
    (hEnough : excess T (ctxsOf part) m ≤ excess T' (ctxsOf new) m)
    (hOwn : ∀ v ∈ new, v.Own m) : OwnCtx m T' { mm with mmap := pre ++ new } := by
  refine ⟨h.ctx, hLive.trans h.live, ?_, fun v hv => ?_⟩
  · have hBefore := h.enough
    have hOld := ptrs_perm_middle mm pre part
    rw [← hSplit] at hOld
    rw [excess_perm _ hOld, excess_append] at hBefore
    rw [excess_perm _ (ptrs_perm_middle mm pre new), excess_append]
    omega
  · rcases List.mem_append.mp hv with hMapped | hDet
    · rcases List.mem_append.mp hMapped with hPre | hNew
      · exact h.own v (mem_append_left _ (hSplit ▸ mem_append_left _ hPre))
      · exact hOwn v hNew
    · exact h.own v (mem_append_right _ hDet)

theorem vmaAdjust_own (h : OwnCtx m T mm) (hOne : exposedCount mm.vmas ≤ 1)
    (i start endAddr : Nat) (insert : Option Vma) (clone : Nat → Bool) :
    let r := (vmaAdjust T mm i start endAddr insert clone).2
    OwnCtx m r.1 r.2 ∧ exposedCount r.2.vmas ≤ 1 ∧
      (exposedCount r.2.vmas = 0 ↔ exposedCount mm.vmas = 0 ∨
        (MmCall.adjust i start endAddr insert clone).Settles mm) := by
  simp only [vmaAdjust, MmCall.Settles]
  cases hDrop : mm.mmap.drop i with
  | nil => exact ⟨h, hOne, (or_iff_left id).symm⟩
  | cons vma rest =>
    have hSplit : mm.mmap = mm.mmap.take i ++ vma :: rest := by
      rw [← hDrop, take_append_drop]
    have hGet : Gettable T (some m) := h.ctx ▸ h.gettable
    have hPart : ∀ v ∈ vma :: rest, v.Own m := fun v hv =>
      h.own v (mem_append_left _ (hSplit ▸ mem_append_right _ hv))
    have hCount := exposedCount_vmas hSplit
    have hGets := @vmaAdjustAt_gets (some m) start T endAddr insert.isSome clone vma rest hGet
    have hLocal := @vmaAdjustAt_own m start T endAddr insert.isSome clone vma rest hGet hPart
    have hExp := @vmaAdjustAt_exposed T m start endAddr insert.isSome clone vma rest (by omega)
    dsimp only at hLocal hExp ⊢
    rw [← h.ctx] at hGets hLocal hExp
    generalize vmaAdjustAt T mm.privCtx start endAddr insert.isSome clone vma rest = r
      at hGets hLocal hExp ⊢
    -- before another area is linked
    have hAdjOwn := h.splice hSplit (hGets m).1 (hLocal.2 m) hLocal.1
    generalize hAdj : ({ mm with mmap := mm.mmap.take i ++ r.2.2.1 :: r.2.2.2 } : MmStruct) = adj
      at hAdjOwn ⊢
    have hAdjCount : exposedCount adj.vmas = exposedCount (mm.mmap.take i) +
        exposedCount (r.2.2.1 :: r.2.2.2) + exposedCount mm.detached := by
      rw [← hAdj]
      exact exposedCount_vmas rfl
    have hAdjExp : exposedCount adj.vmas ≤ 1 ∧ (exposedCount adj.vmas = 0 ↔
        exposedCount mm.vmas = 0 ∨ AdjustSettles endAddr insert.isSome clone vma rest) := by
      obtain ⟨hLe, hIff⟩ := hExp
      by_cases hSettles : AdjustSettles endAddr insert.isSome clone vma rest
      · have hPos := hSettles.exposed
        have hZero := hIff.mpr (.inr hSettles)
        simp only [hSettles, or_true, iff_true]
        omega
      · simp only [hSettles, or_false] at hIff ⊢
        omega
    cases insert with
    | none => exact ⟨hAdjOwn, hAdjExp⟩
    | some new =>
      obtain ⟨hLinkOwn, hLinkExp⟩ := vmaLink_own hAdjOwn new
      exact ⟨hLinkOwn, hLinkExp ▸ hAdjExp⟩

theorem OwnCtx.perm {mm' : MmStruct} (h : OwnCtx m T mm) (hCtx : mm'.privCtx = mm.privCtx)
    (hPerm : mm'.vmas.Perm mm.vmas) : OwnCtx m T mm' := by
  refine ⟨hCtx.trans h.ctx, h.live, ?_, fun v hv => h.own v (hPerm.subset hv)⟩
  have hPtrs : mm'.ptrs.Perm mm.ptrs := by
    rw [MmStruct.ptrs, hCtx]
    exact (hPerm.map Vma.privCtx).cons mm.privCtx
  rw [excess_perm _ hPtrs]
  exact h.enough

/-- `remove_vma` puts the reference of the area; the address space keeps its own. -/
theorem OwnCtx.put {mm' : MmStruct} {vma : Vma} (h : OwnCtx m T mm)
    (hCtx : mm'.privCtx = mm.privCtx) (hPerm : mm.vmas.Perm (vma :: mm'.vmas)) :
    OwnCtx m (privCtxPut T vma.privCtx) mm' := by
  have hOwn : ∀ v ∈ mm'.vmas, v.Own m := fun v hv =>
    h.own v (hPerm.symm.subset (mem_cons_of_mem _ hv))
  have hPtrs : mm.ptrs.Perm (vma.privCtx :: mm'.ptrs) := by
    rw [MmStruct.ptrs, MmStruct.ptrs, hCtx]
    exact ((hPerm.map Vma.privCtx).cons mm.privCtx).trans (List.Perm.swap _ _ _)
  have hEnough := h.enough
  rw [excess_perm _ hPtrs, excess_cons] at hEnough
  rcases h.own vma (hPerm.symm.subset mem_cons_self) with hNone | hSome
  · rw [hNone, pointsTo_none] at hEnough
    rw [hNone]
    exact ⟨hCtx.trans h.ctx, h.live, by simpa [privCtxPut] using hEnough, hOwn⟩
  · rw [hSome, pointsTo_self] at hEnough
    -- one reference for the area, one for the address space
    have hTwo : (T m).count ≠ 1 := by
      rw [MmStruct.ptrs, hCtx, h.ctx, excess_cons, pointsTo_self, excess] at hEnough
      omega
    have hPut : privCtxPut T (some m) m = { count := (T m).count - 1, live := true } := by
      simp [privCtxPut, RefTable.put, hTwo, h.live]
    rw [hSome]
    refine ⟨hCtx.trans h.ctx, by rw [hPut], ?_, hOwn⟩
    rw [excess] at hEnough ⊢
    rw [hPut]
    dsimp only
    omega

/-- **One call**: at most one area is exposed, and none is afterwards exactly if none was or the
call settles it. -/
theorem MmCall.run_own (call : MmCall) (h : OwnCtx m T mm) (hOne : exposedCount mm.vmas ≤ 1) :
    OwnCtx m (call.run T mm).1 (call.run T mm).2 ∧ exposedCount (call.run T mm).2.vmas ≤ 1 ∧
      (exposedCount (call.run T mm).2.vmas = 0 ↔ exposedCount mm.vmas = 0 ∨ call.Settles mm) := by
  cases call with
  | nothing => exact ⟨h, hOne, (or_iff_left id).symm⟩
  | link vma =>
    obtain ⟨hOwn, hExp⟩ := vmaLink_own h vma
    simp only [MmCall.run, hExp]
    exact ⟨hOwn, hOne, (or_iff_left id).symm⟩
  | adjust i start endAddr insert clone => exact vmaAdjust_own h hOne i start endAddr insert clone
  | detach i =>
    have hPerm : (detachVma mm i).vmas.Perm mm.vmas := by
      unfold detachVma
      split
      · exact List.Perm.refl _
      · rename_i vma hVma
        obtain ⟨hi, hEq⟩ := List.getElem?_eq_some_iff.mp hVma
        have hPick := getElem_cons_eraseIdx_perm hi
        rw [hEq] at hPick
        exact List.perm_middle.trans (hPick.append_right mm.detached)
    have hCtx : (detachVma mm i).privCtx = mm.privCtx := by
      unfold detachVma
      split <;> rfl
    simp only [MmCall.run, exposedCount_perm hPerm]
    exact ⟨h.perm hCtx hPerm, hOne, (or_iff_left id).symm⟩
  | remove j =>
    simp only [MmCall.run, removeVma, MmCall.Settles]
    cases hVma : mm.detached[j]? with
    | none => exact ⟨h, hOne, by simp⟩
    | some vma =>
      obtain ⟨hj, hEq⟩ := List.getElem?_eq_some_iff.mp hVma
      have hPick := (getElem_cons_eraseIdx_perm hj).symm
      rw [hEq] at hPick
      have hPerm : mm.vmas.Perm (vma :: (mm.mmap ++ mm.detached.eraseIdx j)) :=
        (hPick.append_left mm.mmap).trans perm_middle
      have hCount := exposedCount_perm hPerm
      rw [exposedCount_cons] at hCount
      refine ⟨h.put rfl hPerm, ?_, ?_⟩
      · simp only [MmStruct.vmas] at hCount hOne ⊢
        omega
      · simp only [MmStruct.vmas, Option.some.injEq, exists_eq_left'] at hCount hOne ⊢
        cases hExp : vma.exposed with
        | true =>
          rw [hExp, if_pos rfl] at hCount
          simp only [or_true, iff_true]
          omega
        | false =>
          rw [hExp, if_neg Bool.false_ne_true, Nat.add_zero] at hCount
          simp only [Bool.false_eq_true, or_false, hCount]

end Calls

/-! ## Runs after exec -/

abbrev MmState := CtxTable × MmStruct

def MmStep (s : MmState) (op : MmOp) (t : MmState) : Prop := t = (op.call s.2).run s.1 s.2

def Settles (s : MmState) (op : MmOp) : Prop := (op.call s.2).Settles s.2

theorem bprmMmInit_private {T T' : CtxTable} {current mm : MmStruct} {c : Nat}
    (hPrivate : current.privCtx ≠ none) (hLive : Gettable T current.privCtx)
    (hNew : (T c).live = false) (hExec : bprmMmInit T current (some c) = (T', some mm)) :
    mm = { mmUsers := 1, privCtx := some c, mmap := [stackVma], detached := [] } ∧
      T' c = { count := 1, live := true } := by
  obtain ⟨p, hp⟩ := Option.ne_none_iff_exists'.mp hPrivate
  have hNe : c ≠ p := by
    rintro rfl
    rw [(hLive c hp).1] at hNew
    cases hNew
  have hFst := privCtxGet_fst hLive
  rw [hp] at hFst
  simp only [bprmMmInit, bprmMmInitStack_eq, hp, hFst, Option.isSome_some, if_true, Prod.mk.injEq,
    Option.some.injEq] at hExec
  refine ⟨hExec.2.symm, ?_⟩
  rw [← hExec.1, privCtxPut, RefTable.put_some_of_ne _ hNe, privCtxAlloc, RefTable.alloc,
    Function.update_self]

theorem execMm_own {T' : CtxTable} {c : Nat} (hCtx : T' c = { count := 1, live := true }) :
    OwnCtx c T' { mmUsers := 1, privCtx := some c, mmap := [stackVma], detached := [] } := by
  refine ⟨rfl, by rw [hCtx], ?_, fun v hv => ?_⟩
  · simp [MmStruct.ptrs, MmStruct.vmas, stackVma, hCtx]
  · rw [List.mem_singleton.mp hv]
    exact .inl rfl

/-- With one area exposed to begin with, a run ends with none exactly if some operation settled
it. -/
theorem OwnCtx.run_exposed {s : MmState} {c : Nat} {tr : Trace MmState MmOp}
    (hOwn : OwnCtx c s.1 s.2) (hOne : exposedCount s.2.vmas = 1) (hTr : IsTrace MmStep s tr) :
    OwnCtx c (lastState s tr).1 (lastState s tr).2 ∧
      (exposedCount (lastState s tr).2.vmas = 0 ↔ SomeStep Settles s tr) := by
  -- no operation exposes a second area, so settling the one is for good
  have hStep : ∀ s op t, (OwnCtx c s.1 s.2 ∧ exposedCount s.2.vmas ≤ 1) → MmStep s op t →
      (OwnCtx c t.1 t.2 ∧ exposedCount t.2.vmas ≤ 1) ∧
        (exposedCount t.2.vmas = 0 ↔ exposedCount s.2.vmas = 0 ∨ Settles s op) := by
    rintro s op t ⟨hOwn, hOne⟩ rfl
    obtain ⟨hOwn', hOne', hIff⟩ := (op.call s.2).run_own hOwn hOne
    exact ⟨⟨hOwn', hOne'⟩, hIff⟩
  have hInv := And.intro hOwn (Nat.le_of_eq hOne)
  refine ⟨(eachState_of_inv (fun _ h => h.1) (fun s op t h hs _ => (hStep s op t h hs).1) hInv hTr
    (eachStep_trivial tr)).last, ?_⟩
  rw [lastState_iff_someStep (Q := fun s : MmState => exposedCount s.2.vmas = 0) hStep hInv hTr,
    hOne]
  exact or_iff_right Nat.one_ne_zero

/-- **Coverage after exec.** After any run in the address space that `bprm_mm_init` gives a
private process, all areas that are not shared have its context exactly if some operation has
settled the stack, which was inserted without it: unmapped it, merged it away, or called
`vma_adjust` on it and a neighbour with the context. -/
theorem exec_covered_iff {T T' : CtxTable} {current mm : MmStruct} {c : Nat}
    {tr : Trace MmState MmOp} (hPrivate : current.privCtx ≠ none)
    (hLive : Gettable T current.privCtx) (hNew : (T c).live = false)
    (hExec : bprmMmInit T current (some c) = (T', some mm))
    (hTr : IsTrace MmStep (T', mm) tr) :
    Covered (lastState (T', mm) tr).2 ↔ SomeStep Settles (T', mm) tr := by
  obtain ⟨rfl, hCtx⟩ := bprmMmInit_private hPrivate hLive hNew hExec
  obtain ⟨hOwn, hIff⟩ := (execMm_own hCtx).run_exposed rfl hTr
  exact hOwn.covered_iff.trans hIff

/-- **From exec to swap.** The same operations decide whether the pages of the process are all
entered in the tree of swapped private pages when they go to swap. -/
theorem exec_tracked_iff {T T' : CtxTable} {current mm : MmStruct} {c : Nat}
    {tr : Trace MmState MmOp} (hPrivate : current.privCtx ≠ none)
    (hLive : Gettable T current.privCtx) (hNew : (T c).live = false)
    (hExec : bprmMmInit T current (some c) = (T', some mm))
    (hTr : IsTrace MmStep (T', mm) tr) :
    TracksPages (lastState (T', mm) tr).2 ↔ SomeStep Settles (T', mm) tr := by
  obtain ⟨rfl, hCtx⟩ := bprmMmInit_private hPrivate hLive hNew hExec
  obtain ⟨hOwn, hIff⟩ := (execMm_own hCtx).run_exposed rfl hTr
  exact hOwn.tracksPages_iff.trans hIff

def privateMm : MmStruct := { mmUsers := 1, privCtx := some 1, mmap := [], detached := [] }

def privateCtxs : CtxTable := fun c => if c = 1 then ⟨1, true⟩ else ⟨0, false⟩

theorem privateMm_live : Gettable privateCtxs privateMm.privCtx := by
  rintro c ⟨⟩
  decide

def execMm : MmStruct :=
  { mmUsers := 1, privCtx := some 2, mmap := [stackVma], detached := [] }

def execCtxs : CtxTable := (bprmMmInit privateCtxs privateMm (some 2)).1

theorem privateMm_exec : bprmMmInit privateCtxs privateMm (some 2) = (execCtxs, some execMm) := rfl

def aboveStack : Vma where
  vmStart := STACK_TOP_MAX
  vmEnd := STACK_TOP_MAX + PAGE_SIZE
  vmFlags := VM_READ ||| VM_MAYREAD ||| VM_MAYWRITE ||| VM_MAYEXEC
  privCtx := none

theorem grownStack_covered :
    ∃ tr : Trace MmState MmOp, tr.map Prod.fst =
        [.vmaLink aboveStack,
          .vmaAdjust 0 (STACK_TOP_MAX - 2 * PAGE_SIZE) STACK_TOP_MAX fun _ => true] ∧
      Covered (lastState (execCtxs, execMm) tr).2 := by
  have hTr : IsTrace MmStep (execCtxs, execMm) [(.vmaLink aboveStack, _),
      (.vmaAdjust 0 (STACK_TOP_MAX - 2 * PAGE_SIZE) STACK_TOP_MAX fun _ => true, _)] :=
    ⟨rfl, rfl, trivial⟩
  refine ⟨_, rfl, (exec_covered_iff (by decide) privateMm_live rfl privateMm_exec hTr).mpr ?_⟩
  exact Or.inr (Or.inl ⟨_, rfl, Or.inl ⟨by decide, by decide⟩⟩)

/-- Right after exec the stack is not entered. -/
theorem stack_not_tracked : ¬ TracksPages execMm :=
  mt (@exec_tracked_iff _ _ _ _ _ [] (by decide) privateMm_live rfl privateMm_exec trivial).mp id

/-- After exec and a mapping, the stack has no context. -/
theorem stack_not_covered :
    ∃ tr : Trace MmState MmOp, tr.map Prod.fst = [.vmaLink aboveStack] ∧
      bprmMmInit privateCtxs privateMm (some 2) = (execCtxs, some execMm) ∧
      IsTrace MmStep (execCtxs, execMm) tr ∧
      stackVma ∈ (lastState (execCtxs, execMm) tr).2.vmas ∧ stackVma.shared = false ∧
      stackVma.privCtx = none ∧ (lastState (execCtxs, execMm) tr).2.privCtx = some 2 ∧
      ¬ Covered (lastState (execCtxs, execMm) tr).2 := by
  refine ⟨[(_, _)], rfl, privateMm_exec, ⟨rfl, trivial⟩, by decide, by decide, rfl, rfl, fun hCovered => ?_⟩
  have hCtx := hCovered stackVma (by decide) (by decide)
  cases hCtx

end Lacuna.Mm
