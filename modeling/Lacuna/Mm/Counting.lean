import Lacuna.Mm.Vma

/-!
# References and pointers in one address space

The count of a swap context is right as long as references are taken and
dropped together with the pointers. This module compares the two for each call
that changes the areas of an address space, whatever the rest of the system
points to: a call keeps the count exact precisely if `MmCall.Balanced`, a condition
on the areas before the call (`MmCall.run_exact`). Only `vma_adjust` can fail it.
-/

namespace Lacuna.Mm

open Lacuna.Lib List

/-! ## Pointers -/

def MmStruct.vmas (mm : MmStruct) : List Vma := mm.mmap ++ mm.detached

def ctxsOf (vmas : List Vma) : List (Option Nat) := vmas.map Vma.privCtx

@[simp] theorem ctxsOf_nil : ctxsOf [] = [] := rfl

@[simp] theorem ctxsOf_cons (vma : Vma) (vmas : List Vma) :
    ctxsOf (vma :: vmas) = vma.privCtx :: ctxsOf vmas := rfl

@[simp] theorem ctxsOf_append (vmas vmas' : List Vma) :
    ctxsOf (vmas ++ vmas') = ctxsOf vmas ++ ctxsOf vmas' := map_append

/-- The `priv_ctx` of an address space and of its areas. -/
def MmStruct.ptrs (mm : MmStruct) : List (Option Nat) := mm.privCtx :: ctxsOf mm.vmas

/-! ## The condition -/

/-- Of two neighbours with one context between them, that context is the one of the address
space. Outside a private address space, there is no context to drop. -/
def PropagateBalanced (mmCtx : Option Nat) (vma next : Vma) : Prop :=
  match mmCtx with
  | some m => vma.privCtx.isNone ≠ next.privCtx.isNone →
      vma.privCtx = some m ∨ next.privCtx = some m
  | none => vma.privCtx = none

def removedNext (clone : Nat → Bool) : Nat → List Vma → List Vma
  | _, [] => []
  | endAddr, next :: rest =>
    if clone 0 then
      next :: if next.vmEnd < endAddr then removedNext (fun k => clone (k + 1)) next.vmEnd rest
        else []
    else []

inductive AdjustKind where
  /-- no area follows -/
  | last
  /-- both areas stay -/
  | pair
  /-- the next area, and perhaps more, are merged into the first -/
  | removes
  /-- `anon_vma_clone` fails before anything is changed -/
  | fails

def adjustKind (endAddr : Nat) (insert : Bool) (clone : Nat → Bool) (vma : Vma) :
    List Vma → AdjustKind
  | [] => .last
  | next :: _ =>
    if insert then .pair
    else if next.vmEnd ≤ endAddr then .removes
    else if next.vmStart < endAddr ∨ endAddr < vma.vmEnd then
      if clone 0 then .pair else .fails
    else .pair

/-- As many references are taken as pointers stored. Where areas are removed, neither they nor
`vma` have a context, since none is put. -/
def AdjustBalanced (mmCtx : Option Nat) (endAddr : Nat) (insert : Bool) (clone : Nat → Bool)
    (vma : Vma) (rest : List Vma) : Prop :=
  match adjustKind endAddr insert clone vma rest with
  | .last => mmCtx = none → vma.privCtx = none
  | .pair => ∀ next ∈ rest.head?, PropagateBalanced mmCtx vma next
  | .removes => ∀ gone ∈ removedNext clone endAddr rest, vma.privCtx = none ∧ gone.privCtx = none
  | .fails => True

/-! ## Propagation -/

section Propagate

variable {T : CtxTable} {mmCtx : Option Nat} (vma next : Vma)

variable {P : Prop}

theorem privCtxGet_fst (h : Gettable T mmCtx) : (privCtxGet T mmCtx).1 = mmCtx.isSome := by
  cases mmCtx with
  | none => rfl
  | some m =>
    rw [privCtxGet, RefTable.get_of_pos T (h m rfl).2]
    rfl

theorem privCtxGet_count (h : Gettable T mmCtx) (c : Nat) :
    ((privCtxGet T mmCtx).2 c).count = (T c).count + pointsTo mmCtx c := by
  cases mmCtx with
  | none => simp [privCtxGet]
  | some m =>
    rw [privCtxGet, RefTable.get_of_pos T (h m rfl).2]
    by_cases hc : c = m
    · subst hc
      simp
    · simp [Function.update_of_ne hc, pointsTo_of_ne (Ne.symm hc)]

theorem privCtxGet_gets (h : Gettable T mmCtx) : GetsOnly T (privCtxGet T mmCtx).2 := by
  cases mmCtx with
  | none => exact GetsOnly.refl T
  | some m => exact GetsOnly.get (h m rfl).1

theorem propagate_gets (h : Gettable T mmCtx) : GetsOnly T (propagate T mmCtx vma next).1 := by
  unfold propagate
  split
  · split
    · exact privCtxGet_gets h
    · exact GetsOnly.refl T
  · split <;> exact GetsOnly.refl T

inductive Propagated (T : CtxTable) (mmCtx : Option Nat) (vma next : Vma)
    (r : CtxTable × Vma × Vma) : Prop
  /-- one of the two has a context, and both get the one of the address space -/
  | spread (m : Nat) (hMm : mmCtx = some m)
      (hOne : vma.privCtx = none ∧ next.privCtx ≠ none ∨ vma.privCtx ≠ none ∧ next.privCtx = none)
      (hCount : ∀ c, (r.1 c).count = (T c).count + pointsTo (some m) c)
      (hVma : r.2.1.privCtx = some m) (hNext : r.2.2.privCtx = some m)
  /-- a context outside a private address space is dropped -/
  | cleared (d : Nat) (hMm : mmCtx = none) (hOld : vma.privCtx = some d)
      (hTable : r.1 = T) (hVma : r.2.1.privCtx = none) (hNext : r.2.2.privCtx = none)
  | same (hMm : mmCtx = none → vma.privCtx = none)
      (hBoth : mmCtx.isSome → (vma.privCtx = none ↔ next.privCtx = none))
      (hRes : r = (T, vma, next))

theorem propagate_cases (h : Gettable T mmCtx) :
    Propagated T mmCtx vma next (propagate T mmCtx vma next) := by
  cases mmCtx with
  | none =>
    cases hVma : vma.privCtx with
    | none => exact .same (fun _ => hVma) (by simp) (by simp [propagate, hVma])
    | some d =>
      refine .cleared d rfl hVma ?_ ?_ ?_ <;> simp [propagate, hVma]
  | some m =>
    have hCount := privCtxGet_count h
    by_cases hOne : vma.privCtx.isNone = next.privCtx.isNone
    · refine .same (by simp) (fun _ => ?_) (by simp [propagate, hOne])
      rw [← Option.isNone_iff_eq_none, ← Option.isNone_iff_eq_none, hOne]
    · refine .spread m rfl ?_ (fun c => ?_) ?_ ?_
      · cases hVma : vma.privCtx <;> cases hNext : next.privCtx <;> simp_all
      · simp [propagate, hOne, hCount]
      · simp [propagate, hOne]
      · simp [propagate, hOne]

theorem propagate_excess (h : Gettable T mmCtx) : (∀ c, excess (propagate T mmCtx vma next).1
        [(propagate T mmCtx vma next).2.1.privCtx, (propagate T mmCtx vma next).2.2.privCtx] c =
      excess T [vma.privCtx, next.privCtx] c) ↔ PropagateBalanced mmCtx vma next := by
  simp only [excess_cons, excess_nil]
  rcases propagate_cases vma next h with
    ⟨m, rfl, hOne, hCount, hVma, hNext⟩ | ⟨d, rfl, hOld, hTable, hVma, hNext⟩ |
    ⟨hMm, hBoth, hRes⟩
  · simp only [hCount, hVma, hNext, PropagateBalanced]
    rcases hOne with ⟨hNone, hSome⟩ | ⟨hSome, hNone⟩
    · obtain ⟨e, he⟩ := Option.ne_none_iff_exists'.mp hSome
      simp only [hNone, he, pointsTo_none]
      constructor
      · intro hAll _
        right
        by_contra hne
        have hAt := hAll e
        rw [pointsTo_self, pointsTo_of_ne (by simpa using Ne.symm hne)] at hAt
        omega
      · intro hBal c
        rcases hBal (by simp) with hAbs | hEq
        · cases hAbs
        · rw [hEq]
          omega
    · obtain ⟨d, hd⟩ := Option.ne_none_iff_exists'.mp hSome
      simp only [hNone, hd, pointsTo_none]
      constructor
      · intro hAll _
        left
        by_contra hne
        have hAt := hAll d
        rw [pointsTo_self, pointsTo_of_ne (by simpa using Ne.symm hne)] at hAt
        omega
      · intro hBal c
        rcases hBal (by simp) with hEq | hAbs
        · rw [hEq]
          omega
        · cases hAbs
  · simp only [hTable, hVma, hNext, hOld, PropagateBalanced, reduceCtorEq, iff_false, not_forall]
    refine ⟨d, ?_⟩
    have hPos := pointsTo_nonneg next.privCtx d
    rw [pointsTo_none, pointsTo_self]
    omega
  · rw [hRes]
    simp only [implies_true, true_iff]
    cases mmCtx with
    | none => exact hMm rfl
    | some m =>
      intro hNe
      refine absurd ?_ hNe
      have hIff := hBoth rfl
      rw [← Option.isNone_iff_eq_none, ← Option.isNone_iff_eq_none] at hIff
      exact Bool.eq_iff_iff.mpr hIff

/-- References that nothing points to any more, per context. -/
structure Leaked (k : Nat → Int) (none_iff : Prop) : Prop where
  nonneg : ∀ c, 0 ≤ k c
  zero_iff : (∀ c, k c = 0) ↔ none_iff

theorem Leaked.add {k k' : Nat → Int} {P' : Prop} (h : Leaked k P) (h' : Leaked k' P') :
    Leaked (fun c => k c + k' c) (P ∧ P') := by
  refine ⟨fun c => Int.add_nonneg (h.nonneg c) (h'.nonneg c), ?_⟩
  rw [← h.zero_iff, ← h'.zero_iff, ← forall_and]
  refine forall_congr' fun c => ?_
  have := h.nonneg c
  have := h'.nonneg c
  omega

theorem Leaked.congr {k : Nat → Int} {P' : Prop} (h : Leaked k P) (hIff : P ↔ P') : Leaked k P' :=
  ⟨h.nonneg, h.zero_iff.trans hIff⟩

theorem Leaked.zero (hP : P) : Leaked (fun _ => 0) P :=
  ⟨fun _ => Int.le_refl 0, ⟨fun _ => hP, fun _ _ => rfl⟩⟩

theorem leaked_pointsTo (p : Option Nat) : Leaked (pointsTo p) (p = none) :=
  ⟨pointsTo_nonneg p, pointsTo_eq_zero_iff⟩

theorem propagate_unlink (h : Gettable T mmCtx) :
    ∃ k, Leaked k (vma.privCtx = none ∧ next.privCtx = none) ∧
      ∀ c, excess (propagate T mmCtx vma next).1 [(propagate T mmCtx vma next).2.1.privCtx] c =
        excess T [vma.privCtx, next.privCtx] c + k c := by
  have hBothLeak := (leaked_pointsTo vma.privCtx).add (leaked_pointsTo next.privCtx)
  simp only [excess_cons, excess_nil]
  rcases propagate_cases vma next h with
    ⟨m, -, -, hCount, hVma, -⟩ | ⟨d, -, -, hTable, hVma, -⟩ | ⟨hMm, hBoth, hRes⟩
  · refine ⟨_, hBothLeak, fun c => ?_⟩
    rw [hCount, hVma]
    omega
  · refine ⟨_, hBothLeak, fun c => ?_⟩
    rw [hTable, hVma, pointsTo_none]
    omega
  · refine ⟨_, (leaked_pointsTo next.privCtx).congr ⟨fun hNone => ⟨?_, hNone⟩, And.right⟩,
      fun c => ?_⟩
    · cases mmCtx with
      | none => exact hMm rfl
      | some m => exact (hBoth rfl).mpr hNone
    · simp only [hRes]
      omega

theorem propagate_none (hVma : vma.privCtx = none) (hNext : next.privCtx = none) :
    propagate T mmCtx vma next = (T, vma, next) := by
  cases mmCtx <;> simp [propagate, hVma, hNext]

end Propagate

/-! ## `vma_adjust` -/

section Adjust

variable {mmCtx : Option Nat} {start : Nat}

theorem removeNext_gets (rest : List Vma) : ∀ {T : CtxTable} {clone endAddr vma},
    Gettable T mmCtx → GetsOnly T (removeNext T mmCtx start clone endAddr vma rest).2.1 := by
  induction rest with
  | nil =>
    intro T clone endAddr vma _
    exact GetsOnly.refl T
  | cons next rest ih =>
    intro T clone endAddr vma h
    simp only [removeNext]
    split
    · have hFirst := propagate_gets vma next h
      split
      · exact hFirst.trans (ih (h.mono hFirst))
      · exact hFirst
    · exact GetsOnly.refl T

/-- Every area removed leaks its reference. -/
theorem removeNext_excess (rest : List Vma) : ∀ {T : CtxTable} {clone endAddr vma},
    Gettable T mmCtx →
    ∃ k, Leaked k (∀ gone ∈ removedNext clone endAddr rest,
        vma.privCtx = none ∧ gone.privCtx = none) ∧
      ∀ c, excess (removeNext T mmCtx start clone endAddr vma rest).2.1
          (ctxsOf ((removeNext T mmCtx start clone endAddr vma rest).2.2.1 ::
            (removeNext T mmCtx start clone endAddr vma rest).2.2.2)) c =
        excess T (ctxsOf (vma :: rest)) c + k c := by
  induction rest with
  | nil =>
    intro T clone endAddr vma _
    exact ⟨_, Leaked.zero (by simp [removedNext]), fun c => by simp [removeNext]⟩
  | cons next rest ih =>
    intro T clone endAddr vma h
    by_cases hClone : clone 0 = true
    · obtain ⟨k, hLeak, hk⟩ := propagate_unlink vma next h
      have hMono := h.mono (propagate_gets vma next h)
      simp only [excess_cons, excess_nil] at hk
      simp only [removeNext, removedNext, hClone, if_true]
      split
      · -- `remove_next == 2`: another round, with what the first one left
        obtain ⟨k', hLeak', hk'⟩ := @ih _ (fun j => clone (j + 1)) next.vmEnd
          { (propagate T mmCtx vma next).2.1 with vmStart := start, vmEnd := next.vmEnd } hMono
        refine ⟨_, (hLeak.add hLeak').congr ?_, fun c => ?_⟩
        · simp only [forall_mem_cons]
          refine and_congr_right fun hNone => ?_
          rw [propagate_none vma next hNone.1 hNone.2, hNone.1]
        · have hFirst := hk c
          rw [hk' c]
          simp only [ctxsOf_cons, excess_cons]
          simp only [excess]
          omega
      · refine ⟨k, hLeak.congr (by simp), fun c => ?_⟩
        have hFirst := hk c
        simp only [ctxsOf_cons, excess_cons]
        simp only [excess]
        omega
    · refine ⟨_, Leaked.zero ?_, fun c => ?_⟩
      · simp [removedNext, hClone]
      · simp [removeNext, hClone]

theorem excess_pair {T T' : CtxTable} {p q p' q' : Option Nat} {rest : List (Option Nat)} :
    (∀ c, excess T' (p' :: q' :: rest) c = excess T (p :: q :: rest) c) ↔
      ∀ c, excess T' [p', q'] c = excess T [p, q] c := by
  refine forall_congr' fun c => ?_
  simp only [excess_cons]
  simp only [excess, count_nil]
  omega

section Kinds

variable (T : CtxTable) {endAddr : Nat} {insert : Bool} {clone : Nat → Bool} {vma : Vma}

theorem vmaAdjustAt_last {rest : List Vma}
    (hKind : adjustKind endAddr insert clone vma rest = .last) :
    rest = [] := by
  cases rest with
  | nil => rfl
  | cons next rest =>
    simp only [adjustKind] at hKind
    repeat' split at hKind
    all_goals cases hKind

theorem vmaAdjustAt_pair {rest : List Vma}
    (hKind : adjustKind endAddr insert clone vma rest = .pair) :
    ∃ next rest' x, rest = next :: rest' ∧ vmaAdjustAt T mmCtx start endAddr insert clone vma rest =
        (0, (propagate T mmCtx vma next).1,
          { (propagate T mmCtx vma next).2.1 with vmStart := start, vmEnd := endAddr },
          { (propagate T mmCtx vma next).2.2 with vmStart := x } :: rest') := by
  cases rest with
  | nil => cases hKind
  | cons next rest =>
    simp only [adjustKind] at hKind
    by_cases hIns : insert = true
    · refine ⟨next, rest, (propagate T mmCtx vma next).2.2.vmStart, rfl, ?_⟩
      simp only [vmaAdjustAt, if_pos hIns]
    by_cases hRemove : next.vmEnd ≤ endAddr
    · simp [hIns, hRemove] at hKind
    by_cases hMoved : next.vmStart < endAddr ∨ endAddr < vma.vmEnd
    · -- the boundary is shifted, up or down
      have hClone : clone 0 = true := by
        by_contra hNot
        simp [hIns, hRemove, hMoved, hNot] at hKind
      by_cases hUp : next.vmStart < endAddr
      · refine ⟨next, rest,
          next.vmStart + (endAddr - next.vmStart) / PAGE_SIZE * PAGE_SIZE, rfl, ?_⟩
        simp only [vmaAdjustAt, if_neg hIns, if_neg hRemove, if_pos hUp, if_pos hClone]
      · refine ⟨next, rest, next.vmStart - (vma.vmEnd - endAddr) / PAGE_SIZE * PAGE_SIZE, rfl, ?_⟩
        simp only [vmaAdjustAt, if_neg hIns, if_neg hRemove, if_neg hUp,
          if_pos (hMoved.resolve_left hUp), if_pos hClone]
    · obtain ⟨hUp, hDown⟩ := not_or.mp hMoved
      refine ⟨next, rest, (propagate T mmCtx vma next).2.2.vmStart, rfl, ?_⟩
      simp only [vmaAdjustAt, if_neg hIns, if_neg hRemove, if_neg hUp, if_neg hDown]

theorem vmaAdjustAt_removes {rest : List Vma}
    (hKind : adjustKind endAddr insert clone vma rest = .removes) :
    vmaAdjustAt T mmCtx start endAddr insert clone vma rest =
      removeNext T mmCtx start clone endAddr vma rest := by
  cases rest with
  | nil => cases hKind
  | cons next rest =>
    simp only [adjustKind] at hKind
    by_cases hIns : insert = true
    · simp [hIns] at hKind
    by_cases hRemove : next.vmEnd ≤ endAddr
    · simp only [vmaAdjustAt, if_neg hIns, if_pos hRemove]
    · rw [if_neg hIns, if_neg hRemove] at hKind
      repeat' split at hKind
      all_goals cases hKind

theorem vmaAdjustAt_fails {rest : List Vma}
    (hKind : adjustKind endAddr insert clone vma rest = .fails) :
    vmaAdjustAt T mmCtx start endAddr insert clone vma rest = (-ENOMEM, T, vma, rest) := by
  cases rest with
  | nil => cases hKind
  | cons next rest =>
    simp only [adjustKind] at hKind
    by_cases hIns : insert = true
    · simp [hIns] at hKind
    by_cases hRemove : next.vmEnd ≤ endAddr
    · simp [hIns, hRemove] at hKind
    by_cases hClone : clone 0 = true
    · simp [hIns, hRemove, hClone] at hKind
    by_cases hUp : next.vmStart < endAddr
    · simp only [vmaAdjustAt, if_neg hIns, if_neg hRemove, if_pos hUp, if_neg hClone]
    by_cases hDown : endAddr < vma.vmEnd
    · simp only [vmaAdjustAt, if_neg hIns, if_neg hRemove, if_neg hUp, if_pos hDown, if_neg hClone]
    · simp [hIns, hRemove, hUp, hDown] at hKind

end Kinds

section

variable {T : CtxTable} {endAddr : Nat} {insert : Bool} {clone : Nat → Bool} {vma : Vma}

theorem vmaAdjustAt_gets (rest : List Vma) (h : Gettable T mmCtx) :
    GetsOnly T (vmaAdjustAt T mmCtx start endAddr insert clone vma rest).2.1 := by
  cases hKind : adjustKind endAddr insert clone vma rest with
  | last =>
    rw [vmaAdjustAt_last hKind]
    exact GetsOnly.refl T
  | pair =>
    obtain ⟨next, rest', x, -, hRes⟩ := @vmaAdjustAt_pair mmCtx start T _ _ _ _ _ hKind
    rw [hRes]
    exact propagate_gets vma next h
  | removes =>
    rw [vmaAdjustAt_removes T hKind]
    exact removeNext_gets rest h
  | fails =>
    rw [vmaAdjustAt_fails T hKind]
    exact GetsOnly.refl T

theorem vmaAdjustAt_excess (rest : List Vma) (h : Gettable T mmCtx) :
    (∀ c, excess (vmaAdjustAt T mmCtx start endAddr insert clone vma rest).2.1
        (ctxsOf ((vmaAdjustAt T mmCtx start endAddr insert clone vma rest).2.2.1 ::
          (vmaAdjustAt T mmCtx start endAddr insert clone vma rest).2.2.2)) c =
      excess T (ctxsOf (vma :: rest)) c) ↔
    AdjustBalanced mmCtx endAddr insert clone vma rest := by
  unfold AdjustBalanced
  cases hKind : adjustKind endAddr insert clone vma rest with
  | last =>
    rw [vmaAdjustAt_last hKind]
    simp only [vmaAdjustAt, ctxsOf_cons, ctxsOf_nil, excess_cons, excess_nil]
    cases mmCtx with
    | some m => simp [propagateLast]
    | none =>
      -- a context is dropped, without a put
      refine Iff.trans ?_ ⟨fun hNone _ => hNone, fun hNone => hNone rfl⟩
      rw [← pointsTo_eq_zero_iff]
      refine forall_congr' fun c => ?_
      cases hVma : vma.privCtx with
      | none => simp [propagateLast, hVma]
      | some d =>
        simp only [propagateLast, hVma, Option.isSome_some, if_true, pointsTo_none]
        omega
  | pair =>
    obtain ⟨next, rest', x, rfl, hRes⟩ := @vmaAdjustAt_pair mmCtx start T _ _ _ _ _ hKind
    rw [hRes]
    have hPair := propagate_excess vma next h
    rw [← @excess_pair _ _ _ _ _ _ (ctxsOf rest')] at hPair
    simpa using hPair
  | removes =>
    rw [vmaAdjustAt_removes T hKind]
    obtain ⟨k, hLeak, hk⟩ := @removeNext_excess mmCtx start rest T clone endAddr vma h
    refine Iff.trans (forall_congr' fun c => ?_) hLeak.zero_iff
    rw [hk c]
    omega
  | fails =>
    rw [vmaAdjustAt_fails T hKind]
    simp

end

end Adjust

/-- Every call but `vma_adjust` takes and drops references as it stores and
clears pointers. -/
def MmCall.Balanced (mm : MmStruct) : MmCall → Prop
  | .adjust i _ endAddr insert clone =>
    match mm.mmap.drop i with
    | [] => True
    | vma :: rest => AdjustBalanced mm.privCtx endAddr insert.isSome clone vma rest
  | _ => True

section Calls

variable {T : CtxTable} {mm : MmStruct} {others : List (Option Nat)}

theorem vmaLinkCtx_gets {mmCtx : Option Nat} (h : Gettable T mmCtx) (vma : Vma) :
    GetsOnly T (vmaLinkCtx T mmCtx vma).1 := by
  unfold vmaLinkCtx
  dsimp only
  split
  · exact GetsOnly.refl T
  · split
    · exact privCtxGet_gets h
    · exact GetsOnly.refl T

theorem vmaLinkCtx_excess {mmCtx : Option Nat} (h : Gettable T mmCtx) (vma : Vma)
    (ptrs : List (Option Nat)) (c : Nat) :
    excess (vmaLinkCtx T mmCtx vma).1 ((vmaLinkCtx T mmCtx vma).2.privCtx :: ptrs) c =
      excess T ptrs c := by
  unfold vmaLinkCtx
  dsimp only
  split
  · simp
  · split
    · have hCount := privCtxGet_count h c
      simp only [excess_cons]
      simp only [excess]
      omega
    · simp

theorem vmaLinkList_perm (vma : Vma) (vmas : List Vma) :
    (vmaLinkList vma vmas).Perm (vma :: vmas) := by
  induction vmas with
  | nil => exact List.Perm.refl _
  | cons next rest ih =>
    simp only [vmaLinkList]
    split
    · exact List.Perm.refl _
    · exact (ih.cons next).trans (List.Perm.swap vma next rest)

theorem vmaLink_excess (h : Gettable T mm.privCtx) (vma : Vma) (c : Nat) :
    excess (vmaLink T mm vma).1 (vmaLink T mm vma).2.ptrs c = excess T mm.ptrs c := by
  have hPerm : (vmaLink T mm vma).2.ptrs.Perm
      ((vmaLinkCtx T mm.privCtx vma).2.privCtx :: mm.ptrs) := by
    have hList := ((vmaLinkList_perm (vmaLinkCtx T mm.privCtx vma).2 mm.mmap).append_right
      mm.detached).map Vma.privCtx
    exact (hList.cons mm.privCtx).trans (List.Perm.swap _ _ _)
  rw [excess_perm _ hPerm]
  exact vmaLinkCtx_excess h vma mm.ptrs c

theorem ptrs_perm_middle (mm : MmStruct) (pre vmas : List Vma) :
    ({ mm with mmap := pre ++ vmas } : MmStruct).ptrs.Perm
      (ctxsOf vmas ++ mm.privCtx :: ctxsOf (pre ++ mm.detached)) := by
  refine List.perm_iff_count.mpr fun p => ?_
  simp only [MmStruct.ptrs, MmStruct.vmas, ctxsOf_append, count_cons, count_append]
  omega

theorem vmaAdjust_exact (h : Exact T (mm.ptrs ++ others)) (i start endAddr : Nat)
    (insert : Option Vma) (clone : Nat → Bool) :
    Exact (vmaAdjust T mm i start endAddr insert clone).2.1
        ((vmaAdjust T mm i start endAddr insert clone).2.2.ptrs ++ others) ↔
      (MmCall.adjust i start endAddr insert clone).Balanced mm := by
  have hGet : Gettable T mm.privCtx := h.gettable (by simp [MmStruct.ptrs])
  simp only [vmaAdjust, MmCall.Balanced]
  cases hDrop : mm.mmap.drop i with
  | nil => exact ⟨fun _ => trivial, fun _ => h⟩
  | cons vma rest =>
    have hSplit : mm.mmap = mm.mmap.take i ++ vma :: rest := by
      rw [← hDrop, take_append_drop]
    have hGets := @vmaAdjustAt_gets mm.privCtx start T endAddr insert.isSome clone vma rest hGet
    have hLocal := @vmaAdjustAt_excess mm.privCtx start T endAddr insert.isSome clone vma rest hGet
    dsimp only
    generalize vmaAdjustAt T mm.privCtx start endAddr insert.isSome clone vma rest = r
      at hGets hLocal ⊢
    -- the areas before `vma` and the detached ones take no part
    have hMm : (∀ c, excess r.2.1
          ({ mm with mmap := mm.mmap.take i ++ r.2.2.1 :: r.2.2.2 } : MmStruct).ptrs c =
        excess T mm.ptrs c) ↔ AdjustBalanced mm.privCtx endAddr insert.isSome clone vma rest := by
      rw [← hLocal]
      refine forall_congr' fun c => ?_
      have hOld := ptrs_perm_middle mm (mm.mmap.take i) (vma :: rest)
      rw [← hSplit] at hOld
      rw [excess_perm _ (ptrs_perm_middle mm (mm.mmap.take i) (r.2.2.1 :: r.2.2.2)),
        excess_perm _ hOld, excess_append, excess_append]
      omega
    cases insert with
    | none => exact (h.iff_excess_frame hGets).trans hMm
    | some new =>
      have hLink := vmaLinkCtx_gets (hGet.mono hGets) new
      refine (h.iff_excess_frame (hGets.trans hLink)).trans (Iff.trans ?_ hMm)
      exact forall_congr' fun c => Eq.congr_left (@vmaLink_excess r.2.1
        { mm with mmap := mm.mmap.take i ++ r.2.2.1 :: r.2.2.2 } (hGet.mono hGets) new c)

theorem MmCall.run_exact (call : MmCall) (h : Exact T (mm.ptrs ++ others)) :
    Exact (call.run T mm).1 ((call.run T mm).2.ptrs ++ others) ↔ call.Balanced mm := by
  have hGet : Gettable T mm.privCtx := h.gettable (by simp [MmStruct.ptrs])
  cases call with
  | nothing => exact ⟨fun _ => trivial, fun _ => h⟩
  | link vma =>
    refine ⟨fun _ => trivial, fun _ => ?_⟩
    exact (h.iff_excess_frame (vmaLinkCtx_gets hGet vma)).mpr (vmaLink_excess hGet vma)
  | adjust i start endAddr insert clone => exact vmaAdjust_exact h i start endAddr insert clone
  | detach i =>
    refine ⟨fun _ => trivial, fun _ => ?_⟩
    simp only [MmCall.run, detachVma]
    split
    · exact h
    · rename_i vma hVma
      obtain ⟨hi, hEq⟩ := List.getElem?_eq_some_iff.mp hVma
      refine h.perm (List.Perm.append_right others (List.Perm.cons _ (List.Perm.map _ ?_)))
      -- from one list to the other
      have hPick := (getElem_cons_eraseIdx_perm hi).symm
      rw [hEq] at hPick
      exact (hPick.append_right mm.detached).trans (List.perm_middle.symm)
  | remove j =>
    refine ⟨fun _ => trivial, fun _ => ?_⟩
    simp only [MmCall.run, removeVma]
    split
    · exact h
    · rename_i vma hVma
      obtain ⟨hj, hEq⟩ := List.getElem?_eq_some_iff.mp hVma
      refine Exact.put (h.perm ?_)
      have hPick := (getElem_cons_eraseIdx_perm hj).symm
      rw [hEq] at hPick
      have hAreas := ((hPick.append_left mm.mmap).trans perm_middle).map Vma.privCtx
      exact ((hAreas.cons mm.privCtx).trans (List.Perm.swap _ _ _)).append_right others

end Calls

end Lacuna.Mm
