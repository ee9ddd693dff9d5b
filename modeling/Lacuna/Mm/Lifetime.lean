import Lacuna.Mm.Process
import Lacuna.Mm.Counting

/-!
# Lifetime of swap keys

Over whole runs of creating, forking and ending private processes, `mapcount`
should be the number of address spaces and areas that point to a context, so
that `priv_ctx_put` wipes the key with the last of them. It is precisely if every
call meets `CtxBalanced` (`ctx_counted_iff`). The fork of a private process does not:
`dup_mmap` copies the pointers of the areas without taking references.
-/

namespace Lacuna.Mm

open Lacuna.Lib List

/-! ## Processes -/

def Sys.ptrs (sys : Sys) : List (Option Nat) :=
  sys.mms.flatMap fun mm => mm.elim [] MmStruct.ptrs

/-- What keeps the counts right, on the state before a call.

* `vma_adjust`: as in `MmCall.Balanced`.
* `copy_mm`: the areas that `dup_mmap` copies have no context, except that
  a child with a context of its own makes up for one reference to the parent's.
* `bprm_mm_init` by a private process: the new context can be allocated. -/
def CtxBalanced (sys : Sys) : SysOp → Prop
  | .inMm k op => ∀ mm, sys.mm k = some mm → (op.call mm).Balanced mm
  | .copyMm k clonePrivate fail alloc => ∀ mm, sys.mm k = some mm →
    if fail = none ∧ clonePrivate = true ∧ alloc ≠ none then
      ∀ c, (ctxsOf (dupMmap mm fail)).count (some c) = if mm.privCtx = some c then 1 else 0
    else ∀ vma ∈ dupMmap mm fail, vma.privCtx = none
  | .bprmMmInit k alloc => ∀ mm, sys.mm k = some mm → mm.privCtx = none ∨ alloc ≠ none
  | _ => True

section Processes

variable {sys : Sys} {mm : MmStruct}

variable {k : Nat} {T : CtxTable}

/-- Pointers to contexts outside the address space at position `k`. -/
def Sys.otherPtrs (sys : Sys) (k : Nat) : List (Option Nat) :=
  Sys.ptrs { sys with mms := sys.mms.set k none }

theorem flatMap_set_perm {α β : Type} {f : α → List β} {z : α} (hz : f z = []) (b : α) :
    ∀ (l : List α) (k : Nat), k < l.length →
      ((l.set k b).flatMap f).Perm (f b ++ (l.set k z).flatMap f)
  | a :: l, 0, _ => by simp [hz]
  | a :: l, k + 1, hk => by
    have hRest := flatMap_set_perm hz b l k (Nat.lt_of_succ_lt_succ hk)
    simp only [set_cons_succ, flatMap_cons]
    refine (hRest.append_left (f a)).trans ?_
    rw [← append_assoc, ← append_assoc]
    exact List.perm_append_comm.append_right _

theorem Sys.ptrs_set_perm (h : sys.mm k = some mm) (T : CtxTable) (mm' : Option MmStruct) :
    (Sys.ptrs { ctxs := T, mms := sys.mms.set k mm' }).Perm
      (mm'.elim [] MmStruct.ptrs ++ sys.otherPtrs k) := by
  have hLt : k < sys.mms.length := by
    by_contra hGe
    rw [Sys.mm, List.getElem?_eq_none (Nat.le_of_not_lt hGe)] at h
    cases h
  exact flatMap_set_perm rfl mm' sys.mms k hLt

theorem Sys.ptrs_perm (h : sys.mm k = some mm) : sys.ptrs.Perm (mm.ptrs ++ sys.otherPtrs k) := by
  have hSame : sys.mms.set k (some mm) = sys.mms := by
    refine List.ext_getElem? fun j => ?_
    rw [List.getElem?_set]
    split
    · rename_i hEq
      subst hEq
      obtain hAt : sys.mms[k]? = some (some mm) := Option.join_eq_some_iff.mp h
      obtain ⟨hLt, -⟩ := List.getElem?_eq_some_iff.mp hAt
      rw [if_pos hLt, hAt]
    · rfl
  have hPerm := Sys.ptrs_set_perm h sys.ctxs (some mm)
  rw [hSame] at hPerm
  exact hPerm

theorem mmRelease_eq (T : CtxTable) (mm : MmStruct) :
    mmRelease T mm = (T.putAll (ctxsOf mm.mmap)).put mm.privCtx := by
  simp only [mmRelease, privCtxPut, RefTable.putAll, ctxsOf, foldl_map]

theorem mmRelease_exact {others : List (Option Nat)} (hIdle : mm.detached = [])
    (h : Exact T (mm.ptrs ++ others)) : Exact (mmRelease T mm) others := by
  rw [mmRelease_eq]
  refine Exact.put (Exact.putAll (h.perm ?_))
  simp only [MmStruct.ptrs, MmStruct.vmas, hIdle, append_nil, cons_append]
  exact List.perm_middle.symm

theorem dupMmap_subset (fail : Option Nat) (h : sys.mm k = some mm) :
    ctxsOf (dupMmap mm fail) ⊆ sys.ptrs := by
  intro p hp
  refine (Sys.ptrs_perm h).symm.subset (mem_append_left _ (mem_cons_of_mem _ ?_))
  simp only [ctxsOf, dupMmap, map_map, mem_map, mem_filter] at hp
  obtain ⟨vma, ⟨hIn, -⟩, rfl⟩ := hp
  refine List.mem_map.mpr ⟨vma, mem_append_left _ ?_, rfl⟩
  cases fail with
  | none => exact hIn
  | some n => exact mem_of_mem_take hIn

theorem ctxsOf_eq_none_iff {vmas : List Vma} :
    (∀ p ∈ ctxsOf vmas, p = none) ↔ ∀ vma ∈ vmas, vma.privCtx = none := by
  simp [ctxsOf]

theorem dupMm_release_exact (fail : Option Nat) (h : Exact sys.ctxs sys.ptrs)
    (hMm : sys.mm k = some mm) :
    Exact (mmput sys.ctxs (dupMm mm fail)).1 (sys.add (mmput sys.ctxs (dupMm mm fail))).ptrs ↔
      ∀ vma ∈ dupMmap mm fail, vma.privCtx = none := by
  have hPtrs : (sys.add (mmput sys.ctxs (dupMm mm fail))).ptrs = sys.ptrs := by
    simp [Sys.add, Sys.ptrs, mmput, dupMm]
  have hTable : (mmput sys.ctxs (dupMm mm fail)).1 =
      sys.ctxs.putAll (ctxsOf (dupMmap mm fail)) := by
    simp [mmput, dupMm, mmRelease_eq]
  rw [hPtrs, hTable, h.putAll_iff (dupMmap_subset fail hMm), ctxsOf_eq_none_iff]

theorem privCtxGet_exact {T : CtxTable} {part base : List (Option Nat)} {p : Option Nat}
    (h : Exact T base) (hGet : Gettable T p) :
    Exact (privCtxGet T p).2 (part ++ base) ↔ ∀ c, (part.count (some c) : Int) = pointsTo p c := by
  have hFrame := @Exact.iff_excess_frame _ _ T (privCtxGet T p).2 [] part base h (privCtxGet_gets hGet)
  rw [hFrame]
  refine forall_congr' fun c => ?_
  rw [excess_nil, excess, privCtxGet_count hGet]
  omega

theorem Sys.add_ptrs_perm (sys : Sys) (T : CtxTable) (mm : MmStruct) :
    (sys.add (T, some mm)).ptrs.Perm (mm.privCtx :: (ctxsOf mm.vmas ++ sys.ptrs)) := by
  simp only [Sys.add, Sys.ptrs, flatMap_append, flatMap_singleton, Option.elim]
  exact perm_append_comm

theorem copyMm_shared (hGet : Gettable T mm.privCtx) (alloc : Option Nat) :
    (copyMm T mm false none alloc).2 = ((privCtxGet T mm.privCtx).2,
      some { mmUsers := 1, privCtx := mm.privCtx, mmap := dupMmap mm none, detached := [] }) := by
  have hFst := privCtxGet_fst hGet
  cases hCtx : mm.privCtx with
  | none => simp [copyMm, dupMm, hCtx, privCtxGet]
  | some m =>
    rw [hCtx] at hFst
    simp [copyMm, dupMm, hCtx, hFst]

theorem copyMm_private {c : Nat} (hGet : Gettable (T.alloc c) mm.privCtx) :
    (copyMm T mm true none (some c)).2 = ((privCtxGet (T.alloc c) mm.privCtx).2,
      some { mmUsers := 1, privCtx := some c, mmap := dupMmap mm none, detached := [] }) := by
  have hFst := privCtxGet_fst hGet
  cases hCtx : mm.privCtx with
  | none => simp [copyMm, dupMm, hCtx, privCtxGet, privateMmHook, privCtxAlloc]
  | some m =>
    rw [hCtx] at hFst
    simp [copyMm, dupMm, hCtx, hFst, privateMmHook, privCtxAlloc]

theorem copyMm_exact {clonePrivate : Bool} {fail alloc : Option Nat}
    (h : Exact sys.ctxs sys.ptrs) (hMm : sys.mm k = some mm)
    (hAlloc : ∀ c, alloc = some c → (sys.ctxs c).live = false) :
    Exact (copyMm sys.ctxs mm clonePrivate fail alloc).2.1
        (sys.add (copyMm sys.ctxs mm clonePrivate fail alloc).2).ptrs ↔
      CtxBalanced sys (.copyMm k clonePrivate fail alloc) := by
  have hRelease := dupMm_release_exact fail h hMm
  have hHeld : mm.privCtx ∈ sys.ptrs :=
    (Sys.ptrs_perm hMm).symm.subset (by simp [MmStruct.ptrs])
  simp only [CtxBalanced, hMm, Option.some.injEq, forall_eq']
  cases fail with
  | some n => simpa [copyMm] using hRelease
  | none =>
    cases clonePrivate with
    | false =>
      have hGet := h.gettable hHeld
      rw [copyMm_shared hGet, Exact.perm_iff (sys.add_ptrs_perm _ _), ← cons_append,
        privCtxGet_exact h hGet]
      -- the reference is the child's, so the areas must have none
      simp only [count_cons_some, Bool.false_eq_true, false_and, and_false, if_false]
      rw [← ctxsOf_eq_none_iff, ← count_some_eq_zero_iff]
      refine forall_congr' fun c => ?_
      simp only [MmStruct.vmas, append_nil]
      omega
    | true =>
      cases alloc with
      | none => simpa [copyMm, privateMmHook, dupMm, ENOMEM] using hRelease
      | some c =>
        have hNew := h.alloc (hAlloc c rfl)
        have hGet := hNew.gettable (mem_cons_of_mem _ hHeld)
        rw [copyMm_private hGet, Exact.perm_iff (sys.add_ptrs_perm _ _),
          Exact.perm_iff List.perm_middle.symm, privCtxGet_exact hNew hGet]
        simp only [MmStruct.vmas, append_nil, ne_eq, reduceCtorEq, not_false_eq_true, and_self,
          if_true]
        refine forall_congr' fun d => ?_
        rw [pointsTo]
        split <;> omega

theorem bprmMmInit_exact {alloc : Option Nat}
    (h : Exact sys.ctxs sys.ptrs) (hMm : sys.mm k = some mm)
    (hAlloc : ∀ c, alloc = some c → (sys.ctxs c).live = false) :
    Exact (bprmMmInit sys.ctxs mm alloc).1 (sys.add (bprmMmInit sys.ctxs mm alloc)).ptrs ↔
      CtxBalanced sys (.bprmMmInit k alloc) := by
  have hHeld : mm.privCtx ∈ sys.ptrs :=
    (Sys.ptrs_perm hMm).symm.subset (by simp [MmStruct.ptrs])
  have hGet := h.gettable hHeld
  have hFst := privCtxGet_fst hGet
  simp only [CtxBalanced, hMm, Option.some.injEq, forall_eq']
  simp only [bprmMmInit, bprmMmInitStack_eq, hFst]
  cases hCtx : mm.privCtx with
  | none =>
    simp only [Option.isSome_none, Bool.false_eq_true, if_false, true_or, iff_true]
    refine (Exact.perm_iff (sys.add_ptrs_perm _ _)).mpr ?_
    exact Exact.none_cons_iff.mpr (Exact.none_cons_iff.mpr h)
  | some m =>
    rw [hCtx] at hGet
    obtain ⟨hLive, -⟩ := hGet m rfl
    cases alloc with
    | none =>
      -- the reference to the current context is not put
      have hLeak := @privCtxGet_exact sys.ctxs [] sys.ptrs (some m) h hGet
      simp only [Option.isSome_some, if_true, reduceCtorEq, ne_eq, not_true, or_self, iff_false]
      intro hAfter
      have hAt := hLeak.mp (by simpa [Sys.add, Sys.ptrs] using hAfter) m
      simp at hAt
    | some c =>
      simp only [Option.isSome_some, if_true, ne_eq, reduceCtorEq, not_false_eq_true, or_true,
        iff_true]
      refine (Exact.perm_iff (sys.add_ptrs_perm _ _)).mpr ?_
      have hTaken := (h.get hLive).2
      have hDead : ((sys.ctxs.get m).2 c).live = false :=
        ((privCtxGet_gets hGet c).1).trans (hAlloc c rfl)
      have hNew := ((hTaken.alloc hDead).perm (List.Perm.swap _ _ _)).put
      exact (Exact.none_cons_iff.mpr hNew).perm (List.Perm.swap _ _ _)

end Processes

structure NoContexts (sys : Sys) : Prop where
  dead : ∀ c, (sys.ctxs c).live = false
  unused : ∀ p ∈ sys.ptrs, p = none

theorem NoContexts.exact {sys : Sys} (h : NoContexts sys) : Exact sys.ctxs sys.ptrs := by
  have hZero := count_some_eq_zero_iff.mpr h.unused
  constructor
  · intro c hLive
    rw [h.dead c] at hLive
    cases hLive
  · intro c
    simp [h.dead c, hZero c]

/-- **One call** keeps the counts exact precisely if it meets the condition. -/
theorem SysStep.exact_iff {sys sys' : Sys} {op : SysOp} (h : Exact sys.ctxs sys.ptrs)
    (hStep : SysStep sys op sys') : Exact sys'.ctxs sys'.ptrs ↔ CtxBalanced sys op := by
  cases hStep with
  | inMm k mm op hMm =>
    have hMms := h.perm (Sys.ptrs_perm hMm)
    rw [Exact.perm_iff (Sys.ptrs_set_perm hMm _ _)]
    refine ((op.call mm).run_exact hMms).trans ?_
    simp only [CtxBalanced, hMm, Option.some.injEq, forall_eq']
  | cloneVm k mm hMm =>
    refine ⟨fun _ => trivial, fun _ => ?_⟩
    have hMms := h.perm (Sys.ptrs_perm hMm)
    exact (Exact.perm_iff (Sys.ptrs_set_perm hMm _ _)).mpr hMms
  | copyMm k mm clonePrivate fail alloc hMm hAlloc => exact copyMm_exact h hMm hAlloc
  | mmput k mm hMm hIdle =>
    refine ⟨fun _ => trivial, fun _ => (Exact.perm_iff (Sys.ptrs_set_perm hMm _ _)).mpr ?_⟩
    have hMms := h.perm (Sys.ptrs_perm hMm)
    simp only [Mm.mmput]
    split
    · exact mmRelease_exact hIdle hMms
    · exact hMms
  | bprmMmInit k mm alloc hMm hAlloc => exact bprmMmInit_exact h hMm hAlloc

/-- **Lifetime of swap keys.** From a system without private processes, in every state of a run
the count of each live context is the number of pointers to it, and the live contexts are those
with a pointer, exactly when every call meets `CtxBalanced`. -/
theorem ctx_counted_iff {sys : Sys} {tr : Trace Sys SysOp} (hFresh : NoContexts sys)
    (hTr : IsTrace SysStep sys tr) :
    EachState (fun s => Exact s.ctxs s.ptrs) sys tr ↔ EachStep CtxBalanced sys tr :=
  eachState_iff_of_inv (fun _ h => h) (fun _ _ _ h hStep => (hStep.exact_iff h).mpr)
    (fun _ _ _ h hStep => (hStep.exact_iff h).mp) hFresh.exact hTr

def initSys : Sys where
  ctxs := fun _ => { count := 0, live := false }
  mms := [some { mmUsers := 1, privCtx := none, mmap := [], detached := [] }]

theorem initSys_noContexts : NoContexts initSys :=
  ⟨fun _ => rfl, by simp [initSys, Sys.ptrs, MmStruct.ptrs, MmStruct.vmas]⟩

def anonVma : Vma where
  vmStart := 0x1000
  vmEnd := 0x2000
  vmFlags := VM_READ ||| VM_WRITE ||| VM_MAYREAD ||| VM_MAYWRITE ||| VM_MAYEXEC ||| VM_ACCOUNT
  privCtx := none

theorem private_process_counted :
    ∃ tr : Trace Sys SysOp, tr.map Prod.fst =
        [.copyMm 0 true none (some 1), .inMm 1 (.vmaLink anonVma), .mmput 1] ∧
      EachState (fun s => Exact s.ctxs s.ptrs) initSys tr := by
  have hTr : IsTrace SysStep initSys
      [(.copyMm 0 true none (some 1), _), (.inMm 1 (.vmaLink anonVma), _), (.mmput 1, _)] :=
    ⟨.copyMm _ _ _ _ _ _ rfl fun _ _ => rfl, .inMm _ _ _ _ rfl, .mmput _ _ _ rfl rfl, trivial⟩
  refine ⟨_, rfl, (ctx_counted_iff initSys_noContexts hTr).mpr ⟨?_, ?_, trivial, trivial⟩⟩
  · rintro mm ⟨⟩
    simp [dupMmap]
  · rintro mm ⟨⟩
    trivial

/-- A private process maps a page and forks; the child exits, with a put for each area it was
given without a get. When the parent unmaps the page its key is wiped, although its address
space still uses it. -/
theorem key_wiped_while_held :
    ∃ tr : Trace Sys SysOp, tr.map Prod.fst =
        [.copyMm 0 true none (some 1), .inMm 1 (.vmaLink anonVma), .copyMm 1 false none none,
          .mmput 2, .inMm 1 (.detachVma 0), .inMm 1 (.removeVma 0)] ∧
      NoContexts initSys ∧ IsTrace SysStep initSys tr ∧
      ((lastState initSys tr).mm 1).map MmStruct.privCtx = some (some 1) ∧
      ((lastState initSys tr).ctxs 1).live = false ∧
      ¬ EachState (fun s => Exact s.ctxs s.ptrs) initSys tr := by
  refine ⟨[(_, _), (_, _), (_, _), (_, _), (_, _), (_, _)], rfl, initSys_noContexts,
    ⟨.copyMm _ _ _ _ _ _ rfl fun _ _ => rfl, .inMm _ _ _ _ rfl,
      .copyMm _ _ _ _ _ _ rfl (fun _ hc => nomatch hc), .mmput _ _ _ rfl rfl, .inMm _ _ _ _ rfl,
      .inMm _ _ _ _ rfl, trivial⟩, rfl, rfl, fun hAll => ?_⟩
  have hLive := (hAll.last.live_iff 1).mpr (by decide)
  cases hLive

end Lacuna.Mm
