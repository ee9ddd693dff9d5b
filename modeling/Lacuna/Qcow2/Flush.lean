import Mathlib.Logic.Relation
import Mathlib.Tactic.Ring
import Mathlib.Tactic.Tauto
import Lacuna.Qcow2.Cache

/-!
# qcow2 — what flushing a cache can do

`qcow2_cache_flush`, `qcow2_cache_entry_flush` and
`qcow2_cache_flush_dependency` call one another. All they can do is a sequence of
`FlushStep`s (`qcow2CacheFlush_steps`): write a table to its offset and mark it
clean, or change a flag. Every invariant of the caches is proved against these steps.
-/

namespace Lacuna.Qcow2

open Lacuna.Lib

variable {Key : Type}

/-! ## The state seen entry by entry -/

namespace BlockDriverState

def entry (bs : BlockDriverState Key) (c : CacheId) (i : Nat) : Option Qcow2CachedTable :=
  (bs.cache c).entries[i]?

@[simp] theorem cache_setCache_self (bs : BlockDriverState Key) (c : CacheId)
    (k : Qcow2Cache) : (bs.setCache c k).cache c = k := by
  cases c <;> rfl

theorem cache_setCache_of_ne (bs : BlockDriverState Key) {c d : CacheId} (k : Qcow2Cache)
    (h : d ≠ c) : (bs.setCache c k).cache d = bs.cache d := by
  cases c <;> cases d <;> first | rfl | exact absurd rfl h

section Frame

variable (bs : BlockDriverState Key) (c : CacheId) (k : Qcow2Cache) (i : Nat)
  (f : Qcow2CachedTable → Qcow2CachedTable)

@[simp] theorem clusterSize_setCache : (bs.setCache c k).clusterSize = bs.clusterSize := by
  cases c <;> rfl
@[simp] theorem cryptMethod_setCache : (bs.setCache c k).cryptMethod = bs.cryptMethod := by
  cases c <;> rfl
@[simp] theorem aesniCtx_setCache : (bs.setCache c k).aesniCtx = bs.aesniCtx := by
  cases c <;> rfl
@[simp] theorem file_setCache : (bs.setCache c k).file = bs.file := by
  cases c <;> rfl
@[simp] theorem io_setCache : (bs.setCache c k).io = bs.io := by
  cases c <;> rfl

@[simp] theorem clusterSize_modifyEntry :
    (bs.modifyEntry c i f).clusterSize = bs.clusterSize := clusterSize_setCache ..
@[simp] theorem cryptMethod_modifyEntry :
    (bs.modifyEntry c i f).cryptMethod = bs.cryptMethod := cryptMethod_setCache ..
@[simp] theorem aesniCtx_modifyEntry :
    (bs.modifyEntry c i f).aesniCtx = bs.aesniCtx := aesniCtx_setCache ..
@[simp] theorem file_modifyEntry : (bs.modifyEntry c i f).file = bs.file := file_setCache ..
@[simp] theorem io_modifyEntry : (bs.modifyEntry c i f).io = bs.io := io_setCache ..

end Frame

theorem entry_modifyEntry_self (bs : BlockDriverState Key) (c : CacheId) (i : Nat)
    (f : Qcow2CachedTable → Qcow2CachedTable) :
    (bs.modifyEntry c i f).entry c i = (bs.entry c i).map f := by
  simp [entry, modifyEntry]

theorem entry_modifyEntry_of_ne (bs : BlockDriverState Key) {c d : CacheId} {i j : Nat}
    (f : Qcow2CachedTable → Qcow2CachedTable) (h : d ≠ c ∨ j ≠ i) :
    (bs.modifyEntry c i f).entry d j = bs.entry d j := by
  by_cases hd : d = c
  · subst hd
    have hj : i ≠ j := fun hij => (h.resolve_left fun hne => hne rfl) hij.symm
    simp [entry, modifyEntry, hj]
  · rw [entry, modifyEntry, cache_setCache_of_ne _ _ hd, entry]

theorem entry_modifyEntry_some {bs : BlockDriverState Key} {c d : CacheId} {i j : Nat}
    {f : Qcow2CachedTable → Qcow2CachedTable} {e e' : Qcow2CachedTable}
    (he : bs.entry c i = some e) (h : (bs.modifyEntry c i f).entry d j = some e') :
    (d = c ∧ j = i) ∧ e' = f e ∨ (d ≠ c ∨ j ≠ i) ∧ bs.entry d j = some e' := by
  by_cases hdj : d = c ∧ j = i
  · obtain ⟨rfl, rfl⟩ := hdj
    rw [entry_modifyEntry_self, he, Option.map_some] at h
    exact .inl ⟨⟨rfl, rfl⟩, (Option.some.inj h).symm⟩
  · have hNe : d ≠ c ∨ j ≠ i := by tauto
    rw [entry_modifyEntry_of_ne bs f hNe] at h
    exact .inr ⟨hNe, h⟩

theorem entry_setCache_of_entries (bs : BlockDriverState Key) (c : CacheId) {k : Qcow2Cache}
    (h : k.entries = (bs.cache c).entries) (d : CacheId) (j : Nat) :
    (bs.setCache c k).entry d j = bs.entry d j := by
  by_cases hd : d = c
  · subst hd
    rw [entry, cache_setCache_self, h, entry]
  · rw [entry, cache_setCache_of_ne _ _ hd, entry]

theorem modifyEntry_modifyEntry (bs : BlockDriverState Key) (c : CacheId) (i : Nat)
    (f g : Qcow2CachedTable → Qcow2CachedTable) :
    (bs.modifyEntry c i f).modifyEntry c i g = bs.modifyEntry c i (g ∘ f) := by
  cases c <;> simp [modifyEntry, setCache, cache, List.modify_modify_eq]

theorem ioNext_modifyEntry (bs : BlockDriverState Key) (c : CacheId) (i : Nat)
    (f : Qcow2CachedTable → Qcow2CachedTable) :
    (bs.modifyEntry c i f).ioNext = bs.ioNext.modifyEntry c i f := by
  cases c <;> rfl

@[simp] theorem entry_ioNext (bs : BlockDriverState Key) (c : CacheId) (i : Nat) :
    bs.ioNext.entry c i = bs.entry c i := by
  cases c <;> rfl

end BlockDriverState

/-! ## Clusters of the file -/

theorem readAt_writeAt_self (file : Nat → UInt8) (offset : Nat) (buf : List UInt8) :
    readAt (writeAt file offset buf) offset buf.length = buf := by
  apply List.ext_getElem?
  intro j
  by_cases hj : j < buf.length
  · simp [readAt, writeAt, List.getElem?_range hj, List.getElem?_eq_getElem hj]
  · simp [readAt, hj]

theorem readAt_writeAt_of_disjoint (file : Nat → UInt8) {offset offset' len : Nat}
    {buf : List UInt8} (h : offset' + len ≤ offset ∨ offset + buf.length ≤ offset') :
    readAt (writeAt file offset buf) offset' len = readAt file offset' len := by
  apply List.map_congr_left
  intro j hj
  have hj := List.mem_range.mp hj
  simp only [writeAt]
  by_cases hle : offset ≤ offset' + j
  · have hOut : buf.length ≤ offset' + j - offset := by omega
    rw [if_pos hle, List.getElem?_eq_none hOut, Option.getD_none]
  · rw [if_neg hle]

theorem aligned_disjoint {n x y : Nat} (hx : n ∣ x) (hy : n ∣ y) (hne : x ≠ y) :
    x + n ≤ y ∨ y + n ≤ x := by
  obtain ⟨a, rfl⟩ := hx
  obtain ⟨b, rfl⟩ := hy
  rcases Nat.lt_trichotomy a b with h | rfl | h
  · left
    calc n * a + n = n * (a + 1) := by ring
      _ ≤ n * b := Nat.mul_le_mul_left n h
  · exact absurd rfl hne
  · right
    calc n * b + n = n * (b + 1) := by ring
      _ ≤ n * a := Nat.mul_le_mul_left n h

/-! ## What flushing can do -/

variable (cbc : AesCbc Key)

/-- One effect of flushing: a file operation without effect on the file, a change of ordering
flags, or one table written to its offset and marked clean. -/
inductive FlushStep : BlockDriverState Key → BlockDriverState Key → Prop
  | io (bs) : FlushStep bs bs.ioNext
  | flags (bs c) (k : Qcow2Cache) (hk : k.entries = (bs.cache c).entries) :
      FlushStep bs (bs.setCache c k)
  | write (bs c i) (e : Qcow2CachedTable) (he : bs.entry c i = some e) (hOff : e.offset ≠ 0) :
      FlushStep bs
        ({ bs.ioNext with file := writeAt bs.file e.offset.toNat (bufWrite cbc bs e) }.modifyEntry
          c i fun e => { e with dirty := false })

abbrev FlushSteps := Relation.ReflTransGen (FlushStep cbc)

variable {cbc}

theorem FlushStep.entry {bs bs' : BlockDriverState Key} (h : FlushStep cbc bs bs')
    (c : CacheId) (i : Nat) : (bs'.entry c i).map (fun e => { e with dirty := false }) =
      (bs.entry c i).map fun e => { e with dirty := false } := by
  cases h with
  | io => rw [BlockDriverState.entry_ioNext]
  | flags d k hk => rw [bs.entry_setCache_of_entries d hk]
  | write d j e he hOff =>
    by_cases hcj : c = d ∧ i = j
    · obtain ⟨rfl, rfl⟩ := hcj
      rw [BlockDriverState.entry_modifyEntry_self]
      cases c <;> simp [BlockDriverState.entry, BlockDriverState.cache,
        BlockDriverState.ioNext, Function.comp_def]
    · rw [BlockDriverState.entry_modifyEntry_of_ne _ _ (by tauto)]
      cases c <;> rfl

theorem FlushSteps.entry {bs bs' : BlockDriverState Key} (h : FlushSteps cbc bs bs')
    (c : CacheId) (i : Nat) : (bs'.entry c i).map (fun e => { e with dirty := false }) =
      (bs.entry c i).map fun e => { e with dirty := false } := by
  induction h with
  | refl => rfl
  | tail _ hStep ih => rw [hStep.entry, ih]

theorem FlushSteps.entry_some {bs bs' : BlockDriverState Key} (h : FlushSteps cbc bs bs')
    {c : CacheId} {i : Nat} {e : Qcow2CachedTable} (he : bs.entry c i = some e) :
    ∃ e', bs'.entry c i = some e' ∧ e'.table = e.table ∧ e'.offset = e.offset ∧ e'.ref = e.ref := by
  have hEntry := h.entry c i
  rw [he] at hEntry
  obtain ⟨e', he', hEq⟩ := Option.map_eq_some_iff.mp hEntry
  simp only [Qcow2CachedTable.mk.injEq] at hEq
  exact ⟨e', he', hEq.1, hEq.2.1, hEq.2.2.2.2⟩

theorem FlushSteps.entry_some_of {bs bs' : BlockDriverState Key} (h : FlushSteps cbc bs bs')
    {c : CacheId} {i : Nat} {e' : Qcow2CachedTable} (he' : bs'.entry c i = some e') :
    ∃ e, bs.entry c i = some e ∧ e'.table = e.table ∧ e'.offset = e.offset ∧ e'.ref = e.ref := by
  have hEntry := (h.entry c i).symm
  rw [he'] at hEntry
  obtain ⟨e, he, hEq⟩ := Option.map_eq_some_iff.mp hEntry
  simp only [Qcow2CachedTable.mk.injEq] at hEq
  exact ⟨e, he, hEq.1.symm, hEq.2.1.symm, hEq.2.2.2.2.symm⟩

section Flush

variable {flush : BlockDriverState Key → CacheId → Option (Int × BlockDriverState Key)}
  {bs bs' : BlockDriverState Key} {c : CacheId} {i : Nat} {ret : Int}

theorem qcow2CacheFlushDependency_steps
    (hFlush : ∀ bs d ret bs', flush bs d = some (ret, bs') → FlushSteps cbc bs bs')
    (h : qcow2CacheFlushDependency flush bs c = some (ret, bs')) : FlushSteps cbc bs bs' := by
  unfold qcow2CacheFlushDependency at h
  split at h
  · cases h
  · rename_i d hd
    obtain ⟨⟨r, bs₁⟩, hr, h⟩ := Option.bind_eq_some_iff.mp h
    have hSteps := hFlush _ _ _ _ hr
    simp only at h
    split at h
    · cases h
      exact hSteps
    · cases h
      exact hSteps.tail (.flags _ _ _ rfl)

theorem flushBefore_steps
    (hFlush : ∀ bs d ret bs', flush bs d = some (ret, bs') → FlushSteps cbc bs bs')
    (h : flushBefore flush bs c = some (ret, bs')) : FlushSteps cbc bs bs' := by
  unfold flushBefore at h
  split at h
  · exact qcow2CacheFlushDependency_steps hFlush h
  · split at h
    · rcases hB : bdrvFlush bs with ⟨r, bs₁⟩
      have hIo : bs₁ = bs.ioNext := (congrArg Prod.snd hB).symm
      rw [hB] at h
      simp only at h
      split at h
      · cases h
        rw [hIo]
        exact (Relation.ReflTransGen.single (.io bs)).tail (.flags _ _ _ rfl)
      · cases h
        rw [hIo]
        exact Relation.ReflTransGen.single (.io bs)
    · cases h
      exact Relation.ReflTransGen.refl

theorem writeEntry_steps {e : Qcow2CachedTable} (he : bs.entry c i = some e)
    (hOff : e.offset ≠ 0) (h : writeEntry cbc bs c i = some (ret, bs')) :
    FlushSteps cbc bs bs' := by
  unfold writeEntry at h
  rw [show (bs.cache c).entries[i]? = some e from he] at h
  simp only [bdrvPwrite] at h
  by_cases hIo : bs.io 0 < 0
  · simp only [hIo, if_true] at h
    cases h
    exact Relation.ReflTransGen.single (.io bs)
  · simp only [hIo, if_false] at h
    cases h
    exact Relation.ReflTransGen.single (.write bs c i e he hOff)

theorem writeEntry_clean (h : writeEntry cbc bs c i = some (ret, bs')) (hRet : 0 ≤ ret) :
    ∃ e', bs'.entry c i = some e' ∧ e'.dirty = false := by
  unfold writeEntry at h
  split at h
  · cases h
  · rename_i e he
    simp only [bdrvPwrite] at h
    by_cases hIo : bs.io 0 < 0
    · simp only [hIo, if_true] at h
      cases h
      omega
    · simp only [hIo, if_false] at h
      cases h
      refine ⟨{ e with dirty := false }, ?_, rfl⟩
      rw [BlockDriverState.entry_modifyEntry_self]
      have : { bs.ioNext with
          file := writeAt bs.file e.offset.toNat (bufWrite cbc bs e) }.entry c i = some e := by
        rw [← show bs.entry c i = some e from he]
        cases c <;> rfl
      rw [this, Option.map_some]

theorem qcow2CacheEntryFlush_steps
    (hFlush : ∀ bs d ret bs', flush bs d = some (ret, bs') → FlushSteps cbc bs bs')
    (h : qcow2CacheEntryFlush cbc flush bs c i = some (ret, bs')) : FlushSteps cbc bs bs' := by
  unfold qcow2CacheEntryFlush at h
  split at h
  · cases h
  · rename_i e he
    split at h
    · cases h
      exact Relation.ReflTransGen.refl
    · rename_i hDirty
      obtain ⟨⟨r, bs₁⟩, hr, h⟩ := Option.bind_eq_some_iff.mp h
      have hSteps := flushBefore_steps hFlush hr
      simp only at h
      split at h
      · cases h
        exact hSteps
      · obtain ⟨e₁, he₁, -, hOff, -⟩ := hSteps.entry_some (show bs.entry c i = some e from he)
        have hNe : e₁.offset ≠ 0 := by
          rw [hOff]
          intro h0
          simp [h0] at hDirty
        exact hSteps.trans (writeEntry_steps he₁ hNe h)

theorem qcow2CacheEntryFlush_clean
    (h : qcow2CacheEntryFlush cbc flush bs c i = some (ret, bs')) (hRet : 0 ≤ ret) :
    ∃ e', bs'.entry c i = some e' ∧ (e'.dirty = false ∨ e'.offset = 0) := by
  unfold qcow2CacheEntryFlush at h
  split at h
  · cases h
  · rename_i e he
    split at h
    · rename_i hClean
      cases h
      refine ⟨e, he, ?_⟩
      simpa [Bool.or_eq_true] using hClean
    · obtain ⟨⟨r, bs₁⟩, hr, h⟩ := Option.bind_eq_some_iff.mp h
      simp only at h
      split at h
      · cases h
        omega
      · obtain ⟨e', he', hd⟩ := writeEntry_clean h hRet
        exact ⟨e', he', .inl hd⟩

theorem flushEntries_steps
    (hFlush : ∀ bs d ret bs', flush bs d = some (ret, bs') → FlushSteps cbc bs bs')
    {is : List Nat} {result : Int}
    (h : flushEntries cbc flush c is result bs = some (ret, bs')) : FlushSteps cbc bs bs' := by
  induction is generalizing result bs with
  | nil =>
    cases h
    exact Relation.ReflTransGen.refl
  | cons j is ih =>
    obtain ⟨⟨r, bs₁⟩, hr, h⟩ := Option.bind_eq_some_iff.mp h
    exact (qcow2CacheEntryFlush_steps hFlush hr).trans (ih h)

end Flush

/-- **What a flush can do**: at any depth of dependencies, a sequence of flush
steps. -/
theorem qcow2CacheFlush_steps (depth : Nat) :
    ∀ (bs : BlockDriverState Key) (c : CacheId) (ret : Int) (bs' : BlockDriverState Key),
      qcow2CacheFlush cbc depth bs c = some (ret, bs') → FlushSteps cbc bs bs' := by
  induction depth with
  | zero =>
    intro bs c ret bs' h
    cases h
  | succ depth ih =>
    intro bs c ret bs' h
    obtain ⟨⟨result, bs₁⟩, hr, h⟩ := Option.bind_eq_some_iff.mp h
    have hSteps := flushEntries_steps ih hr
    simp only at h
    split at h
    · cases h
      exact hSteps.tail (.io bs₁)
    · cases h
      exact hSteps

/-! ## Flushing when every file operation succeeds -/

theorem FlushStep.frame {bs bs' : BlockDriverState Key} (h : FlushStep cbc bs bs') :
    bs'.clusterSize = bs.clusterSize ∧ bs'.cryptMethod = bs.cryptMethod ∧
      bs'.aesniCtx = bs.aesniCtx ∧ ((∀ n, 0 ≤ bs.io n) → ∀ n, 0 ≤ bs'.io n) := by
  cases h with
  | io => exact ⟨rfl, rfl, rfl, fun h n => h (n + 1)⟩
  | flags c k hk => simp
  | write c i e he hOff =>
    simp only [BlockDriverState.clusterSize_modifyEntry, BlockDriverState.cryptMethod_modifyEntry,
      BlockDriverState.aesniCtx_modifyEntry, BlockDriverState.io_modifyEntry]
    exact ⟨rfl, rfl, rfl, fun h n => h (n + 1)⟩

theorem FlushSteps.frame {bs bs' : BlockDriverState Key} (h : FlushSteps cbc bs bs') :
    bs'.clusterSize = bs.clusterSize ∧ bs'.cryptMethod = bs.cryptMethod ∧
      bs'.aesniCtx = bs.aesniCtx ∧ ((∀ n, 0 ≤ bs.io n) → ∀ n, 0 ≤ bs'.io n) := by
  induction h with
  | refl => exact ⟨rfl, rfl, rfl, id⟩
  | tail _ hStep ih =>
    obtain ⟨hSize, hMode, hKey, hIo⟩ := hStep.frame
    exact ⟨hSize.trans ih.1, hMode.trans ih.2.1, hKey.trans ih.2.2.1, fun h => hIo (ih.2.2.2 h)⟩

section Succeeds

variable {flush : BlockDriverState Key → CacheId → Option (Int × BlockDriverState Key)}
  {bs bs' : BlockDriverState Key} {c : CacheId} {i : Nat} {ret : Int}
  (hSteps : ∀ bs d ret bs', flush bs d = some (ret, bs') → FlushSteps cbc bs bs')
  (hFlush : ∀ bs d ret bs', flush bs d = some (ret, bs') → (∀ n, 0 ≤ bs.io n) → 0 ≤ ret)

include hFlush in
theorem flushBefore_succeeds (hIo : ∀ n, 0 ≤ bs.io n) (h : flushBefore flush bs c = some (ret, bs')) : 0 ≤ ret := by
  unfold flushBefore at h
  split at h
  · unfold qcow2CacheFlushDependency at h
    split at h
    · cases h
    · obtain ⟨⟨r, bs₁⟩, hr, h⟩ := Option.bind_eq_some_iff.mp h
      have hr := hFlush _ _ _ _ hr hIo
      simp only at h
      split at h <;> cases h <;> omega
  · split at h
    · have hr : 0 ≤ (bdrvFlush bs).1 := hIo 0
      rcases hB : bdrvFlush bs with ⟨r, bs₁⟩
      rw [hB] at h hr
      simp only at h hr
      split at h <;> cases h <;> exact hr
    · cases h
      exact Int.le_refl 0

theorem writeEntry_succeeds (hIo : ∀ n, 0 ≤ bs.io n)
    (h : writeEntry cbc bs c i = some (ret, bs')) : 0 ≤ ret := by
  unfold writeEntry at h
  split at h
  · cases h
  · have hPos : ¬ bs.io 0 < 0 := Int.not_lt.mpr (hIo 0)
    simp only [bdrvPwrite, hPos, if_false] at h
    cases h
    exact Int.le_refl 0

include hSteps hFlush

theorem qcow2CacheEntryFlush_succeeds (hIo : ∀ n, 0 ≤ bs.io n)
    (h : qcow2CacheEntryFlush cbc flush bs c i = some (ret, bs')) : 0 ≤ ret := by
  unfold qcow2CacheEntryFlush at h
  split at h
  · cases h
  · split at h
    · cases h
      exact Int.le_refl 0
    · obtain ⟨⟨r, bs₁⟩, hr, h⟩ := Option.bind_eq_some_iff.mp h
      have hIo₁ := (flushBefore_steps hSteps hr).frame.2.2.2 hIo
      have hr := flushBefore_succeeds hFlush hIo hr
      simp only at h
      split at h
      · omega
      · exact writeEntry_succeeds hIo₁ h

theorem flushEntries_succeeds {is : List Nat} {result : Int} (hResult : 0 ≤ result)
    (hIo : ∀ n, 0 ≤ bs.io n)
    (h : flushEntries cbc flush c is result bs = some (ret, bs')) : 0 ≤ ret := by
  induction is generalizing result bs with
  | nil =>
    cases h
    exact hResult
  | cons j is ih =>
    obtain ⟨⟨r, bs₁⟩, hr, h⟩ := Option.bind_eq_some_iff.mp h
    have hIo₁ := (qcow2CacheEntryFlush_steps hSteps hr).frame.2.2.2 hIo
    have hr := qcow2CacheEntryFlush_succeeds hSteps hFlush hIo hr
    exact ih (by split <;> omega) hIo₁ h

end Succeeds

theorem qcow2CacheFlush_succeeds (depth : Nat) :
    ∀ (bs : BlockDriverState Key) (c : CacheId) (ret : Int) (bs' : BlockDriverState Key),
      qcow2CacheFlush cbc depth bs c = some (ret, bs') → (∀ n, 0 ≤ bs.io n) → 0 ≤ ret := by
  induction depth with
  | zero =>
    intro bs c ret bs' h
    cases h
  | succ depth ih =>
    intro bs c ret bs' h hIo
    obtain ⟨⟨result, bs₁⟩, hr, h⟩ := Option.bind_eq_some_iff.mp h
    have hIo₁ := (flushEntries_steps (qcow2CacheFlush_steps depth) hr).frame.2.2.2 hIo
    have hOk := flushEntries_succeeds (qcow2CacheFlush_steps depth) ih (Int.le_refl 0) hIo hr
    have hPos : ¬ bs₁.io 0 < 0 := Int.not_lt.mpr (hIo₁ 0)
    simp only [bdrvFlush, hPos, if_false] at h
    split at h <;> cases h <;> exact hOk

end Lacuna.Qcow2
