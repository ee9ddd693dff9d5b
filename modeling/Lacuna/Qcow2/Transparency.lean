import Lacuna.Lib.Trace
import Lacuna.Qcow2.Coherence

/-!
# qcow2 — transparency of the metadata cache

What a user of the caches may expect: `qcow2_cache_get` hands out the table
last stored for its offset, whatever was evicted and reloaded in between.

One call does not live up to it, a `qcow2_cache_get` that has to read a stored
table back. The table was encrypted under the IV of its offset; it is decrypted
under the IV of the entry's offset, and `qcow2_cache_do_get` has just set that
to zero.
-/

namespace Lacuna.Qcow2

open Lacuna.Lib

variable {Key : Type}

/-! ## Transparency of a call -/

/-- A `qcow2_cache_get` that returns hands out the contents last stored for
its offset. -/
def Transparent (cbc : AesCbc Key) (depth : Nat) (s : Sys Key) : Op → Prop
  | .get c offset => ∀ ret table bs', qcow2CacheGet cbc depth s.bs c offset =
      some (ret, table, bs') → 0 ≤ ret → ∀ t, s.stored offset = some t →
      ∃ i e, table = some i ∧ bs'.entry c i = some e ∧ e.table = t
  | _ => True

/-- A `qcow2_cache_get` for an offset with stored contents finds the table in
the cache. -/
def Hits (s : Sys Key) : Op → Prop
  | .get c offset => (s.stored offset).isSome → (findOffset (s.bs.cache c) offset).isSome
  | _ => True

/-- As `Hits`, or the contents are not changed by encrypting them under the IV of their offset
and decrypting them under that of offset zero. -/
def HitsOrSameIv (cbc : AesCbc Key) (s : Sys Key) : Op → Prop
  | .get c offset => ∀ t, s.stored offset = some t →
      (findOffset (s.bs.cache c) offset).isSome ∨
        cbc.crypt s.bs.aesniCtx (setIv 0 true) false
          (cbc.crypt s.bs.aesniCtx (setIv offset true) true t) = t
  | _ => True

section OneCall

variable {cbc : AesCbc Key} {owner : UInt64 → CacheId}

variable {s : Sys Key} {depth : Nat}

theorem get_hit (h : Inv cbc owner s) {c : CacheId}
    {offset : UInt64} (hOff : ValidOffset owner s.bs.clusterSize c offset) {i : Nat}
    (hHit : findOffset (s.bs.cache c) offset = some i) :
    Transparent cbc depth s (.get c offset) ∧
      ∀ ret table bs', qcow2CacheGet cbc depth s.bs c offset = some (ret, table, bs') →
        Inv cbc owner { s with bs := bs' } := by
  obtain ⟨e, he, rfl⟩ := findOffset_some hHit
  have hGet : qcow2CacheGet cbc depth s.bs c e.offset = some (doGetFound s.bs c i) := by
    rw [qcow2CacheGet, qcow2CacheDoGet, hHit]
  constructor
  · intro ret table bs' h' _ t ht
    rw [hGet] at h'
    cases h'
    refine ⟨i, { e with cacheHits := e.cacheHits + 1, ref := e.ref + 1 }, rfl, ?_,
      (h.entries c i e he).current hOff.ne_zero t ht⟩
    rw [BlockDriverState.entry_modifyEntry_self, he, Option.map_some]
  · intro ret table bs' h'
    rw [hGet] at h'
    cases h'
    exact h.found he hOff.ne_zero

/-- A get that has to read back hands out what is stored exactly when the IV of offset zero
decrypts it. -/
theorem get_miss (h : Inv cbc owner s) {c : CacheId}
    {offset : UInt64} (hOff : ValidOffset owner s.bs.clusterSize c offset)
    (hMiss : findOffset (s.bs.cache c) offset = none) {ret : Int} {table : Option Nat}
    {bs' : BlockDriverState Key}
    (hGet : qcow2CacheGet cbc depth s.bs c offset = some (ret, table, bs')) :
    (Transparent cbc depth s (.get c offset) ↔ HitsOrSameIv cbc s (.get c offset)) ∧
      (HitsOrSameIv cbc s (.get c offset) → Inv cbc owner { s with bs := bs' }) := by
  obtain ⟨i, e, bs₁, h₁, hKey, hSize, he, hRef, hClean, hAbs, rfl, rfl, rfl⟩ :=
    qcow2CacheDoGet_miss h hMiss hGet
  have hTable : (bs₁.modifyEntry c i (installed cbc bs₁ offset true)).entry c i =
      some (installed cbc bs₁ offset true e) := by
    rw [BlockDriverState.entry_modifyEntry_self, he, Option.map_some]
  -- what is stored is on disk, so what is read is known
  have hLoad : ∀ t, s.stored offset = some t → loaded cbc bs₁ offset =
      cbc.crypt s.bs.aesniCtx (setIv 0 true) false
        (cbc.crypt s.bs.aesniCtx (setIv offset true) true t) := by
    intro t ht
    have hDisk := h₁.absent offset t ht (by rw [hOff.owner_eq]; exact hAbs)
    rw [loaded, show readAt bs₁.file offset.toNat bs₁.clusterSize = _ from hDisk, hKey]
  refine ⟨⟨fun hT t ht => .inr ?_, fun hC ret table bs' h' _ t ht => ?_⟩, fun hC => ?_⟩
  · obtain ⟨j, e', hj, he', rfl⟩ := hT _ _ _ hGet (Int.le_refl 0) t ht
    cases hj
    rw [hTable] at he'
    cases he'
    exact (hLoad _ ht).symm
  · rw [hGet] at h'
    cases h'
    refine ⟨i, _, rfl, hTable, (hLoad t ht).trans ?_⟩
    exact (hC t ht).resolve_left (by simp [hMiss])
  · refine h₁.install (by simpa only [hSize] using hOff) he hRef hClean hAbs (fun _ _ => rfl)
      (fun _ => id) fun t ht => (hLoad t ht).trans ?_
    exact (hC t ht).resolve_left (by simp [hMiss])

/-- **One call** is transparent exactly when it reads nothing stored back under another IV, and
then keeps the invariant. -/
theorem Step.transparent_iff_hits {t : Sys Key} {a : Op} (h : Inv cbc owner s)
    (hStep : Step cbc owner depth s a t) :
    (Transparent cbc depth s a ↔ HitsOrSameIv cbc s a) ∧
      (HitsOrSameIv cbc s a → Inv cbc owner t) := by
  cases hStep with
  | get c offset ret table bs' hOff hGet =>
    cases hFind : findOffset (s.bs.cache c) offset with
    | some i =>
      obtain ⟨hT, hInv⟩ := get_hit h hOff hFind
      have hC : HitsOrSameIv cbc s (.get c offset) := fun t _ => .inl (by simp [hFind])
      exact ⟨iff_of_true hT hC, fun _ => hInv ret table bs' hGet⟩
    | none => exact get_miss h hOff hFind hGet
  | getEmpty c offset ret table bs' hOff hGet => exact ⟨Iff.rfl, fun _ => h.getEmpty hOff hGet⟩
  | edit c i e table he hRef hLen => exact ⟨Iff.rfl, fun _ => h.edit he hRef hLen⟩
  | entryMarkDirty c i e bs' he hRef hMark =>
    exact ⟨Iff.rfl, fun _ => h.entryMarkDirty he hRef hMark⟩
  | put c i e ret bs' he hDone hPut => exact ⟨Iff.rfl, fun _ => h.put he hDone hPut⟩
  | flush c ret bs' hFlush =>
    exact ⟨Iff.rfl, fun _ => h.flushSteps (qcow2CacheFlush_steps depth _ _ _ _ hFlush)⟩
  | setDependency c d ret bs' hSet =>
    exact ⟨Iff.rfl, fun _ => h.flushSteps (qcow2CacheSetDependency_steps hSet)⟩
  | dependsOnFlush c =>
    exact ⟨Iff.rfl, fun _ => h.flushStep (.flags _ _ _ rfl)⟩
  | setWritethrough c enable old bs' hSet =>
    exact ⟨Iff.rfl, fun _ => h.flushSteps (qcow2CacheSetWritethrough_steps hSet)⟩

theorem Inv.hits_iff (h : Inv cbc owner s) (hSep : cbc.SeparatesIv) (a : Op) :
    HitsOrSameIv cbc s a ↔ Hits s a := by
  cases a with
  | get c offset =>
    constructor
    · intro hC hSome
      obtain ⟨t, ht⟩ := Option.isSome_iff_exists.mp hSome
      obtain ⟨h0, -, hLen⟩ := h.stored offset t ht
      have hNil : t ≠ [] := by
        rintro rfl
        exact absurd hLen.symm (Nat.ne_of_gt h.pos)
      refine (hC t ht).resolve_right (hSep _ _ _ t (length_setIv ..) (length_setIv ..)
        (hLen ▸ h.blocks) hNil fun hIv => h0 (setIv_injective true hIv))
    · intro hC t ht
      exact .inl (hC (by rw [ht]; rfl))
  | _ => exact Iff.rfl

end OneCall

/-- **Transparency of the metadata cache.** A run from a fresh image is
transparent exactly when each `qcow2_cache_get` on stored contents hits the
cache, or the contents read the same under both IVs; for a mode that tells IVs
apart, exactly when each of them hits. -/
theorem cache_transparent_iff (cbc : AesCbc Key) (owner : UInt64 → CacheId) (depth : Nat)
    {s : Sys Key} {tr : Trace (Sys Key) Op} (hFresh : Fresh s)
    (hTr : IsTrace (Step cbc owner depth) s tr) :
    (EachStep (Transparent cbc depth) s tr ↔ EachStep (HitsOrSameIv cbc) s tr) ∧
      (cbc.SeparatesIv → (EachStep (Transparent cbc depth) s tr ↔ EachStep Hits s tr)) := by
  have hInv : Inv cbc owner s := hFresh.inv
  constructor
  · refine eachStep_iff_of_inv (fun s a t h hStep hC => ?_) (fun s a t h hStep hP => ?_) hInv hTr
    · obtain ⟨hIff, hNext⟩ := hStep.transparent_iff_hits h
      exact ⟨hIff.mpr hC, hNext hC⟩
    · exact (hStep.transparent_iff_hits h).1.mp hP
  · intro hSep
    refine eachStep_iff_of_inv (fun s a t h hStep hC => ?_) (fun s a t h hStep hP => ?_) hInv hTr
    · obtain ⟨hIff, hNext⟩ := hStep.transparent_iff_hits h
      have hC := (h.hits_iff hSep a).mpr hC
      exact ⟨hIff.mpr hC, hNext hC⟩
    · exact (h.hits_iff hSep a).mp ((hStep.transparent_iff_hits h).1.mp hP)

def complementCipher : BlockCipher 16 where
  encrypt b := b.map (~~~ ·)
  decrypt b := b.map (~~~ ·)
  length_encrypt := by simp
  length_decrypt := by simp
  decrypt_encrypt := by simp [Function.comp_def]

/-- A fresh image with clusters of 512 bytes and one entry in each cache. -/
def oneEntryImage : Sys Unit where
  bs := {
    clusterSize := 512
    cryptMethod := .aesPriv
    cryptMethodHeader := .none
    privDiff := true
    aesniCtx := ()
    l2TableCache := qcow2CacheCreate [List.replicate 512 0] false
    refcountBlockCache := qcow2CacheCreate [List.replicate 512 0] false
    file := fun _ => 0
    io := fun _ => 0 }
  stored := fun _ => none
  pending := fun _ _ => false

theorem oneEntryImage_fresh : Fresh oneEntryImage where
  mode := rfl
  blocks := ⟨32, rfl⟩
  pos := by decide
  io := fun _ => Int.le_refl 0
  caches := by
    intro c
    refine ⟨[List.replicate 512 0], false, by cases c <;> rfl, ?_⟩
    intro table hTable
    rw [List.mem_singleton.mp hTable]
    exact List.length_replicate
  stored := fun _ => rfl
  pending := fun _ _ => rfl

abbrev complementCbc : AesCbc Unit := .ofBlockCipher fun _ => complementCipher

theorem cachedTable_transparent :
    ∃ tr : Trace (Sys Unit) Op, tr.map Prod.fst =
        [.getEmpty .l2TableCache 512, .edit .l2TableCache 0 (List.replicate 512 7),
          .entryMarkDirty .l2TableCache 0, .put .l2TableCache 0, .get .l2TableCache 512] ∧
      IsTrace (Step complementCbc (fun _ => .l2TableCache) 1) oneEntryImage tr ∧
      EachStep (Transparent complementCbc 1) oneEntryImage tr := by
  have hTr : IsTrace (Step complementCbc (fun _ => .l2TableCache) 1) oneEntryImage
      [(.getEmpty .l2TableCache 512, _), (.edit .l2TableCache 0 (List.replicate 512 7), _),
        (.entryMarkDirty .l2TableCache 0, _), (.put .l2TableCache 0, _),
        (.get .l2TableCache 512, _)] :=
    ⟨.getEmpty _ _ _ _ _ _ ⟨by decide, by decide, rfl⟩ rfl,
      .edit _ _ _ _ _ rfl (by decide) List.length_replicate,
      .entryMarkDirty _ _ _ _ _ rfl (by decide) rfl,
      .put _ _ _ _ _ _ rfl (Or.inl rfl) rfl,
      .get _ _ _ _ _ _ ⟨by decide, by decide, rfl⟩ rfl, trivial⟩
  refine ⟨_, rfl, hTr, (cache_transparent_iff complementCbc _ 1 oneEntryImage_fresh hTr).1.mpr ?_⟩
  exact ⟨trivial, trivial, trivial, trivial, fun _ _ => Or.inl rfl, trivial⟩

/-- Storing a second table in a one-entry cache evicts the first, and getting it back gives
something else. -/
theorem evictedTable_not_transparent :
    ∃ tr : Trace (Sys Unit) Op, tr.map Prod.fst =
        [.getEmpty .l2TableCache 512, .edit .l2TableCache 0 (List.replicate 512 7),
          .entryMarkDirty .l2TableCache 0, .put .l2TableCache 0, .getEmpty .l2TableCache 1024,
          .put .l2TableCache 0, .get .l2TableCache 512] ∧
      Fresh oneEntryImage ∧
      IsTrace (Step complementCbc (fun _ => .l2TableCache) 1) oneEntryImage tr ∧
      ¬ EachStep (Transparent complementCbc 1) oneEntryImage tr := by
  refine ⟨[(_, _), (_, _), (_, _), (_, _), (_, _), (_, _), (_, _)], rfl, oneEntryImage_fresh,
    ⟨.getEmpty _ _ _ _ _ _ ⟨by decide, by decide, rfl⟩ rfl,
      .edit _ _ _ _ _ rfl (by decide) List.length_replicate,
      .entryMarkDirty _ _ _ _ _ rfl (by decide) rfl,
      .put _ _ _ _ _ _ rfl (Or.inl rfl) rfl,
      .getEmpty _ _ _ _ _ _ ⟨by decide, by decide, rfl⟩ rfl,
      .put _ _ _ _ _ _ rfl (Or.inl rfl) rfl,
      .get _ _ _ _ _ _ ⟨by decide, by decide, rfl⟩ rfl, trivial⟩, ?_⟩
  intro hAll
  obtain ⟨i, e, hi, he, hT⟩ := hAll.2.2.2.2.2.2.1 _ _ _ rfl (Int.le_refl 0) _ rfl
  obtain rfl := Option.some.inj hi
  -- the IVs of offsets 512 and 0 differ in their second byte
  have hByte := congrArg (fun o => o.bind fun e => e.table[1]?) he
  simp only [Option.bind_some, hT] at hByte
  revert hByte
  decide +kernel

end Lacuna.Qcow2
