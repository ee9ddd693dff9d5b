import Lacuna.Qcow2.Users

/-!
# qcow2 — coherence of caches and file

`Inv` ties together every cached table, its dirty flag and the encrypted file.
Two lemmas carry all preservation proofs: `Inv.congr` for changes the
invariant does not look at, and `Inv.modify` for a change of one entry
(`Inv.reflag` where the entry keeps its table).
-/

namespace Lacuna.Qcow2

open Lacuna.Lib Option Function

variable {Key : Type}

/-! ## The invariant -/

section Invariant

variable (cbc : AesCbc Key) (owner : UInt64 → CacheId)

/-- The cluster at `offset` of the file is the encryption of `t`. -/
def OnDisk (bs : BlockDriverState Key) (offset : UInt64) (t : List UInt8) : Prop :=
  readAt bs.file offset.toNat bs.clusterSize =
    cbc.crypt bs.aesniCtx (setIv offset true) true t

structure EntryOk (s : Sys Key) (c : CacheId) (i : Nat) (e : Qcow2CachedTable) : Prop where
  length : e.table.length = s.bs.clusterSize
  valid : e.offset ≠ 0 → ValidOffset owner s.bs.clusterSize c e.offset
  held : e.ref ≠ 0 → e.offset ≠ 0
  settled : e.ref = 0 → s.pending c i = false
  current : e.offset ≠ 0 → ∀ t, s.stored e.offset = some t → e.table = t
  clean : e.offset ≠ 0 → e.dirty = false → s.pending c i = false →
    ∀ t, s.stored e.offset = some t → OnDisk cbc s.bs e.offset t

/-- A cached table is current, and what is not cached, or cached and clean, is encrypted on disk. -/
structure Inv (s : Sys Key) : Prop where
  mode : s.bs.cryptMethod = .aesPriv
  blocks : 16 ∣ s.bs.clusterSize
  pos : 0 < s.bs.clusterSize
  io : ∀ n, 0 ≤ s.bs.io n
  entries : ∀ c i e, s.bs.entry c i = some e → EntryOk cbc owner s c i e
  unique : ∀ c i j e e', s.bs.entry c i = some e → s.bs.entry c j = some e' →
    e.offset ≠ 0 → e'.offset = e.offset → j = i
  absent : ∀ offset t, s.stored offset = some t →
    (∀ i e, s.bs.entry (owner offset) i = some e → e.offset ≠ offset) →
    OnDisk cbc s.bs offset t
  stored : ∀ offset t, s.stored offset = some t →
    offset ≠ 0 ∧ s.bs.clusterSize ∣ offset.toNat ∧ t.length = s.bs.clusterSize

end Invariant

section Preservation

variable {cbc : AesCbc Key} {owner : UInt64 → CacheId}

variable {s s' : Sys Key} {bs' bs : BlockDriverState Key} {c d : CacheId} {i depth : Nat}
  {e : Qcow2CachedTable} {f : Qcow2CachedTable → Qcow2CachedTable} {offset : UInt64} {ret : Int}

theorem Fresh.inv (h : Fresh s) : Inv cbc owner s where
  mode := h.mode
  blocks := h.blocks
  pos := h.pos
  io := h.io
  entries := by
    intro c i e he
    obtain ⟨tables, w, hc, hLen⟩ := h.caches c
    rw [BlockDriverState.entry, hc] at he
    obtain ⟨table, hTable, rfl⟩ := List.mem_map.mp (List.mem_of_getElem? he)
    exact {
      length := hLen table hTable
      valid := fun h0 => absurd rfl h0
      held := fun h0 => absurd rfl h0
      settled := fun _ => h.pending c i
      current := fun h0 => absurd rfl h0
      clean := fun h0 => absurd rfl h0 }
  unique := by
    intro c i j e e' he _ h0
    obtain ⟨tables, w, hc, -⟩ := h.caches c
    rw [BlockDriverState.entry, hc] at he
    obtain ⟨table, -, rfl⟩ := List.mem_map.mp (List.mem_of_getElem? he)
    exact absurd rfl h0
  absent := fun offset t ht => by rw [h.stored] at ht; cases ht
  stored := fun offset t ht => by rw [h.stored] at ht; cases ht

/-- The invariant does not look at hit counts, flags of the caches, or results beyond their sign. -/
theorem Inv.congr (h : Inv cbc owner s)
    (hEntry : ∀ c i, (bs'.entry c i).map (fun e => { e with cacheHits := 0 }) =
      (s.bs.entry c i).map fun e => { e with cacheHits := 0 })
    (hMode : bs'.cryptMethod = s.bs.cryptMethod) (hSize : bs'.clusterSize = s.bs.clusterSize)
    (hKey : bs'.aesniCtx = s.bs.aesniCtx) (hFile : bs'.file = s.bs.file)
    (hIo : ∀ n, 0 ≤ bs'.io n) : Inv cbc owner { s with bs := bs' } := by
  have hDisk : ∀ offset t, OnDisk cbc bs' offset t ↔ OnDisk cbc s.bs offset t := by
    intro offset t
    rw [OnDisk, OnDisk, hSize, hKey, hFile]
  have hBack : ∀ {c i e'}, bs'.entry c i = some e' → ∃ e, s.bs.entry c i = some e ∧
      e'.table = e.table ∧ e'.offset = e.offset ∧ e'.dirty = e.dirty ∧ e'.ref = e.ref := by
    intro c i e' he'
    have hMap := (hEntry c i).symm
    rw [he'] at hMap
    obtain ⟨e, he, hEq⟩ := Option.map_eq_some_iff.mp hMap
    simp only [Qcow2CachedTable.mk.injEq] at hEq
    exact ⟨e, he, hEq.1.symm, hEq.2.1.symm, hEq.2.2.1.symm, hEq.2.2.2.2.symm⟩
  constructor
  case mode => exact hMode.trans h.mode
  case blocks => simpa only [hSize] using h.blocks
  case pos => simpa only [hSize] using h.pos
  case io => exact hIo
  case entries =>
    intro c i e' he'
    obtain ⟨e, he, hT, hO, hD, hR⟩ := hBack he'
    have hOk := h.entries c i e he
    constructor
    case length => rw [hT, hSize]; exact hOk.length
    case valid => rw [hO, hSize]; exact hOk.valid
    case held => rw [hR, hO]; exact hOk.held
    case settled => rw [hR]; exact hOk.settled
    case current => rw [hO, hT]; exact hOk.current
    case clean =>
      simp only [hO, hD, hDisk]
      exact hOk.clean
  case unique =>
    intro c i j e₁ e₂ h₁ h₂
    obtain ⟨e, he, -, hO, -⟩ := hBack h₁
    obtain ⟨e', he', -, hO', -⟩ := hBack h₂
    rw [hO, hO']
    exact h.unique c i j e e' he he'
  case absent =>
    intro offset t ht hAbs
    rw [hDisk]
    refine h.absent offset t ht fun i e he hOff => ?_
    have hMap := hEntry (owner offset) i
    rw [he] at hMap
    obtain ⟨e', he', hEq⟩ := Option.map_eq_some_iff.mp hMap
    simp only [Qcow2CachedTable.mk.injEq] at hEq
    exact hAbs i e' he' (hEq.2.1.trans hOff)
  case stored =>
    intro offset t ht
    rw [hSize]
    exact h.stored offset t ht

theorem EntryOk.frame
    (h : EntryOk cbc owner s c i e) (hSize : s'.bs.clusterSize = s.bs.clusterSize)
    (hPend : s'.pending c i = s.pending c i)
    (hStored : e.offset ≠ 0 → s'.stored e.offset = s.stored e.offset)
    (hDisk : ∀ t, OnDisk cbc s.bs e.offset t → OnDisk cbc s'.bs e.offset t) :
    EntryOk cbc owner s' c i e where
  length := h.length.trans hSize.symm
  valid := by
    rw [hSize]
    exact h.valid
  held := h.held
  settled := fun hRef => hPend.trans (h.settled hRef)
  current := fun h0 t ht => h.current h0 t ((hStored h0).symm.trans ht)
  clean := fun h0 hd hp t ht =>
    hDisk t (h.clean h0 hd (hPend.symm.trans hp) t ((hStored h0).symm.trans ht))

theorem unique_modifyEntry
    (he : bs.entry c i = some e)
    (hOld : ∀ d j k e₁ e₂, bs.entry d j = some e₁ → bs.entry d k = some e₂ →
      e₁.offset ≠ 0 → e₂.offset = e₁.offset → k = j)
    (hNew : (f e).offset ≠ 0 → ∀ j e', bs.entry c j = some e' →
      e'.offset = (f e).offset → j = i) {j k : Nat} {e₁ e₂ : Qcow2CachedTable}
    (h₁ : (bs.modifyEntry c i f).entry d j = some e₁)
    (h₂ : (bs.modifyEntry c i f).entry d k = some e₂)
    (h0 : e₁.offset ≠ 0) (hEq : e₂.offset = e₁.offset) : k = j := by
  rcases BlockDriverState.entry_modifyEntry_some he h₁ with ⟨⟨rfl, rfl⟩, rfl⟩ | ⟨-, hOld₁⟩
  · rcases BlockDriverState.entry_modifyEntry_some he h₂ with ⟨⟨-, rfl⟩, -⟩ | ⟨-, hOld₂⟩
    · rfl
    · exact hNew h0 k e₂ hOld₂ hEq
  · rcases BlockDriverState.entry_modifyEntry_some he h₂ with ⟨⟨rfl, rfl⟩, rfl⟩ | ⟨-, hOld₂⟩
    · exact (hNew (hEq ▸ h0) j e₁ hOld₁ hEq.symm).symm
    · exact hOld d j k e₁ e₂ hOld₁ hOld₂ h0 hEq

theorem absent_of_modifyEntry
    (he : bs.entry c i = some e) (hStay : e.offset = offset → (f e).offset = e.offset)
    (hAbs : ∀ j e', (bs.modifyEntry c i f).entry d j = some e' → e'.offset ≠ offset)
    {j : Nat} {e' : Qcow2CachedTable} (he' : bs.entry d j = some e') : e'.offset ≠ offset := by
  intro hOff
  by_cases hdj : d = c ∧ j = i
  · obtain ⟨rfl, rfl⟩ := hdj
    obtain rfl : e = e' := some.inj (he.symm.trans he')
    refine hAbs j (f e) ?_ ((hStay hOff).trans hOff)
    rw [BlockDriverState.entry_modifyEntry_self, he, map_some]
  · refine hAbs j e' ?_ hOff
    rw [BlockDriverState.entry_modifyEntry_of_ne bs f (by tauto)]
    exact he'

/-- Change one entry, the contents stored for its new offset, and whether it
is pending. The invariant survives if the new entry is in order, no other
entry has its offset, and the table that leaves the cache is on disk. -/
theorem Inv.modify (h : Inv cbc owner s)
    (he : s.bs.entry c i = some e) (hBs : s'.bs = s.bs.modifyEntry c i f)
    (hPend : ∀ d j, d ≠ c ∨ j ≠ i → s'.pending d j = s.pending d j)
    (hStored : ∀ offset, s'.stored offset = s.stored offset ∨
      offset = (f e).offset ∧ offset ≠ 0)
    (hNew : EntryOk cbc owner s' c i (f e))
    (hUnique : (f e).offset ≠ 0 → ∀ j e', s.bs.entry c j = some e' →
      e'.offset = (f e).offset → j = i)
    (hGone : e.offset ≠ 0 → (f e).offset ≠ e.offset → ∀ t, s.stored e.offset = some t →
      OnDisk cbc s.bs e.offset t)
    (hTable : ∀ t, s'.stored (f e).offset = some t → s.stored (f e).offset ≠ some t →
      t.length = s.bs.clusterSize) : Inv cbc owner s' := by
  obtain ⟨bs', stored', pending'⟩ := s'
  subst hBs
  simp only at hPend hStored hTable
  have hSelf : (s.bs.modifyEntry c i f).entry c i = some (f e) := by
    rw [BlockDriverState.entry_modifyEntry_self, he, map_some]
  have hDisk : ∀ offset t, OnDisk cbc (s.bs.modifyEntry c i f) offset t ↔
      OnDisk cbc s.bs offset t := by
    intro offset t
    simp [OnDisk]
  -- what is stored for the offset of another entry has not changed
  have hOther : ∀ d j e', s.bs.entry d j = some e' → e'.offset ≠ 0 → d ≠ c ∨ j ≠ i →
      stored' e'.offset = s.stored e'.offset := by
    intro d j e' he' h0 hNe
    refine (hStored e'.offset).resolve_right fun ⟨hEq, _⟩ => ?_
    have h0' : (f e).offset ≠ 0 := hEq ▸ h0
    have hd : d = c := by
      have hOwner := ((h.entries d j e' he').valid h0).owner_eq
      rw [hEq, (hNew.valid h0').owner_eq] at hOwner
      exact hOwner.symm
    subst hd
    exact hNe.elim (fun hne => hne rfl) fun hne => hne (hUnique h0' j e' he' hEq)
  constructor
  case mode => simpa using h.mode
  case blocks => simpa using h.blocks
  case pos => simpa using h.pos
  case io => simpa using h.io
  case entries =>
    intro d j e' he'
    rcases BlockDriverState.entry_modifyEntry_some he he' with ⟨⟨rfl, rfl⟩, rfl⟩ | ⟨hNe, he'⟩
    · exact hNew
    · exact (h.entries d j e' he').frame (by simp) (hPend d j hNe)
        (fun h0 => hOther d j e' he' h0 hNe) fun t => (hDisk e'.offset t).mpr
  case unique =>
    intro d j k e₁ e₂ h₁ h₂ h0 hEq
    exact unique_modifyEntry he h.unique hUnique h₁ h₂ h0 hEq
  case absent =>
    intro offset t ht hAbs
    rw [hDisk]
    -- the new entry caches its own offset, so `offset` is another one
    have hNe : offset = (f e).offset → offset = 0 := by
      intro hEq
      by_contra h0
      refine hAbs i (f e) ?_ hEq.symm
      rw [hEq, (hNew.valid (hEq ▸ h0)).owner_eq]
      exact hSelf
    have ht : s.stored offset = some t := by
      rw [← (hStored offset).resolve_right fun ⟨hEq, h0⟩ => h0 (hNe hEq)]
      exact ht
    -- it was cached in the changed entry, which let it go, or in none
    by_cases hOld : e.offset = offset ∧ (f e).offset ≠ e.offset
    · obtain ⟨rfl, hMoved⟩ := hOld
      exact hGone (h.stored _ t ht).1 hMoved t ht
    · have hStay : e.offset = offset → (f e).offset = e.offset := by tauto
      exact h.absent offset t ht fun j e' he' => absent_of_modifyEntry he hStay hAbs he'
  case stored =>
    intro offset t ht
    simp only [BlockDriverState.clusterSize_modifyEntry]
    rcases hStored offset with hEq | ⟨rfl, h0⟩
    · exact h.stored offset t (hEq ▸ ht)
    · by_cases hSame : s.stored (f e).offset = some t
      · exact h.stored _ t hSame
      · exact ⟨h0, by simpa using (hNew.valid h0).aligned, hTable t ht hSame⟩

theorem Inv.reflag (h : Inv cbc owner s)
    (he : s.bs.entry c i = some e) (hBs : s'.bs = s.bs.modifyEntry c i f)
    (hPend : ∀ d j, d ≠ c ∨ j ≠ i → s'.pending d j = s.pending d j)
    (hStored : s'.stored = s.stored) (hTable : (f e).table = e.table)
    (hOffset : (f e).offset = e.offset) (hHeld : (f e).ref ≠ 0 → e.offset ≠ 0)
    (hSettled : (f e).ref = 0 → s'.pending c i = false)
    (hClean : e.offset ≠ 0 → (f e).dirty = false → s'.pending c i = false →
      ∀ t, s.stored e.offset = some t → OnDisk cbc s.bs e.offset t) : Inv cbc owner s' := by
  have hOk := h.entries c i e he
  have hSize : s'.bs.clusterSize = s.bs.clusterSize := by rw [hBs]; simp
  have hNew : EntryOk cbc owner s' c i (f e) := by
    constructor
    case length => rw [hTable, hSize]; exact hOk.length
    case valid => rw [hOffset, hSize]; exact hOk.valid
    case held => rw [hOffset]; exact hHeld
    case settled => exact hSettled
    case current => rw [hOffset, hTable, hStored]; exact hOk.current
    case clean =>
      rw [hOffset, hStored]
      simpa [OnDisk, hBs] using hClean
  refine h.modify he hBs hPend (fun _ => .inl (by rw [hStored])) hNew ?_ ?_ ?_
  · rw [hOffset]
    exact fun h0 j e' he' hEq => h.unique c i j e e' he he' h0 hEq
  · exact fun _ hMoved => absurd hOffset hMoved
  · intro t ht hNe
    rw [hStored] at ht
    exact absurd ht hNe

/-! ## Flushing -/

theorem bufWrite_eq (h : Inv cbc owner s) (he : s.bs.entry c i = some e) :
    bufWrite cbc s.bs e = cbc.crypt s.bs.aesniCtx (setIv e.offset true) true e.table := by
  rw [bufWrite, if_pos h.mode, qcow2EncryptMetadata_one cbc _ _ _ (h.entries c i e he).length]

theorem length_bufWrite (h : Inv cbc owner s) (he : s.bs.entry c i = some e) :
    (bufWrite cbc s.bs e).length = s.bs.clusterSize := by
  have hLen := (h.entries c i e he).length
  rw [bufWrite_eq h he, cbc.length_crypt _ _ _ _ (length_setIv ..) (hLen ▸ h.blocks), hLen]

theorem onDisk_write (h : Inv cbc owner s) (he : s.bs.entry c i = some e) (h0 : e.offset ≠ 0)
    (bs' : BlockDriverState Key)
    (hFile : bs'.file = writeAt s.bs.file e.offset.toNat (bufWrite cbc s.bs e))
    (hSize : bs'.clusterSize = s.bs.clusterSize) (hKey : bs'.aesniCtx = s.bs.aesniCtx) {t : List UInt8} (ht : s.stored offset = some t)
    (hDisk : offset ≠ e.offset → OnDisk cbc s.bs offset t) : OnDisk cbc bs' offset t := by
  have hLen := length_bufWrite h he
  rw [OnDisk, hFile, hSize, hKey]
  by_cases hOff : offset = e.offset
  · subst hOff
    rw [← hLen, readAt_writeAt_self, bufWrite_eq h he, (h.entries c i e he).current h0 t ht]
  · have hApart := aligned_disjoint (h.stored offset t ht).2.1
      ((h.entries c i e he).valid h0).aligned fun hEq => hOff (UInt64.toNat_inj.mp hEq)
    rw [readAt_writeAt_of_disjoint _ (by rw [hLen]; exact hApart)]
    exact hDisk hOff

theorem Inv.write (h : Inv cbc owner s) (he : s.bs.entry c i = some e) (h0 : e.offset ≠ 0) :
    Inv cbc owner { s with
      bs := ({ s.bs.ioNext with
        file := writeAt s.bs.file e.offset.toNat (bufWrite cbc s.bs e) }.modifyEntry c i
          fun e => { e with dirty := false }) } := by
  -- the file first, then the flag
  let bs₁ : BlockDriverState Key :=
    { s.bs.ioNext with file := writeAt s.bs.file e.offset.toNat (bufWrite cbc s.bs e) }
  have hEntry : ∀ d j, bs₁.entry d j = s.bs.entry d j := fun d j => by cases d <;> rfl
  have hDisk : ∀ {offset t}, s.stored offset = some t →
      (offset ≠ e.offset → OnDisk cbc s.bs offset t) → OnDisk cbc bs₁ offset t :=
    onDisk_write h he h0 bs₁ rfl rfl rfl
  have h₁ : Inv cbc owner { s with bs := bs₁ } := by
    constructor
    case mode => exact h.mode
    case blocks => exact h.blocks
    case pos => exact h.pos
    case io => exact fun n => h.io (n + 1)
    case entries =>
      intro d j e' he'
      have hOk := h.entries d j e' (hEntry d j ▸ he')
      exact { hOk with
        clean := fun h0 hd hp t ht => hDisk ht fun _ => hOk.clean h0 hd hp t ht }
    case unique =>
      intro d j k e₁ e₂ h₁ h₂
      exact h.unique d j k e₁ e₂ (hEntry d j ▸ h₁) (hEntry d k ▸ h₂)
    case absent =>
      intro offset t ht hAbs
      exact hDisk ht fun _ => h.absent offset t ht fun j e' he' =>
        hAbs j e' ((hEntry _ j).trans he')
    case stored => exact h.stored
  have he₁ : bs₁.entry c i = some e := (hEntry c i).trans he
  have hOk := h₁.entries c i e he₁
  exact h₁.reflag he₁ rfl (fun _ _ _ => rfl) rfl rfl rfl hOk.held hOk.settled
    fun _ _ _ t ht => hDisk ht fun hNe => absurd rfl hNe

theorem Inv.flushStep (h : Inv cbc owner s)
    (hStep : FlushStep cbc s.bs bs') : Inv cbc owner { s with bs := bs' } := by
  cases hStep with
  | io =>
    exact h.congr (fun c i => by rw [BlockDriverState.entry_ioNext]) rfl rfl rfl rfl
      fun n => h.io (n + 1)
  | flags c k hk =>
    refine h.congr (fun d i => by rw [s.bs.entry_setCache_of_entries c hk]) ?_ ?_ ?_ ?_ ?_
    all_goals simp
    exact h.io
  | write c i e he h0 => exact h.write he h0

theorem Inv.flushSteps (h : Inv cbc owner s)
    (hSteps : FlushSteps cbc s.bs bs') : Inv cbc owner { s with bs := bs' } := by
  induction hSteps with
  | refl => exact h
  | tail _ hStep ih => exact ih.flushStep hStep

/-! ## Looking tables up -/

theorem findOffset_some
    (h : findOffset (bs.cache c) offset = some i) :
    ∃ e, bs.entry c i = some e ∧ e.offset = offset := by
  obtain ⟨hi, hOff, -⟩ := List.findIdx?_eq_some_iff_getElem.mp h
  exact ⟨_, List.getElem?_eq_getElem hi, by simpa using hOff⟩

theorem findOffset_none
    (h : findOffset (bs.cache c) offset = none)
    (he : bs.entry c i = some e) : e.offset ≠ offset := by
  have hAll := List.findIdx?_eq_none_iff.mp h
  simpa using hAll e (List.mem_of_getElem? he)

theorem minHits_some {es : List Qcow2CachedTable} {k : Nat} {m : Option Nat} {n : Nat}
    (h : minHits es k m n = some i) :
    m = some i ∨ ∃ j e, es[j]? = some e ∧ e.ref = 0 ∧ i = k + j := by
  induction es generalizing k m n with
  | nil => exact .inl h
  | cons e es ih =>
    have hTail : (∃ j e', es[j]? = some e' ∧ e'.ref = 0 ∧ i = k + 1 + j) →
        ∃ j e', (e :: es)[j]? = some e' ∧ e'.ref = 0 ∧ i = k + j := by
      rintro ⟨j, e', he', hRef, rfl⟩
      exact ⟨j + 1, e', by simpa using he', hRef, by omega⟩
    unfold minHits at h
    split at h
    · exact (ih h).imp_right hTail
    · rename_i hRef
      split at h
      · rcases ih h with hi | hi
        · cases hi
          exact .inr ⟨0, e, rfl, by simpa using hRef, rfl⟩
        · exact .inr (hTail hi)
      · exact (ih h).imp_right hTail

theorem qcow2CacheFindEntryToReplace_some {k : Qcow2Cache} (h : qcow2CacheFindEntryToReplace (bs.cache c) = some (i, k)) :
    (∃ e, (bs.setCache c k).entry c i = some e ∧ e.ref = 0) ∧
      ∀ d j, ((bs.setCache c k).entry d j).map (fun e => { e with cacheHits := 0 }) =
        (bs.entry d j).map fun e => { e with cacheHits := 0 } := by
  obtain ⟨i', hi, h⟩ := Option.bind_eq_some_iff.mp h
  cases h
  constructor
  · rcases minHits_some hi with hNone | ⟨j, e, he, hRef, rfl⟩
    · cases hNone
    · refine ⟨{ e with cacheHits := e.cacheHits / 2 }, ?_, hRef⟩
      simp [BlockDriverState.entry, he, hRef]
  · intro d j
    by_cases hd : d = c
    · subst hd
      rw [BlockDriverState.entry, BlockDriverState.cache_setCache_self, BlockDriverState.entry,
        List.getElem?_map, map_map]
      congr 1
      funext e
      by_cases hRef : e.ref = 0 <;> simp [hRef]
    · rw [BlockDriverState.entry, BlockDriverState.cache_setCache_of_ne _ _ hd,
        BlockDriverState.entry]

/-- What `qcow2_cache_do_get` reads: the cluster decrypted under the IV of offset zero. -/
def loaded (cbc : AesCbc Key) (bs : BlockDriverState Key) (offset : UInt64) : List UInt8 :=
  cbc.crypt bs.aesniCtx (setIv 0 true) false (readAt bs.file offset.toNat bs.clusterSize)

theorem length_readAt (file : Nat → UInt8) (offset len : Nat) :
    (readAt file offset len).length = len := by
  simp [readAt]

theorem length_loaded (h : Inv cbc owner s) (offset : UInt64) :
    (loaded cbc s.bs offset).length = s.bs.clusterSize := by
  have hLen := length_readAt s.bs.file offset.toNat s.bs.clusterSize
  rw [loaded, cbc.length_crypt _ _ _ _ (length_setIv ..) (by rw [hLen]; exact h.blocks), hLen]

def installed (cbc : AesCbc Key) (bs : BlockDriverState Key) (offset : UInt64)
    (readFromDisk : Bool) (e : Qcow2CachedTable) : Qcow2CachedTable :=
  { e with
    table := if readFromDisk then loaded cbc bs offset else e.table
    offset := offset
    cacheHits := 33
    ref := e.ref + 1 }

theorem doGetRead_some (h : Inv cbc owner s)
    (he : s.bs.entry c i = some e)
    (hRead : doGetRead cbc (s.bs.modifyEntry c i fun e => { e with offset := 0 }) c i offset =
      some (ret, bs')) :
    ret = 0 ∧ bs' = s.bs.ioNext.modifyEntry c i fun e =>
      { e with table := loaded cbc s.bs offset, offset := 0 } := by
  have he₀ : (s.bs.modifyEntry c i fun e => { e with offset := 0 }).entry c i =
      some { e with offset := 0 } := by
    rw [BlockDriverState.entry_modifyEntry_self, he, map_some]
  unfold doGetRead at hRead
  rw [show ((s.bs.modifyEntry c i fun e => { e with offset := 0 }).cache c).entries[i]? =
    some { e with offset := 0 } from he₀] at hRead
  have hPos : ¬ s.bs.io 0 < 0 := Int.not_lt.mpr (h.io 0)
  have hMode : (s.bs.ioNext.modifyEntry c i fun e => { e with offset := 0 }).cryptMethod =
      .aesPriv := by
    rw [BlockDriverState.cryptMethod_modifyEntry]
    exact h.mode
  simp only [bdrvPread, BlockDriverState.io_modifyEntry, hPos, if_false,
    BlockDriverState.ioNext_modifyEntry, hMode, if_true, BlockDriverState.file_modifyEntry,
    BlockDriverState.clusterSize_modifyEntry, BlockDriverState.aesniCtx_modifyEntry] at hRead
  split at hRead
  · cases hRead
  · cases hRead
    refine ⟨rfl, ?_⟩
    have hLoad : qcow2EncryptMetadata cbc 0 (readAt s.bs.file offset.toNat s.bs.clusterSize)
        s.bs.ioNext.clusterSize 1 false s.bs.ioNext.aesniCtx = loaded cbc s.bs offset :=
      qcow2EncryptMetadata_one cbc _ _ _ (length_readAt ..)
    rw [BlockDriverState.modifyEntry_modifyEntry, hLoad]
    rfl

/-- **What a miss does**: it chooses an unreferenced entry, makes sure that its table is on
disk, and reuses the entry for `offset`. -/
theorem qcow2CacheDoGet_miss (h : Inv cbc owner s) {readFromDisk : Bool} {table : Option Nat} (hMiss : findOffset (s.bs.cache c) offset = none)
    (hGet : qcow2CacheDoGet cbc depth s.bs c offset readFromDisk = some (ret, table, bs')) :
    ∃ i e bs₁, Inv cbc owner { s with bs := bs₁ } ∧ bs₁.aesniCtx = s.bs.aesniCtx ∧
      bs₁.clusterSize = s.bs.clusterSize ∧ bs₁.entry c i = some e ∧ e.ref = 0 ∧
      (e.dirty = false ∨ e.offset = 0) ∧
      (∀ j e', bs₁.entry c j = some e' → e'.offset ≠ offset) ∧
      ret = 0 ∧ table = some i ∧
      bs' = bs₁.modifyEntry c i (installed cbc bs₁ offset readFromDisk) := by
  unfold qcow2CacheDoGet at hGet
  rw [hMiss] at hGet
  obtain ⟨⟨i, k⟩, hRepl, hGet⟩ := Option.bind_eq_some_iff.mp hGet
  obtain ⟨⟨r, bs₁⟩, hFlush, hGet⟩ := Option.bind_eq_some_iff.mp hGet
  obtain ⟨⟨e₀, he₀, hRef₀⟩, hHits⟩ := qcow2CacheFindEntryToReplace_some hRepl
  have h₀ : Inv cbc owner { s with bs := s.bs.setCache c k } :=
    h.congr hHits (by simp) (by simp) (by simp) (by simp) (by simpa using h.io)
  have hSteps := qcow2CacheEntryFlush_steps (qcow2CacheFlush_steps depth) hFlush
  have hr : 0 ≤ r := qcow2CacheEntryFlush_succeeds (qcow2CacheFlush_steps depth)
    (qcow2CacheFlush_succeeds depth) h₀.io hFlush
  have h₁ : Inv cbc owner { s with bs := bs₁ } := h₀.flushSteps hSteps
  obtain ⟨e₁, he₁, hClean⟩ := qcow2CacheEntryFlush_clean hFlush hr
  have hRef : e₁.ref = 0 := by
    obtain ⟨e₂, he₂, -, -, hRef⟩ := hSteps.entry_some_of he₁
    rw [he₀] at he₂
    cases he₂
    exact hRef.trans hRef₀
  have hKey : bs₁.aesniCtx = s.bs.aesniCtx := by simpa using hSteps.frame.2.2.1
  have hSize : bs₁.clusterSize = s.bs.clusterSize := by simpa using hSteps.frame.1
  have hAbs : ∀ j e', bs₁.entry c j = some e' → e'.offset ≠ offset := by
    intro j e' he'
    obtain ⟨e₂, he₂, -, hOff₂, -⟩ := hSteps.entry_some_of he'
    have hMap := hHits c j
    rw [he₂] at hMap
    obtain ⟨e₃, he₃, hEq⟩ := Option.map_eq_some_iff.mp hMap.symm
    simp only [Qcow2CachedTable.mk.injEq] at hEq
    rw [hOff₂, ← hEq.2.1]
    exact findOffset_none hMiss he₃
  simp only [Int.not_lt.mpr hr, if_false] at hGet
  cases readFromDisk with
  | false =>
    simp only [Bool.false_eq_true, if_false, bind_eq_bind, bind_some] at hGet
    cases hGet
    refine ⟨i, e₁, bs₁, h₁, hKey, hSize, he₁, hRef, hClean, hAbs, rfl, rfl, ?_⟩
    simp only [BlockDriverState.modifyEntry_modifyEntry]
    rfl
  | true =>
    simp only [if_true] at hGet
    obtain ⟨⟨r', bs₂⟩, hRead, hGet⟩ := Option.bind_eq_some_iff.mp hGet
    obtain ⟨rfl, rfl⟩ := doGetRead_some h₁ he₁ hRead
    cases hGet
    refine ⟨i, e₁, bs₁.ioNext, h₁.flushStep (.io bs₁), hKey, hSize, ?_, hRef, hClean, ?_,
      rfl, rfl, ?_⟩
    · rw [BlockDriverState.entry_ioNext, he₁]
    · simpa only [BlockDriverState.entry_ioNext] using hAbs
    · simp only [BlockDriverState.modifyEntry_modifyEntry]
      rfl

theorem Inv.install (h : Inv cbc owner s) {readFromDisk : Bool}
    {stored' : UInt64 → Option (List UInt8)}
    (hOff : ValidOffset owner s.bs.clusterSize c offset) (he : s.bs.entry c i = some e)
    (hRef : e.ref = 0) (hClean : e.dirty = false ∨ e.offset = 0)
    (hAbs : ∀ j e', s.bs.entry c j = some e' → e'.offset ≠ offset)
    (hOther : ∀ o, o ≠ offset → stored' o = s.stored o)
    (hSame : ∀ t, stored' offset = some t → s.stored offset = some t)
    (hCur : ∀ t, stored' offset = some t →
      (installed cbc s.bs offset readFromDisk e).table = t) :
    Inv cbc owner { s with
      bs := s.bs.modifyEntry c i (installed cbc s.bs offset readFromDisk)
      stored := stored' } := by
  have hOk := h.entries c i e he
  refine h.modify he rfl (fun _ _ _ => rfl) ?_ ?_ ?_ ?_ ?_
  · intro o
    by_cases ho : o = offset
    · exact .inr ⟨ho, ho ▸ hOff.ne_zero⟩
    · exact .inl (hOther o ho)
  · constructor
    case length =>
      cases readFromDisk
      · simpa [installed] using hOk.length
      · simpa [installed] using length_loaded h offset
    case valid => exact fun _ => by simpa [installed] using hOff
    case held => exact fun _ => hOff.ne_zero
    case settled => exact fun h0 => absurd h0 (Nat.succ_ne_zero _)
    case current => exact fun _ => hCur
    case clean =>
      intro _ _ _ t ht
      have hDisk := h.absent offset t (hSame t ht) (by rw [hOff.owner_eq]; exact hAbs)
      simpa [OnDisk, installed] using hDisk
  · intro _ j e' he' hEq
    exact absurd hEq (hAbs j e' he')
  · intro h0 _ t ht
    exact hOk.clean h0 (hClean.resolve_right h0) (hOk.settled hRef) t ht
  · intro t ht hNe
    exact absurd (hSame t ht) hNe

theorem Inv.found (h : Inv cbc owner s) (he : s.bs.entry c i = some e) (h0 : e.offset ≠ 0) :
    Inv cbc owner { s with bs := (doGetFound s.bs c i).2.2 } := by
  exact h.reflag he rfl (fun _ _ _ => rfl) rfl rfl rfl (fun _ => h0)
    (fun hRef => absurd hRef (Nat.succ_ne_zero _)) (h.entries c i e he).clean

/-! ## Calls that keep the invariant -/

theorem Inv.getEmpty (h : Inv cbc owner s) (hOff : ValidOffset owner s.bs.clusterSize c offset)
    {table : Option Nat}
    (hGet : qcow2CacheGetEmpty cbc depth s.bs c offset = some (ret, table, bs')) :
    Inv cbc owner { s with
      bs := bs'
      stored := if (findOffset (s.bs.cache c) offset).isSome then s.stored
        else update s.stored offset none } := by
  cases hFind : findOffset (s.bs.cache c) offset with
  | some i =>
    rw [qcow2CacheGetEmpty, qcow2CacheDoGet, hFind] at hGet
    cases hGet
    obtain ⟨e, he, rfl⟩ := findOffset_some hFind
    exact h.found he hOff.ne_zero
  | none =>
    obtain ⟨i, e, bs₁, h₁, -, hSize, he, hRef, hClean, hAbs, -, -, rfl⟩ :=
      qcow2CacheDoGet_miss h hFind hGet
    have hNone : ∀ t, update s.stored offset none offset ≠ some t := by
      intro t
      simp
    simp only [isSome_none, Bool.false_eq_true, if_false]
    exact h₁.install (by simpa only [hSize] using hOff) he hRef hClean hAbs
      (fun o ho => update_of_ne ho none s.stored)
      (fun t ht => absurd ht (hNone t)) fun t ht => absurd ht (hNone t)

theorem Inv.edit (h : Inv cbc owner s) {table : List UInt8} (he : s.bs.entry c i = some e)
    (hRef : e.ref ≠ 0) (hLen : table.length = s.bs.clusterSize) :
    Inv cbc owner
      { bs := s.bs.modifyEntry c i fun e => { e with table := table }
        stored := update s.stored e.offset (some table)
        pending := setPending s.pending c i true } := by
  have hOk := h.entries c i e he
  have h0 : e.offset ≠ 0 := hOk.held hRef
  refine h.modify he rfl ?_ ?_ ?_ (fun h0 j e' he' hEq => h.unique c i j e e' he he' h0 hEq)
    (fun _ hMoved => absurd rfl hMoved) ?_
  · intro d j hNe
    exact if_neg (by tauto)
  · intro o
    by_cases ho : o = e.offset
    · exact .inr ⟨ho, ho ▸ h0⟩
    · exact .inl (update_of_ne ho _ _)
  · constructor
    case length => simpa using hLen
    case valid => simpa using hOk.valid
    case held => exact hOk.held
    case settled => exact fun hZero => absurd hZero hRef
    case current =>
      intro _ t ht
      simpa using ht
    case clean =>
      intro _ _ hPend
      simp [setPending] at hPend
  · intro t ht _
    simp only [update_self, Option.some.injEq] at ht
    rw [← ht, hLen]

theorem Inv.entryMarkDirty (h : Inv cbc owner s) (he : s.bs.entry c i = some e) (hRef : e.ref ≠ 0) (hMark : qcow2CacheEntryMarkDirty s.bs c i = some bs') :
    Inv cbc owner { s with bs := bs', pending := setPending s.pending c i false } := by
  have hOk := h.entries c i e he
  unfold qcow2CacheEntryMarkDirty at hMark
  rw [show (s.bs.cache c).entries[i]? = some e from he] at hMark
  cases hMark
  exact h.reflag he rfl (fun d j hNe => if_neg (by tauto)) rfl rfl rfl hOk.held
    (fun hZero => absurd hZero hRef) fun _ hDirty => by cases hDirty

theorem Inv.put (h : Inv cbc owner s) (he : s.bs.entry c i = some e)
    (hDone : s.pending c i = false ∨ 1 < e.ref)
    (hPut : qcow2CachePut cbc depth s.bs c i = some (ret, bs')) :
    Inv cbc owner { s with bs := bs' } := by
  have hOk := h.entries c i e he
  unfold qcow2CachePut at hPut
  rw [show (s.bs.cache c).entries[i]? = some e from he] at hPut
  simp only at hPut
  split at hPut
  · cases hPut
  · rename_i hRef
    have h₁ : Inv cbc owner { s with
        bs := s.bs.modifyEntry c i fun e => { e with ref := e.ref - 1 } } :=
      h.reflag he rfl (fun _ _ _ => rfl) rfl rfl rfl (fun _ => hOk.held hRef)
        (fun (hZero : e.ref - 1 = 0) => hDone.resolve_right (by omega)) hOk.clean
    split at hPut
    · exact h₁.flushSteps (qcow2CacheEntryFlush_steps (qcow2CacheFlush_steps depth) hPut)
    · cases hPut
      exact h₁

theorem qcow2CacheSetDependency_steps
    (h : qcow2CacheSetDependency cbc depth bs c d = some (ret, bs')) :
    FlushSteps cbc bs bs' := by
  have hPart : ∀ {bs₁ bs₂ : BlockDriverState Key} {k : CacheId} {p : Prop} [Decidable p]
      {r : Int}, (if p then qcow2CacheFlushDependency (qcow2CacheFlush cbc depth) bs₁ k
        else some (0, bs₁)) = some (r, bs₂) → FlushSteps cbc bs₁ bs₂ := by
    intro bs₁ bs₂ k p _ r hIf
    split at hIf
    · exact qcow2CacheFlushDependency_steps (qcow2CacheFlush_steps depth) hIf
    · cases hIf
      exact Relation.ReflTransGen.refl
  unfold qcow2CacheSetDependency at h
  obtain ⟨⟨r₁, bs₁⟩, h₁, h⟩ := Option.bind_eq_some_iff.mp h
  simp only at h
  split at h
  · cases h
    exact hPart h₁
  · obtain ⟨⟨r₂, bs₂⟩, h₂, h⟩ := Option.bind_eq_some_iff.mp h
    simp only at h
    split at h
    · cases h
      exact (hPart h₁).trans (hPart h₂)
    · cases h
      exact ((hPart h₁).trans (hPart h₂)).tail (.flags _ _ _ rfl)

theorem qcow2CacheSetWritethrough_steps {enable old : Bool}
    (h : qcow2CacheSetWritethrough cbc depth bs c enable = some (old, bs')) :
    FlushSteps cbc bs bs' := by
  unfold qcow2CacheSetWritethrough at h
  obtain ⟨⟨r, bs₁⟩, h₁, h⟩ := Option.bind_eq_some_iff.mp h
  cases h
  refine Relation.ReflTransGen.tail ?_ (.flags _ _ _ rfl)
  split at h₁
  · exact qcow2CacheFlush_steps depth _ _ _ _ h₁
  · cases h₁
    exact Relation.ReflTransGen.refl

end Preservation

end Lacuna.Qcow2
