import Mathlib.Algebra.BigOperators.Group.List.Basic
import Lacuna.Lib.CtrReads
import Lacuna.Net.Tap

/-!
# Frames in several elements

`tap_write_packet` takes each element of its iovec for a frame of its own. With two or
more elements, fewer bytes of keystream are read than the payload has bytes, so that
the result cannot depend on all of them (`cryptIov_flipKey`, `usedIov_length_le`).
-/

namespace Lacuna.Net

open Lacuna.Lib Lacuna.Crypt List

section Gather

variable (aes : List UInt8 → BlockStream 128 16) (last : AesBlock)

variable {st : AesniState} {key : List UInt8} {pos : BitVec 128 × Nat}

/-- What `tap_write_packet` passes to `writev` after the header, and the
contexts afterwards. -/
def passed (s : Vm) (hdr : Option Iovec) (es : List Iovec) : List UInt8 × List NICInfo :=
  let t := cryptIov aes last s (hdr.toList ++ es)
  ((gather t.mem (hdr.toList ++ es)).drop ((hdr.map Iovec.len).getD 0), t.ndTable)

/-- The same for a frame in one element, at the address 0. -/
def passedWhole (ndTable : List NICInfo) (f : List UInt8) : List UInt8 × List NICInfo :=
  passed aes last ⟨store (fun _ => 0) 0 f, ndTable⟩ none [⟨0, f.length⟩]

variable {aes last}

theorem gather_append (mem : Mem) (es es' : List Iovec) :
    gather mem (es ++ es') = gather mem es ++ gather mem es' :=
  flatMap_append ..

theorem passed_eq (s : Vm) (hdr : Option Iovec) (es : List Iovec) : passed aes last s hdr es =
      (gather (cryptIov aes last s (hdr.toList ++ es)).mem es,
        (cryptIov aes last s (hdr.toList ++ es)).ndTable) := by
  cases hdr with
  | none => rfl
  | some h =>
    simp only [passed, gather_append, Option.toList_some, Option.map_some, Option.getD_some]
    rw [List.drop_left']
    simp [gather]

theorem passedWhole_eq {ndTable : List NICInfo} {f : List UInt8} {i : Nat} {dir : Dir} (hLen : DATA_START_POS ≤ f.length)
    (hFind : findCctx ndTable (frameMac false f) false = some (i, ⟨dir, some st⟩)) :
    passedWhole aes last ndTable f = ((cryptFrame aes false st f).1,
        ndTable.modify i (·.setCctx false ⟨dir, some (cryptFrame aes false st f).2⟩)) := by
  have hLoad : load (store (fun _ => 0) 0 f) 0 f.length = f := load_store_self ..
  have hFind' : findCctx ndTable (frameMac false (load (store (fun _ => 0) 0 f) 0 f.length)) false =
      some (i, ⟨dir, some st⟩) := by rwa [hLoad]
  have hMem := @load_cryptElement aes last ⟨0, f.length⟩ ⟨store (fun _ => 0) 0 f, ndTable⟩ i dir st
    hLen hFind'
  have hRun := @cryptElement_frame aes last ⟨0, f.length⟩ ⟨store (fun _ => 0) 0 f, ndTable⟩ i dir st
    hLen hFind'
  rw [hLoad] at hRun hMem
  rw [passedWhole, passed_eq]
  refine Prod.ext ?_ (congrArg Vm.ndTable hRun)
  exact (append_nil _).trans hMem

/-! ## One element -/

/-- The frame is in one element. The others are empty, and neither their type byte nor that of a
header with the MAC of a NIC is in the frame. -/
def InOneElement (s : Vm) (hdr : Option Iovec) (es : List Iovec) : Prop :=
  ∃ pre e post, es = pre ++ e :: post ∧
    (∀ x ∈ pre ++ post, x.len = 0 ∧ ¬ e.Holds (x.base + TYPE_BYTE_POS)) ∧
    ∀ h, hdr = some h →
      (findCctx s.ndTable (load s.mem (h.base + MAC_LEN) MAC_LEN) false).isSome →
      ¬ e.Holds (h.base + TYPE_BYTE_POS)

theorem gather_empty (mem : Mem) {es : List Iovec} (h : ∀ x ∈ es, x.len = 0) :
    gather mem es = [] := by
  refine List.flatMap_eq_nil_iff.mpr fun x hx => ?_
  rw [h x hx, load_zero]

theorem gather_one (mem : Mem) {pre post : List Iovec} (e : Iovec)
    (h : ∀ x ∈ pre ++ post, x.len = 0) :
    gather mem (pre ++ e :: post) = load mem e.base e.len := by
  rw [gather_append, gather_empty mem fun x hx => h x (mem_append_left _ hx)]
  show load mem e.base e.len ++ gather mem post = _
  rw [gather_empty mem fun x hx => h x (mem_append_right _ hx), append_nil]

theorem cryptIov_empty {e : Iovec} {xs : List Iovec}
    (h : ∀ x ∈ xs, x.len = 0 ∧ ¬ e.Holds (x.base + TYPE_BYTE_POS)) (s : Vm) :
    (cryptIov aes last s xs).ndTable = s.ndTable ∧
      load (cryptIov aes last s xs).mem e.base e.len = load s.mem e.base e.len := by
  induction xs generalizing s with
  | nil => exact ⟨rfl, rfl⟩
  | cons x xs ih =>
    obtain ⟨hLen, hType⟩ := h x mem_cons_self
    obtain ⟨hTable, hMem⟩ := @cryptElement_short aes last x (by rw [hLen]; decide) s
    obtain ⟨hTable', hMem'⟩ := ih (fun y hy => h y (mem_cons_of_mem _ hy))
      (cryptElement aes last s x)
    refine ⟨hTable'.trans hTable, hMem'.trans (load_congr fun j hj => hMem _ ?_ ?_)⟩
    · rintro ⟨hLow, hHigh⟩
      omega
    · rintro - hEq
      exact hType ⟨by omega, by omega⟩

theorem cryptIov_hdr {e : Iovec} {hdr : Option Iovec} {s : Vm}
    (hShort : ∀ h, hdr = some h → h.len < DATA_START_POS)
    (hDisj : ∀ h, hdr = some h → ∀ a, h.Holds a → ¬ e.Holds a)
    (hType : ∀ h, hdr = some h →
      (findCctx s.ndTable (load s.mem (h.base + MAC_LEN) MAC_LEN) false).isSome →
      ¬ e.Holds (h.base + TYPE_BYTE_POS)) :
    (cryptIov aes last s hdr.toList).ndTable = s.ndTable ∧
      load (cryptIov aes last s hdr.toList).mem e.base e.len = load s.mem e.base e.len := by
  cases hdr with
  | none => exact ⟨rfl, rfl⟩
  | some h =>
    obtain ⟨hTable, hMem⟩ := @cryptElement_short aes last h (hShort h rfl) s
    refine ⟨hTable, load_congr fun j hj => hMem _ ?_ ?_⟩
    · exact fun hHolds => hDisj h rfl _ hHolds ⟨by omega, by omega⟩
    · rintro hSome hEq
      exact hType h rfl hSome ⟨by omega, by omega⟩

/-- **One element is enough.** -/
theorem passed_of_inOneElement {s : Vm} {hdr : Option Iovec} {es : List Iovec} {i : Nat} {dir : Dir}
    {st : AesniState} (hShort : ∀ h, hdr = some h → h.len < DATA_START_POS)
    (hDisj : ∀ h, hdr = some h → ∀ e ∈ es, ∀ a, h.Holds a → ¬ e.Holds a)
    (hLen : DATA_START_POS ≤ (gather s.mem es).length)
    (hFind : findCctx s.ndTable (frameMac false (gather s.mem es)) false =
      some (i, ⟨dir, some st⟩)) (hOne : InOneElement s hdr es) :
    passed aes last s hdr es = passedWhole aes last s.ndTable (gather s.mem es) := by
  rw [passedWhole_eq hLen hFind]
  obtain ⟨pre, e, post, rfl, hEmpty, hHdr⟩ := hOne
  have hZero : ∀ x ∈ pre ++ post, x.len = 0 := fun x hx => (hEmpty x hx).1
  rw [gather_one s.mem e hZero, length_load] at hLen
  rw [gather_one s.mem e hZero] at hFind ⊢
  -- before the frame's element its bytes and the contexts are as they were
  obtain ⟨hTable₁, hMem₁⟩ := @cryptIov_hdr aes last e hdr s hShort
    (fun h hh => hDisj h hh e (by simp)) hHdr
  obtain ⟨hTable₂, hMem₂⟩ := @cryptIov_empty aes last e pre
    (fun x hx => hEmpty x (mem_append_left _ hx)) (cryptIov aes last s hdr.toList)
  have hTable := hTable₂.trans hTable₁
  have hMem := hMem₂.trans hMem₁
  generalize hs' : cryptIov aes last (cryptIov aes last s hdr.toList) pre = s' at hTable hMem
  have hFind' : findCctx s'.ndTable (frameMac false (load s'.mem e.base e.len)) false =
      some (i, ⟨dir, some st⟩) := by rwa [hMem, hTable]
  have hRun := @cryptElement_frame aes last e s' i dir st hLen hFind'
  rw [hMem, hTable] at hRun
  -- and after it nothing comes near it any more
  obtain ⟨hTable₃, hMem₃⟩ := @cryptIov_empty aes last e post
    (fun x hx => hEmpty x (mem_append_right _ hx)) (cryptElement aes last s' e)
  have hAll : cryptIov aes last s (hdr.toList ++ (pre ++ e :: post)) =
      cryptIov aes last (cryptElement aes last s' e) post := by
    rw [← hs']
    simp only [cryptIov, foldl_append, foldl_cons]
  rw [passed_eq, hAll, gather_one _ e hZero, hMem₃, hTable₃, load_cryptElement hLen hFind', hMem,
    hRun]

/-! ## What a run reads of the keystream -/

variable (aes last)

def noCipher : List UInt8 → BlockStream 128 16 := fun _ => ⟨fun _ => List.replicate 16 0, fun _ => rfl⟩

/-- The bytes of keystream read for one element, with their key. -/
def usedElement (s : Vm) (e : Iovec) : List (List UInt8 × BitVec 128 × Nat) :=
  match findCctx s.ndTable (load s.mem (e.base + MAC_LEN) MAC_LEN) false with
  | some (_, ⟨_, some st⟩) => (reads 16 st.iv (e.len - DATA_START_POS)).map (Prod.mk st.key)
  | _ => []

def usedIov : Vm → List Iovec → List (List UInt8 × BitVec 128 × Nat)
  | _, [] => []
  | s, e :: es => usedElement s e ++ usedIov (cryptElement aes last s e) es

/-- The cipher with one byte of the keystream of one key changed. -/
def flipKey (key : List UInt8) (pos : BitVec 128 × Nat) : List UInt8 → BlockStream 128 16 :=
  Function.update aes key ((aes key).flip pos)

variable {aes last}

theorem usedElement_length_le (s : Vm) (e : Iovec) :
    (usedElement s e).length ≤ e.len - DATA_START_POS := by
  unfold usedElement
  split
  · rw [length_map, length_reads]
  · exact Nat.zero_le _

theorem usedIov_length_le (s : Vm) (es : List Iovec) :
    (usedIov aes last s es).length ≤ (es.map fun e => e.len - DATA_START_POS).sum := by
  induction es generalizing s with
  | nil => exact Nat.le_refl 0
  | cons e es ih =>
    rw [usedIov, length_append, map_cons, sum_cons]
    exact Nat.add_le_add (usedElement_length_le s e) (ih _)

theorem userPrivCrypt_flipKey {dir : Dir} {data : List UInt8}
    (h : (key, pos) ∉ (reads 16 st.iv data.length).map (Prod.mk st.key)) :
    userPrivCrypt (flipKey aes key pos) last ⟨dir, some st⟩ data =
      userPrivCrypt aes last ⟨dir, some st⟩ data := by
  have hCtr : ctrCrypt (flipKey aes key pos st.key) st.iv data =
      ctrCrypt (aes st.key) st.iv data := by
    by_cases hKey : st.key = key
    · subst hKey
      rw [flipKey, Function.update_self]
      exact ctrCrypt_flip (by decide) fun hPos => h (mem_map_of_mem hPos)
    · rw [flipKey, Function.update_of_ne hKey]
  rw [userPrivCrypt_eq, userPrivCrypt_eq, hCtr]

theorem cryptElement_flipKey {s : Vm} {e : Iovec} (h : (key, pos) ∉ usedElement s e) :
    cryptElement (flipKey aes key pos) last s e = cryptElement aes last s e := by
  unfold cryptElement privCryptPacket
  unfold usedElement at h
  rw [show e.base + MAC_LEN = e.base + macPos false from rfl] at h
  cases hFind : findCctx s.ndTable (load s.mem (e.base + macPos false) MAC_LEN) false with
  | none => rfl
  | some r =>
    obtain ⟨i, dir, userCtx⟩ := r
    cases userCtx with
    | none => cases dir <;> rfl
    | some st =>
      rw [hFind] at h
      simp only
      rw [userPrivCrypt_flipKey (by rwa [length_load])]

/-- A run does not see a change of keystream that it does not read. -/
theorem cryptIov_flipKey {s : Vm} {es : List Iovec} (h : (key, pos) ∉ usedIov aes last s es) :
    cryptIov (flipKey aes key pos) last s es = cryptIov aes last s es := by
  induction es generalizing s with
  | nil => simp only [cryptIov, foldl_nil]
  | cons e es ih =>
    have hHead : (key, pos) ∉ usedElement s e := fun hm => h (mem_append_left _ hm)
    have hTail : (key, pos) ∉ usedIov aes last (cryptElement aes last s e) es :=
      fun hm => h (mem_append_right _ hm)
    simp only [cryptIov, foldl_cons, cryptElement_flipKey hHead] at ih ⊢
    exact ih hTail

theorem cryptFrame_flipKey_ne {dirIn : Bool} {f : List UInt8} (hLen : DATA_START_POS ≤ f.length)
    (h : pos ∈ reads 16 st.iv (f.length - DATA_START_POS)) :
    (cryptFrame (flipKey aes st.key pos) dirIn st f).1 ≠ (cryptFrame aes dirIn st f).1 := by
  intro hEq
  have hKey : flipKey aes st.key pos st.key = (aes st.key).flip pos := Function.update_self ..
  have hData := congrArg (drop DATA_START_POS) hEq
  simp only [drop_cryptFrame hLen, hKey] at hData
  exact ctrCrypt_flip_ne (by decide) (by rwa [length_drop]) hData

/-- **Too little keystream.** With fewer bytes of keystream than the payload has, some cipher
tells the difference. -/
theorem exists_passed_ne {s : Vm} {hdr : Option Iovec} {es : List Iovec} {i : Nat} {dir : Dir}
    {st : AesniState} (hLen : DATA_START_POS ≤ (gather s.mem es).length)
    (hSize : (gather s.mem es).length < 2 ^ 64)
    (hFind : findCctx s.ndTable (frameMac false (gather s.mem es)) false = some (i, ⟨dir, some st⟩))
    (hFew : (usedIov aes last s (hdr.toList ++ es)).length <
      (gather s.mem es).length - DATA_START_POS) :
    ∃ aes', passed aes' last s hdr es ≠ passedWhole aes' last s.ndTable (gather s.mem es) := by
  have hBound : (gather s.mem es).length - DATA_START_POS ≤ 2 ^ 128 * 16 := by omega
  obtain ⟨pos, hPos, hUnread⟩ := exists_unread (by decide) st.key st.iv hBound hFew
  by_contra hAll
  push Not at hAll
  have hPlain := hAll aes
  have hFlip := hAll (flipKey aes st.key pos)
  rw [passed_eq, passedWhole_eq hLen hFind] at hPlain hFlip
  rw [cryptIov_flipKey hUnread] at hFlip
  exact cryptFrame_flipKey_ne hLen hPos
    ((congrArg Prod.fst hFlip).symm.trans (congrArg Prod.fst hPlain))

/-! ## Several elements, and a header like a frame -/

theorem length_gather (mem : Mem) (es : List Iovec) :
    (gather mem es).length = (es.map Iovec.len).sum := by
  rw [gather, length_flatMap]
  exact congrArg sum (map_congr_left fun e _ => length_load ..)

theorem sum_payload_le (es : List Iovec) :
    (es.map fun e => e.len - DATA_START_POS).sum ≤ (es.map Iovec.len).sum - DATA_START_POS := by
  induction es with
  | nil => exact Nat.zero_le _
  | cons e es ih =>
    rw [map_cons, map_cons, sum_cons, sum_cons]
    omega

theorem usedIov_hdr_length_le {s : Vm} {hdr : Option Iovec}
    (hShort : ∀ h, hdr = some h → h.len < DATA_START_POS) (es : List Iovec) :
    (usedIov aes last s (hdr.toList ++ es)).length ≤
      (es.map fun e => e.len - DATA_START_POS).sum := by
  refine (usedIov_length_le s _).trans ?_
  cases hdr with
  | none => exact Nat.le_refl _
  | some h =>
    have hNone : h.len - DATA_START_POS = 0 := Nat.sub_eq_zero_of_le (Nat.le_of_lt (hShort h rfl))
    rw [Option.toList_some, singleton_append, map_cons, sum_cons, hNone, Nat.zero_add]

theorem usedIov_two_lt {s : Vm} {hdr : Option Iovec} {e e' : Iovec} {rest : List Iovec}
    (hShort : ∀ h, hdr = some h → h.len < DATA_START_POS)
    (hPos : ∀ x ∈ e :: e' :: rest, 0 < x.len)
    (hLen : DATA_START_POS < (gather s.mem (e :: e' :: rest)).length) :
    (usedIov aes last s (hdr.toList ++ e :: e' :: rest)).length <
      (gather s.mem (e :: e' :: rest)).length - DATA_START_POS := by
  have hUsed := @usedIov_hdr_length_le aes last s hdr hShort (e :: e' :: rest)
  have hRest := sum_payload_le (e' :: rest)
  have he := hPos e mem_cons_self
  have he' := hPos e' (mem_cons_of_mem _ mem_cons_self)
  rw [length_gather] at hLen ⊢
  rw [map_cons, sum_cons] at hUsed hLen ⊢
  have hTail : 0 < ((e' :: rest).map Iovec.len).sum := by
    rw [map_cons, sum_cons]
    exact Nat.add_pos_left he' _
  rw [show (DATA_START_POS : Nat) = 14 from rfl] at *
  omega

theorem exists_passed_ne_of_hdr {s : Vm} {h e : Iovec} {i : Nat} {dir : Dir} {st : AesniState}
    (hShort : h.len < DATA_START_POS) (hLen : DATA_START_POS < e.len) (hSize : e.len < 2 ^ 64)
    (hFind : findCctx s.ndTable (frameMac false (load s.mem e.base e.len)) false =
      some (i, ⟨dir, some st⟩))
    (hSome : (findCctx s.ndTable (load s.mem (h.base + MAC_LEN) MAC_LEN) false).isSome)
    (hType : e.Holds (h.base + TYPE_BYTE_POS)) :
    ∃ aes', passed aes' last s (some h) [e] ≠
      passedWhole aes' last s.ndTable (load s.mem e.base e.len) := by
  have hOne : ∀ mem, gather mem [e] = load mem e.base e.len := fun mem => append_nil _
  have hWhole : DATA_START_POS ≤ (load s.mem e.base e.len).length := by
    rw [length_load]
    exact Nat.le_of_lt hLen
  let aes : List UInt8 → BlockStream 128 16 := noCipher
  -- the frame as it is after the header
  have hTable := (@cryptElement_short aes last h hShort s).1
  have hByte := @cryptElement_short_type aes last h hShort s hSome
  generalize hs' : cryptElement aes last s h = s' at hTable hByte
  have hRun : cryptIov aes last s ((some h).toList ++ [e]) = cryptElement aes last s' e := by
    rw [← hs']
    rfl
  have hWhole' : DATA_START_POS ≤ (load s'.mem e.base e.len).length := by
    rw [length_load]
    exact Nat.le_of_lt hLen
  have hNe : load s'.mem e.base e.len ≠ load s.mem e.base e.len := by
    obtain ⟨hLow, hHigh⟩ := hType
    obtain ⟨q, hq⟩ := Nat.exists_eq_add_of_le hLow
    intro hEq
    have hAt := congrArg (·[q]?) hEq
    simp only [getElem?_load _ _ (show q < e.len by omega), ← hq, hByte, Option.some.injEq,
      UInt8.add_eq_left] at hAt
    exact absurd hAt (by decide)
  have hFew : usedElement s' e = [] → ∃ aes', passed aes' last s (some h) [e] ≠
      passedWhole aes' last s.ndTable (load s.mem e.base e.len) := by
    intro hNone
    rw [← hOne] at hFind hWhole ⊢
    refine @exists_passed_ne aes last s (some h) [e] i dir st hWhole (by rwa [hOne, length_load])
      hFind ?_
    have hHdr := usedElement_length_le s h
    show (usedElement s h ++ (usedElement (cryptElement aes last s h) e ++ [])).length < _
    rw [hs', hNone, hOne, length_load, append_nil, append_nil]
    omega
  have hMac := load_mac s'.mem e.base (Nat.le_of_lt hLen) false
  cases hFind' : findCctx s'.ndTable (frameMac false (load s'.mem e.base e.len)) false with
  | none => exact hFew (by rw [usedElement, show e.base + MAC_LEN = e.base + macPos false from rfl,
      hMac, hFind'])
  | some r =>
    obtain ⟨i', dir', userCtx⟩ := r
    cases userCtx with
    | none => exact hFew (by rw [usedElement, show e.base + MAC_LEN = e.base + macPos false from rfl,
        hMac, hFind'])
    | some st' =>
      refine ⟨aes, fun hSame => hNe ?_⟩
      have hFrame := congrArg Prod.fst hSame
      rw [passed_eq, passedWhole_eq hWhole hFind, hRun, hOne,
        load_cryptElement (Nat.le_of_lt hLen) hFind'] at hFrame
      have hTake := congrArg (take TYPE_BYTE_POS) hFrame
      rw [take_cryptFrame hWhole', take_cryptFrame hWhole] at hTake
      rw [frameMac_eq_of_take hTake, hTable, hFind] at hFind'
      cases hFind'
      exact cryptFrame_inj hWhole' hWhole hFrame

/-- **Scatter and gather.** A frame in one element, with a header that is not
taken for a frame, is passed on as the whole frame would be. Of a frame with a
payload in non-empty elements this is the only case. -/
theorem scatter_gather_iff {s : Vm} {hdr : Option Iovec} {es : List Iovec} {i : Nat} {dir : Dir}
    {st : AesniState} (hShort : ∀ h, hdr = some h → h.len < DATA_START_POS)
    (hDisj : ∀ h, hdr = some h → ∀ e ∈ es, ∀ a, h.Holds a → ¬ e.Holds a)
    (hLen : DATA_START_POS ≤ (gather s.mem es).length)
    (hFind : findCctx s.ndTable (frameMac false (gather s.mem es)) false =
      some (i, ⟨dir, some st⟩)) :
    (InOneElement s hdr es → ∀ aes,
      passed aes last s hdr es = passedWhole aes last s.ndTable (gather s.mem es)) ∧
    ((∀ e ∈ es, 0 < e.len) → DATA_START_POS < (gather s.mem es).length →
      (gather s.mem es).length < 2 ^ 64 →
      ((∀ aes, passed aes last s hdr es = passedWhole aes last s.ndTable (gather s.mem es)) ↔
        InOneElement s hdr es)) := by
  have hSuff : InOneElement s hdr es → ∀ aes,
      passed aes last s hdr es = passedWhole aes last s.ndTable (gather s.mem es) :=
    fun hOne _ => passed_of_inOneElement hShort hDisj hLen hFind hOne
  refine ⟨hSuff, fun hPos hData hSize => ⟨fun hAll => ?_, hSuff⟩⟩
  match es, hPos, hData with
  | [], _, hData => exact absurd hData (Nat.not_lt_zero _)
  | e :: e' :: rest, hPos, hData =>
    obtain ⟨aes, hNe⟩ := exists_passed_ne hLen hSize hFind
      (@usedIov_two_lt noCipher last s hdr e e' rest hShort hPos hData)
    exact absurd (hAll aes) hNe
  | [e], _, hData =>
    refine ⟨[], e, [], rfl, (fun _ hx => nomatch hx), fun h hh hSome hType => ?_⟩
    have hOne : gather s.mem [e] = load s.mem e.base e.len := append_nil _
    rw [hOne, length_load] at hData hSize
    rw [hOne] at hFind hAll
    subst hh
    obtain ⟨aes, hNe⟩ := @exists_passed_ne_of_hdr last s h e i dir st (hShort h rfl) hData hSize
      hFind hSome hType
    exact absurd (hAll aes) hNe

end Gather

def sampleVm : Vm where
  mem := store (fun _ => 0) 0 [1, 1, 1, 1, 1, 1, 2, 0, 0, 0, 0, 1, 8, 0, 5, 6]
  ndTable := [⟨⟨[2, 0, 0, 0, 0, 1], rfl⟩, none, some ⟨.enc, some ⟨[7], 0⟩⟩⟩]

/-- With its Ethernet header in an element of its own, the frame goes out as it is. -/
theorem split_frame_not_encrypted :
    findCctx sampleVm.ndTable (frameMac false (gather sampleVm.mem [⟨0, 14⟩, ⟨14, 2⟩])) false =
        some (0, ⟨.enc, some ⟨[7], 0⟩⟩) ∧
      (passed onesCipher ⟨List.replicate 16 0, rfl⟩ sampleVm none [⟨0, 14⟩, ⟨14, 2⟩]).1.drop 14 =
        [5, 6] ∧
      (passedWhole onesCipher ⟨List.replicate 16 0, rfl⟩ sampleVm.ndTable
        (gather sampleVm.mem [⟨0, 14⟩, ⟨14, 2⟩])).1.drop 14 = [0xfa, 0xf9] := by
  decide +kernel

theorem whole_frame_encrypted :
    passed onesCipher ⟨List.replicate 16 0, rfl⟩ sampleVm (some ⟨100, 10⟩) [⟨0, 16⟩] =
      passedWhole onesCipher ⟨List.replicate 16 0, rfl⟩ sampleVm.ndTable
        (gather sampleVm.mem [⟨0, 16⟩]) := by
  have hHdr : ∀ h, some (Iovec.mk 100 10) = some h → h = ⟨100, 10⟩ := by
    rintro h ⟨⟩
    rfl
  refine ((@scatter_gather_iff ⟨replicate 16 0, rfl⟩ sampleVm (some ⟨100, 10⟩) [⟨0, 16⟩] 0 .enc
    ⟨[7], 0⟩ ?_ ?_ (by decide) (by decide +kernel)).2 (by decide) (by decide) (by decide)).mpr ?_ onesCipher
  · intro h hh
    rw [hHdr h hh]
    decide
  · intro h hh e he a hHolds
    rw [hHdr h hh] at hHolds
    rw [List.mem_singleton.mp he]
    simp only [Iovec.Holds] at hHolds ⊢
    omega
  · refine ⟨[], ⟨0, 16⟩, [], rfl, (fun _ hx => nomatch hx), fun h hh _ => ?_⟩
    rw [hHdr h hh]
    decide

end Lacuna.Net
