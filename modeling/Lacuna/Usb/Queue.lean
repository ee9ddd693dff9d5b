import Mathlib.Algebra.BigOperators.Ring.List
import Mathlib.Algebra.Ring.Nat
import Lacuna.Usb.Passthrough

/-!
# Queues of URBs

Between the kernel, whose counter moves when a URB is given back, and QEMU, whose
counter moves when the packet is decrypted, the URBs lie in the queue of the open
file. Of such a queue three things are kept: `InStep`, that the encrypted URBs take the
one counter to the other; `Chained`, that the URBs of each packet stand together and
in order; `USBPacket.Gathers`, that a packet holds what its URBs brought.
-/

namespace Lacuna.Usb

open Lacuna.Lib Lacuna.Crypt List

variable {as : List AsyncURB} {cur : Option (Nat × Nat)} {p off : Nat} {r : DoneURB}

/-! ## Counters -/

/-- The encrypted URBs of the queue, in order, take the counter from `iv` to `ctr`. -/
def InStep (K : BlockStream 128 16) (iv : BitVec 128) : List DoneURB → BitVec 128 → Prop
  | [], ctr => iv = ctr
  | r :: rs, ctr =>
    if r.encrypted then
      r.bytes = (ctrCrypt K iv r.data).1 ∧ InStep K (ctrCrypt K iv r.data).2 rs ctr
    else r.bytes = r.data ∧ InStep K iv rs ctr

section InStep

variable {K : BlockStream 128 16} {iv ctr : BitVec 128}

variable {rs : List DoneURB}

theorem InStep.append_iff {rs' : List DoneURB} :
    InStep K iv (rs ++ rs') ctr ↔ ∃ mid, InStep K iv rs mid ∧ InStep K mid rs' ctr := by
  induction rs generalizing iv with
  | nil =>
    refine ⟨fun h => ⟨iv, rfl, h⟩, ?_⟩
    rintro ⟨mid, rfl, h⟩
    exact h
  | cons r rs ih =>
    simp only [cons_append, InStep]
    by_cases hEnc : r.encrypted = true
    · simp only [if_pos hEnc, ih]
      exact ⟨fun ⟨hB, mid, h⟩ => ⟨mid, ⟨hB, h.1⟩, h.2⟩, fun ⟨mid, h, h'⟩ => ⟨h.1, mid, h.2, h'⟩⟩
    · simp only [if_neg hEnc, ih]
      exact ⟨fun ⟨hB, mid, h⟩ => ⟨mid, ⟨hB, h.1⟩, h.2⟩, fun ⟨mid, h, h'⟩ => ⟨h.1, mid, h.2, h'⟩⟩

theorem InStep.map_aurb (f : AsyncURB → AsyncURB) :
    InStep K iv (rs.map fun r => { r with aurb := f r.aurb }) ctr ↔ InStep K iv rs ctr := by
  induction rs generalizing iv with
  | nil => rfl
  | cons r rs ih => simp only [map_cons, InStep, ih]

theorem InStep.plain_iff (h : ∀ r ∈ rs, r.encrypted = false) :
    InStep K iv rs ctr ↔ iv = ctr ∧ ∀ r ∈ rs, r.bytes = r.data := by
  induction rs with
  | nil => simp [InStep]
  | cons r rs ih =>
    have hHead := h r mem_cons_self
    have hTail := ih fun r' hr' => h r' (mem_cons_of_mem _ hr')
    rw [InStep, hHead, if_neg Bool.false_ne_true, hTail, forall_mem_cons]
    exact ⟨fun ⟨hB, hC, hRest⟩ => ⟨hC, hB, hRest⟩, fun ⟨hC, hB, hRest⟩ => ⟨hB, hC, hRest⟩⟩

theorem InStep.blocks {rest : List DoneURB} (hEnc : ∀ r ∈ rs, r.encrypted = true)
    (hLen : ∀ r ∈ rs, 16 ∣ r.data.length) (h : InStep K iv (rs ++ rest) ctr) :
    rs.flatMap DoneURB.bytes = (ctrCrypt K iv (rs.flatMap DoneURB.data)).1 ∧
      InStep K (ctrCrypt K iv (rs.flatMap DoneURB.data)).2 rest ctr := by
  induction rs generalizing iv with
  | nil =>
    rw [flatMap_nil, flatMap_nil, ctrCrypt_nil (by decide)]
    exact ⟨rfl, h⟩
  | cons r rs ih =>
    rw [cons_append, InStep, if_pos (hEnc r mem_cons_self)] at h
    obtain ⟨hBytes, hRest⟩ := h
    obtain ⟨hFlat, hStep⟩ := ih (fun r' hr' => hEnc r' (mem_cons_of_mem _ hr'))
      (fun r' hr' => hLen r' (mem_cons_of_mem _ hr')) hRest
    rw [flatMap_cons, flatMap_cons,
      ctrCrypt_append (by decide) (hLen r mem_cons_self), hBytes, hFlat]
    exact ⟨rfl, hStep⟩

theorem InStep.skip {front rest : List DoneURB} {r : DoneURB} (hPlain : r.encrypted = false)
    (h : InStep K iv (front ++ r :: rest) ctr) : InStep K iv (front ++ rest) ctr := by
  obtain ⟨mid, hFront, hRest⟩ := InStep.append_iff.mp h
  rw [InStep, hPlain, if_neg Bool.false_ne_true] at hRest
  exact InStep.append_iff.mpr ⟨mid, hFront, hRest.2⟩

theorem InStep.length_bytes (h : InStep K iv rs ctr) :
    ∀ r ∈ rs, r.bytes.length = r.data.length := by
  induction rs generalizing iv with
  | nil => exact fun _ hr => nomatch hr
  | cons r rs ih =>
    rw [InStep] at h
    intro r' hr'
    rcases List.mem_cons.mp hr' with rfl | hr'
    · split at h
      · rw [h.1]
        exact length_ctrCrypt (by decide) _
      · rw [h.1]
    · split at h
      · exact ih h.2 r' hr'
      · exact ih h.2 r' hr'

theorem InStep.message {rest : List DoneURB} {r : DoneURB}
    (hEnc : ∀ r' ∈ rs ++ [r], r'.encrypted = true) (hLen : ∀ r' ∈ rs, 16 ∣ r'.data.length)
    (h : InStep K iv (rs ++ r :: rest) ctr) :
    (rs ++ [r]).flatMap DoneURB.bytes = (ctrCrypt K iv ((rs ++ [r]).flatMap DoneURB.data)).1 ∧
      InStep K (ctrCrypt K iv ((rs ++ [r]).flatMap DoneURB.data)).2 rest ctr := by
  obtain ⟨hFlat, hLast⟩ := InStep.blocks (fun r' hr' => hEnc r' (mem_append_left _ hr')) hLen h
  rw [InStep, if_pos (hEnc r (mem_append_right _ mem_cons_self))] at hLast
  have hWhole : 16 ∣ (rs.flatMap DoneURB.data).length := by
    rw [length_flatMap]
    exact dvd_sum fun n hn => by
      obtain ⟨r', hr', rfl⟩ := List.mem_map.mp hn
      exact hLen r' hr'
  simp only [flatMap_append, flatMap_singleton]
  rw [ctrCrypt_append (by decide) hWhole, hFlat, hLast.1]
  exact ⟨rfl, hLast.2⟩

end InStep

/-! ## Packets in the queue -/

/-- Each packet's URBs are in order and together. The first packet may have been received in
part, up to some offset. -/
def Chained : Option (Nat × Nat) → List AsyncURB → Prop
  | cur, [] => cur = none
  | cur, a :: as =>
    ∃ p, a.packet = some p ∧ (cur = none ∧ a.offset = 0 ∨ cur = some (p, a.offset)) ∧
      if a.more then
        a.bufferLength = MAX_USBFS_BUFFER_SIZE ∧
          Chained (some (p, a.offset + MAX_USBFS_BUFFER_SIZE)) as
      else (∀ b ∈ as, b.packet ≠ some p) ∧ Chained none as

theorem Chained.append {bs : List AsyncURB} (h : Chained cur as)
    (hNew : Chained none bs) (hDisj : ∀ a ∈ as, ∀ b ∈ bs, b.packet ≠ a.packet) :
    Chained cur (as ++ bs) := by
  induction as generalizing cur with
  | nil =>
    obtain rfl : cur = none := h
    exact hNew
  | cons a as ih =>
    obtain ⟨p, hp, hCur, hRest⟩ := h
    have hDisj' := fun a' ha' => hDisj a' (mem_cons_of_mem _ ha')
    refine ⟨p, hp, hCur, ?_⟩
    split at hRest
    · rename_i hMore
      rw [if_pos hMore]
      exact ⟨hRest.1, ih hRest.2 hDisj'⟩
    · rename_i hLast
      rw [if_neg hLast]
      refine ⟨fun b hb => ?_, ih hRest.2 hDisj'⟩
      rcases List.mem_append.mp hb with hb | hb
      · exact hRest.1 b hb
      · rw [← hp]
        exact hDisj a mem_cons_self b hb

theorem Chained.cancel (h : Chained cur as) (p : Nat) :
    Chained (cur.filter fun c => c.1 ≠ p) (as.filter fun a => a.packet ≠ some p) := by
  induction as generalizing cur with
  | nil =>
    obtain rfl : cur = none := h
    rfl
  | cons a as ih =>
    obtain ⟨q, hq, hCur, hRest⟩ := h
    by_cases hEq : q = p
    · subst hEq
      have hGone : ∀ off : Nat, (some (q, off)).filter (fun c => c.1 ≠ q) = none := by
        simp [Option.filter]
      have hNone : cur.filter (fun c => c.1 ≠ q) = none := by
        rcases hCur with ⟨rfl, _⟩ | rfl
        · rfl
        · exact hGone _
      rw [hNone, filter_cons_of_neg (by simp [hq])]
      split at hRest
      · have hTail := ih hRest.2
        rwa [hGone] at hTail
      · exact ih hRest.2
    · have hStays : ∀ off : Nat, (some (q, off)).filter (fun c => c.1 ≠ p) = some (q, off) := by
        simp [Option.filter, hEq]
      have hSame : cur.filter (fun c => c.1 ≠ p) = cur := by
        rcases hCur with ⟨rfl, _⟩ | rfl
        · rfl
        · exact hStays _
      rw [hSame, filter_cons_of_pos (by simp [hq, hEq])]
      refine ⟨q, hq, hCur, ?_⟩
      split at hRest
      · rename_i hMore
        rw [if_pos hMore]
        have hTail := ih hRest.2
        rw [hStays] at hTail
        exact ⟨hRest.1, hTail⟩
      · rename_i hLast
        rw [if_neg hLast]
        exact ⟨fun b hb => hRest.1 b (List.mem_filter.mp hb).1, ih hRest.2⟩

theorem Chained.dataUrbs (turns : Nat) {rem : Nat}
    (hCur : cur = none ∧ off = 0 ∨ cur = some (p, off)) (hTurns : rem ≤ turns) (hPos : 0 < rem) :
    Chained cur (Usb.dataUrbs p turns off rem) := by
  induction turns generalizing off rem cur with
  | zero => omega
  | succ turns ih =>
    rw [Usb.dataUrbs, if_neg (by omega)]
    by_cases hBig : MAX_USBFS_BUFFER_SIZE < rem
    · rw [if_pos hBig]
      refine ⟨p, rfl, hCur, ?_⟩
      rw [if_pos rfl]
      refine ⟨rfl, ih (.inr rfl) ?_ (by omega)⟩
      unfold MAX_USBFS_BUFFER_SIZE at hBig ⊢
      omega
    · rw [if_neg hBig]
      refine ⟨p, rfl, hCur, ?_⟩
      rw [if_neg Bool.false_ne_true]
      exact ⟨(fun _ hb => nomatch hb), rfl⟩

theorem packet_of_mem_dataUrbs {turns rem : Nat} :
    ∀ a ∈ dataUrbs p turns off rem, a.packet = some p := by
  induction turns generalizing off rem with
  | zero => exact fun _ ha => nomatch ha
  | succ turns ih =>
    rw [dataUrbs]
    intro a ha
    split at ha
    · cases ha
    · split at ha
      · rcases List.mem_cons.mp ha with rfl | ha
        · rfl
        · exact ih a ha
      · rw [List.mem_singleton.mp ha]

theorem Chained.packet_ne_none (h : Chained cur as) : ∀ a ∈ as, a.packet ≠ none := by
  induction as generalizing cur with
  | nil => exact fun _ ha => nomatch ha
  | cons a as ih =>
    obtain ⟨p, hp, _, hRest⟩ := h
    intro a' ha'
    rcases List.mem_cons.mp ha' with rfl | ha'
    · rw [hp]
      nofun
    · split at hRest
      · exact ih hRest.2 a' ha'
      · exact ih hRest.2 a' ha'

theorem Chained.cur_mem (h : Chained (some (p, off)) as) : ∃ a ∈ as, a.packet = some p := by
  cases as with
  | nil => cases h
  | cons a as =>
    obtain ⟨q, hq, hCur, _⟩ := h
    rcases hCur with ⟨hNone, _⟩ | hSome
    · cases hNone
    · cases hSome
      exact ⟨a, mem_cons_self, hq⟩

/-! ## Cancelled packets -/

/-- The URBs of a queue whose packet has not been cancelled. -/
def liveUrbs (rs : List DoneURB) : List AsyncURB :=
  (rs.map DoneURB.aurb).filter fun a => a.packet.isSome

theorem liveUrbs_dead (h : r.aurb.packet = none) (rs : List DoneURB) :
    liveUrbs (r :: rs) = liveUrbs rs := by
  rw [liveUrbs, map_cons, filter_cons_of_neg (by simp [h])]
  rfl

theorem liveUrbs_live (h : r.aurb.packet = some p) (rs : List DoneURB) :
    liveUrbs (r :: rs) = r.aurb :: liveUrbs rs := by
  rw [liveUrbs, map_cons, filter_cons_of_pos (by simp [h])]
  rfl

theorem liveUrbs_append (rs rs' : List DoneURB) :
    liveUrbs (rs ++ rs') = liveUrbs rs ++ liveUrbs rs' := by
  simp [liveUrbs]

theorem mem_liveUrbs {rs : List DoneURB} {a : AsyncURB} : a ∈ liveUrbs rs → ∃ r ∈ rs, r.aurb = a := by
  intro ha
  exact List.mem_map.mp (List.mem_filter.mp ha).1

theorem liveUrbs_forget (rs : List DoneURB) (p : Nat) :
    liveUrbs (rs.map fun r => { r with aurb := r.aurb.forget p }) =
      (liveUrbs rs).filter fun a => a.packet ≠ some p := by
  induction rs with
  | nil => rfl
  | cons r rs ih =>
    rw [map_cons]
    by_cases hMine : r.aurb.packet = some p
    · have hForget : (r.aurb.forget p).packet = none := by
        rw [AsyncURB.forget, if_pos hMine]
      rw [liveUrbs_dead hForget, ih, liveUrbs_live hMine, filter_cons_of_neg (by simp [hMine])]
    · have hForget : r.aurb.forget p = r.aurb := if_neg hMine
      rw [hForget]
      cases hPacket : r.aurb.packet with
      | none => rw [liveUrbs_dead hPacket, liveUrbs_dead hPacket, ih]
      | some q =>
        rw [liveUrbs_live hPacket, liveUrbs_live hPacket, ih,
          filter_cons_of_pos (by simpa [hPacket] using hMine)]

/-! ## Packets in QEMU -/

structure USBPacket.Gathers (pkt : USBPacket) (rs : List DoneURB) : Prop where
  len : pkt.len = (rs.flatMap DoneURB.bytes).length
  data : pkt.data.take (rs.flatMap DoneURB.bytes).length = rs.flatMap DoneURB.bytes
  sent : pkt.sent = rs.flatMap DoneURB.data

theorem USBPacket.Gathers.add {pkt : USBPacket} {rs : List DoneURB}
    (h : pkt.Gathers rs) (hStatus : r.status = 0)
    (hOffset : r.aurb.offset = (rs.flatMap DoneURB.bytes).length) :
    (pkt.add r).Gathers (rs ++ [r]) where
  len := by
    rw [USBPacket.add, lenAfter, if_pos hStatus, h.len]
    simp
  data := by
    rw [USBPacket.add, copyOut, hOffset, h.data]
    simp only [flatMap_append, flatMap_singleton]
    exact List.take_left' rfl
  sent := by
    rw [USBPacket.add, h.sent]
    simp

theorem lenAfter_neg {len : Int} (h : r.status ≠ 0) : lenAfter len r < 0 := by
  rw [lenAfter, if_neg h]
  split
  · decide
  · decide

end Lacuna.Usb
