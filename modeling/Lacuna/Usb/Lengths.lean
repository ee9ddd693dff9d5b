import Lacuna.Lib.Mem
import Lacuna.Usb.Queue

/-!
# The lengths of packets

`async_complete` of `usb-linux.c` adds up in `p->len` what the URBs of a packet have
brought, and puts `USB_RET_STALL` or `USB_RET_NAK` there when one has failed. Both
handlers of `priv-usb.c` pass `p->len` on to `priv_crypt`, which takes it as a
`size_t`.
-/

namespace Lacuna.Usb

open Lacuna.Lib Lacuna.Crypt Function List

variable {pkt : LenPacket} {flight : Nat}

structure HostUrb where
  aurb : AsyncURB
  /-- its type is `USBDEVFS_URB_TYPE_CONTROL` -/
  control : Bool
  deriving DecidableEq

structure LenPacket where
  len : Int
  /-- the room in `p->data` -/
  size : Nat
  /-- history: the bytes received by the URBs that have succeeded -/
  got : Nat
  /-- history: a URB has failed -/
  failed : Bool
  deriving DecidableEq

/-- `dev->priv_handle_packet`; the one for keyboards decrypts if `pud->encrypt` is set. -/
inductive PacketHandler where
  | none
  | enc
  | kbd (encrypt : Bool)
  deriving DecidableEq

structure UsbHost where
  packets : Nat → LenPacket
  aurbs : List HostUrb
  handler : PacketHandler

/-- The switch of `async_complete` over the status of a URB. -/
def LenPacket.add (pkt : LenPacket) (r : DoneURB) : LenPacket :=
  { pkt with
    len := lenAfter pkt.len r
    got := if r.status = 0 then pkt.got + r.bytes.length else pkt.got
    failed := pkt.failed || r.status ≠ 0 }

/-- What `priv_handle_enc_packet` and `priv_kbd_handle_packet` pass to `priv_crypt`, if they
call it. -/
def PacketHandler.cryptLen (h : PacketHandler) (pkt : LenPacket) : Option Nat :=
  match h with
  | .none => Option.none
  | .enc => some (sizeT pkt.len)
  | .kbd encrypt => if encrypt then some (sizeT pkt.len) else Option.none

namespace UsbHost

def setPacket (st : UsbHost) (p : Nat) (pkt : LenPacket) : UsbHost :=
  { st with packets := Function.update st.packets p pkt }

/-- `usb_host_handle_data`, for a packet with room for `size` bytes. -/
def handleData (st : UsbHost) (p size : Nat) : UsbHost :=
  { st.setPacket p { len := 0, size := size, got := 0, failed := false } with
    aurbs := st.aurbs ++ (dataUrbs p size 0 size).map fun aurb => ⟨aurb, false⟩ }

/-- `usb_host_handle_control`; `p->len` is what the guest has put there. -/
def handleControl (st : UsbHost) (p : Nat) (len : Int) (size : Nat) : UsbHost :=
  { st.setPacket p { len := len, size := size, got := 0, failed := false } with
    aurbs := st.aurbs ++ [⟨{ packet := some p, more := false, offset := 0, bufferLength := size }, true⟩] }

/-- `usb_host_async_cancel`, before the URBs that it discards are given back. -/
def asyncCancel (st : UsbHost) (p : Nat) : UsbHost :=
  { st with aurbs := st.aurbs.map fun u => { u with aurb := u.aurb.forget p } }

/-- One turn of `async_complete`: the size that `priv_crypt` is called with, if it is, and the
state. -/
def reap (st : UsbHost) (isControl : Bool) (r : DoneURB) : Option Nat × UsbHost :=
  let st := { st with aurbs := st.aurbs.erase ⟨r.aurb, isControl⟩ }
  match r.aurb.packet with
  | none => (none, st)
  | some p =>
    let st := st.setPacket p ((st.packets p).add r)
    if isControl then (none, st)
    else if r.aurb.more then (none, st)
    else (st.handler.cryptLen (st.packets p), st)

end UsbHost

inductive HostOp where
  | data (p size : Nat)
  | control (p : Nat) (len : Int) (size : Nat)
  | cancel (p : Nat)
  | reap (isControl : Bool) (r : DoneURB)
  | setHandler (h : PacketHandler)

namespace HostOp

def run (st : UsbHost) : HostOp → UsbHost
  | .data p size => st.handleData p size
  | .control p len size => st.handleControl p len size
  | .cancel p => st.asyncCancel p
  | .reap isControl r => (st.reap isControl r).2
  | .setHandler h => { st with handler := h }

/-- A packet is submitted once at a time, with a length that is an `int`. What is reaped was
in flight, and has brought no more than its buffer holds. -/
def Enabled (st : UsbHost) : HostOp → Prop
  | .data p size => size < 2 ^ 31 ∧ ∀ u ∈ st.aurbs, u.aurb.packet ≠ some p
  | .control p _ _ => ∀ u ∈ st.aurbs, u.aurb.packet ≠ some p
  | .reap isControl r => ⟨r.aurb, isControl⟩ ∈ st.aurbs ∧ r.bytes.length ≤ r.aurb.bufferLength
  | _ => True

def Step (st : UsbHost) (op : HostOp) (st' : UsbHost) : Prop := op.Enabled st ∧ st' = op.run st

/-- `priv_crypt` gets what was received, and not for a packet that has ended in an error. -/
def ReceivedOnly (st : UsbHost) : HostOp → Prop
  | .reap isControl r => ∀ n, (st.reap isControl r).1 = some n → ∀ p, r.aurb.packet = some p →
      let pkt := (st.reap isControl r).2.packets p
      n = pkt.got ∧ n ≤ pkt.size ∧ pkt.len ≠ USB_RET_STALL ∧ pkt.len ≠ USB_RET_NAK
  | _ => True

/-- A packet that comes to a handler which decrypts has had no URB that failed. -/
def NoneFailed (st : UsbHost) : HostOp → Prop
  | .reap isControl r => ∀ n, (st.reap isControl r).1 = some n → ∀ p, r.aurb.packet = some p →
      ((st.reap isControl r).2.packets p).failed = false
  | _ => True

end HostOp

/-! ## The invariant -/

/-- What the URBs of a packet that are in flight may still bring. -/
def inFlight (aurbs : List HostUrb) (p : Nat) : Nat :=
  ((aurbs.filter fun u => u.aurb.packet = some p).map (·.aurb.bufferLength)).sum

/-- The length is what has been received as long as nothing has failed, and less ever after. -/
structure LenPacket.Counts (pkt : LenPacket) (flight : Nat) : Prop where
  exact : pkt.failed = false → pkt.len = pkt.got
  short : pkt.failed = true → pkt.len < pkt.got
  bounded : -3 ≤ pkt.len
  room : pkt.got + flight ≤ pkt.size
  int : pkt.size < 2 ^ 31

/-- Packets with data in flight are counted, and control URBs are for other packets. -/
structure LengthsInv (st : UsbHost) : Prop where
  counts : ∀ u ∈ st.aurbs, u.control = false → ∀ p, u.aurb.packet = some p →
    (st.packets p).Counts (inFlight st.aurbs p)
  apart : ∀ u ∈ st.aurbs, ∀ v ∈ st.aurbs, ∀ p, u.aurb.packet = some p → v.aurb.packet = some p →
    u.control = v.control

section Counting

variable {aurbs : List HostUrb} {p : Nat}

theorem inFlight_append (as bs : List HostUrb) (p : Nat) :
    inFlight (as ++ bs) p = inFlight as p + inFlight bs p := by
  rw [inFlight, filter_append, map_append, sum_append]
  rfl

theorem inFlight_eq_zero (h : ∀ u ∈ aurbs, u.aurb.packet ≠ some p) : inFlight aurbs p = 0 := by
  have hNone : (aurbs.filter fun u => u.aurb.packet = some p) = [] :=
    List.filter_eq_nil_iff.mpr fun u hu => by simpa using h u hu
  rw [inFlight, hNone]
  rfl

theorem inFlight_cons (u : HostUrb) (aurbs : List HostUrb) (p : Nat) : inFlight (u :: aurbs) p =
      (if u.aurb.packet = some p then u.aurb.bufferLength else 0) + inFlight aurbs p := by
  unfold inFlight
  by_cases hu : u.aurb.packet = some p
  · rw [filter_cons_of_pos (by simpa using hu), if_pos hu, map_cons, sum_cons]
  · rw [filter_cons_of_neg (by simpa using hu), if_neg hu, Nat.zero_add]

theorem inFlight_erase {u : HostUrb} (hIn : u ∈ aurbs) (p : Nat) :
    (if u.aurb.packet = some p then u.aurb.bufferLength else 0) + inFlight (aurbs.erase u) p =
      inFlight aurbs p := by
  induction aurbs with
  | nil => cases hIn
  | cons v aurbs ih =>
    by_cases hv : v = u
    · subst hv
      rw [erase_cons_head, inFlight_cons]
    · have hRest := ih ((List.mem_cons.mp hIn).resolve_left fun hEq => hv hEq.symm)
      rw [erase_cons_tail (by simpa using hv), inFlight_cons, inFlight_cons, ← hRest]
      omega

theorem inFlight_dataUrbs (p turns off rem q : Nat) :
    inFlight ((dataUrbs p turns off rem).map fun aurb => ⟨aurb, false⟩) q ≤ rem := by
  induction turns generalizing off rem with
  | zero => exact Nat.zero_le _
  | succ turns ih =>
    rw [dataUrbs]
    split
    · exact Nat.zero_le _
    split
    · rename_i hBig
      rw [map_cons, inFlight_cons]
      have hRest := ih (off + MAX_USBFS_BUFFER_SIZE) (rem - MAX_USBFS_BUFFER_SIZE)
      dsimp only
      split <;> omega
    · rw [map_singleton, inFlight_cons]
      have hNil : inFlight [] q = 0 := rfl
      dsimp only
      rw [hNil]
      split <;> omega

theorem packet_forget {a : AsyncURB} {q : Nat} (h : (a.forget p).packet = some q) :
    q ≠ p ∧ a.packet = some q ∧ a.forget p = a := by
  unfold AsyncURB.forget at h ⊢
  by_cases ha : a.packet = some p
  · rw [if_pos ha] at h
    cases h
  · rw [if_neg ha] at h ⊢
    refine ⟨?_, h, rfl⟩
    rintro rfl
    exact ha h

theorem inFlight_cancel {q : Nat} (hNe : q ≠ p) (aurbs : List HostUrb) :
    inFlight (aurbs.map fun u => { u with aurb := u.aurb.forget p }) q = inFlight aurbs q := by
  induction aurbs with
  | nil => rfl
  | cons u aurbs ih =>
    rw [map_cons, inFlight_cons, inFlight_cons, ih]
    congr 1
    unfold AsyncURB.forget
    by_cases hu : u.aurb.packet = some p
    · have hOther : u.aurb.packet ≠ some q := by
        rw [hu]
        exact fun hEq => hNe (Option.some.inj hEq).symm
      rw [if_pos hu, if_neg hOther]
      exact if_neg fun hNone => nomatch hNone
    · rw [if_neg hu]

end Counting

theorem LenPacket.Counts.mono {flight' : Nat} (h : pkt.Counts flight)
    (hLe : flight' ≤ flight) : pkt.Counts flight' :=
  ⟨h.exact, h.short, h.bounded, Nat.le_trans (Nat.add_le_add_left hLe _) h.room, h.int⟩

/-- **One URB** of a packet. -/
theorem LenPacket.Counts.add {n : Nat} {r : DoneURB}
    (h : pkt.Counts (n + flight)) (hFits : r.bytes.length ≤ n) : (pkt.add r).Counts flight := by
  obtain ⟨hExact, hShort, hBounded, hRoom, hInt⟩ := h
  unfold LenPacket.add lenAfter
  by_cases hStatus : r.status = 0
  · simp only [hStatus, if_true, ne_eq, not_true, decide_false, Bool.or_false]
    refine ⟨fun hFine => ?_, fun hFailed => ?_, ?_, ?_, hInt⟩
    · have := hExact hFine
      dsimp only
      omega
    · have := hShort hFailed
      dsimp only
      omega
    · dsimp only
      omega
    · dsimp only
      omega
  · simp only [if_neg hStatus]
    have hLen : -3 ≤ (if r.status = -EPIPE then USB_RET_STALL else USB_RET_NAK) ∧
        (if r.status = -EPIPE then USB_RET_STALL else USB_RET_NAK) < 0 := by
      split <;> decide
    refine ⟨fun hFine => ?_, fun _ => ?_, hLen.1, ?_, hInt⟩
    · simp [hStatus] at hFine
    · exact Int.lt_of_lt_of_le hLen.2 (Int.natCast_nonneg _)
    · dsimp only
      omega

theorem LenPacket.Counts.sizeT_iff (h : pkt.Counts flight) :
    (sizeT pkt.len = pkt.got ∧ sizeT pkt.len ≤ pkt.size ∧ pkt.len ≠ USB_RET_STALL ∧
      pkt.len ≠ USB_RET_NAK) ↔ pkt.failed = false := by
  obtain ⟨hExact, hShort, hBounded, hRoom, hInt⟩ := h
  cases hFailed : pkt.failed with
  | false =>
    have hLen := hExact hFailed
    have hSize : sizeT pkt.len = pkt.got := by
      rw [sizeT_of_nonneg (by omega) (by omega), hLen, Int.toNat_natCast]
    refine iff_of_true ⟨hSize, by omega, ?_, ?_⟩ rfl
    · unfold USB_RET_STALL
      omega
    · unfold USB_RET_NAK
      omega
  | true =>
    have hLess := hShort hFailed
    refine iff_of_false (fun hAll => ?_) Bool.true_eq_false.mp
    by_cases hNeg : pkt.len < 0
    · have hHuge := sizeT_of_neg hNeg (by omega)
      omega
    · have hSize := sizeT_of_nonneg (x := pkt.len) (by omega) (by omega)
      omega

section Run

variable {st st' : UsbHost}

variable {p : Nat} {r : DoneURB}

theorem LengthsInv.handleData (h : LengthsInv st) {size : Nat} (hInt : size < 2 ^ 31)
    (hFree : ∀ u ∈ st.aurbs, u.aurb.packet ≠ some p) : LengthsInv (st.handleData p size) := by
  have hNew : ∀ u ∈ (dataUrbs p size 0 size).map fun aurb => HostUrb.mk aurb false,
      u.aurb.packet = some p ∧ u.control = false := by
    intro u hu
    obtain ⟨a, ha, rfl⟩ := List.mem_map.mp hu
    exact ⟨packet_of_mem_dataUrbs a ha, rfl⟩
  refine ⟨fun u hu hData q hq => ?_, fun u hu v hv q hq hq' => ?_⟩
  · show (update st.packets p _ q).Counts (inFlight (st.aurbs ++ _) q)
    rw [inFlight_append]
    by_cases hqp : q = p
    · subst hqp
      rw [update_self, inFlight_eq_zero hFree, Nat.zero_add]
      refine ⟨fun _ => rfl, (fun hFailed => nomatch hFailed), by simp only; decide, ?_, hInt⟩
      dsimp only
      rw [Nat.zero_add]
      exact inFlight_dataUrbs q size 0 size q
    · have hOld : u ∈ st.aurbs := by
        refine (List.mem_append.mp hu).resolve_right fun hIn => hqp ?_
        exact Option.some.inj (hq.symm.trans (hNew u hIn).1)
      have hNone : ∀ v ∈ (dataUrbs p size 0 size).map fun aurb => HostUrb.mk aurb false,
          v.aurb.packet ≠ some q := by
        intro v hv hEq
        exact hqp (Option.some.inj (hEq.symm.trans (hNew v hv).1))
      rw [update_of_ne hqp, inFlight_eq_zero hNone]
      exact h.counts u hOld hData q hq
  · rcases List.mem_append.mp hu with hOld | hIn
    · rcases List.mem_append.mp hv with hOld' | hIn'
      · exact h.apart u hOld v hOld' q hq hq'
      · cases hq'.symm.trans (hNew v hIn').1
        exact absurd hq (hFree u hOld)
    · rcases List.mem_append.mp hv with hOld' | hIn'
      · cases hq.symm.trans (hNew u hIn).1
        exact absurd hq' (hFree v hOld')
      · rw [(hNew u hIn).2, (hNew v hIn').2]

theorem LengthsInv.handleControl (h : LengthsInv st)
    (hFree : ∀ u ∈ st.aurbs, u.aurb.packet ≠ some p) (len : Int) (size : Nat) :
    LengthsInv (st.handleControl p len size) := by
  refine ⟨fun u hu hData q hq => ?_, fun u hu v hv q hq hq' => ?_⟩
  · rcases List.mem_append.mp hu with hOld | hIn
    · have hqp : q ≠ p := fun hEq => hFree u hOld (hEq ▸ hq)
      have hNone : ∀ v ∈ [HostUrb.mk ⟨some p, false, 0, size⟩ true], v.aurb.packet ≠ some q := by
        intro v hv hEq
        rw [List.mem_singleton.mp hv] at hEq
        exact hqp (Option.some.inj hEq).symm
      show (update st.packets p _ q).Counts (inFlight (st.aurbs ++ _) q)
      rw [update_of_ne hqp, inFlight_append, inFlight_eq_zero hNone]
      exact h.counts u hOld hData q hq
    · rw [List.mem_singleton.mp hIn] at hData
      cases hData
  · rcases List.mem_append.mp hu with hOld | hIn
    · rcases List.mem_append.mp hv with hOld' | hIn'
      · exact h.apart u hOld v hOld' q hq hq'
      · rw [List.mem_singleton.mp hIn'] at hq'
        cases hq'
        exact absurd hq (hFree u hOld)
    · rcases List.mem_append.mp hv with hOld' | hIn'
      · rw [List.mem_singleton.mp hIn] at hq
        cases hq
        exact absurd hq' (hFree v hOld')
      · rw [List.mem_singleton.mp hIn, List.mem_singleton.mp hIn']

theorem LengthsInv.asyncCancel (h : LengthsInv st) (p : Nat) : LengthsInv (st.asyncCancel p) := by
  refine ⟨fun u hu hData q hq => ?_, fun u hu v hv q hq hq' => ?_⟩
  · obtain ⟨u₀, hu₀, rfl⟩ := List.mem_map.mp hu
    obtain ⟨hNe, hPacket, -⟩ := packet_forget hq
    show (st.packets q).Counts (inFlight (st.aurbs.map _) q)
    rw [inFlight_cancel hNe]
    exact h.counts u₀ hu₀ hData q hPacket
  · obtain ⟨u₀, hu₀, rfl⟩ := List.mem_map.mp hu
    obtain ⟨v₀, hv₀, rfl⟩ := List.mem_map.mp hv
    exact h.apart u₀ hu₀ v₀ hv₀ q (packet_forget hq).2.1 (packet_forget hq').2.1

theorem LengthsInv.counts_add (h : LengthsInv st)
    (hIn : ⟨r.aurb, false⟩ ∈ st.aurbs) (hFits : r.bytes.length ≤ r.aurb.bufferLength)
    (hPacket : r.aurb.packet = some p) :
    ((st.packets p).add r).Counts (inFlight (st.aurbs.erase ⟨r.aurb, false⟩) p) := by
  have hBefore := h.counts _ hIn rfl p hPacket
  have hErase := inFlight_erase hIn p
  rw [if_pos hPacket] at hErase
  rw [← hErase] at hBefore
  exact hBefore.add hFits

theorem LengthsInv.reap (h : LengthsInv st) {isControl : Bool}
    (hIn : ⟨r.aurb, isControl⟩ ∈ st.aurbs) (hFits : r.bytes.length ≤ r.aurb.bufferLength) :
    LengthsInv (st.reap isControl r).2 := by
  have hFrame : (st.reap isControl r).2.aurbs = st.aurbs.erase ⟨r.aurb, isControl⟩ ∧
      ∀ q, (st.reap isControl r).2.packets q =
        if r.aurb.packet = some q then (st.packets q).add r else st.packets q := by
    unfold UsbHost.reap
    cases hPacket : r.aurb.packet with
    | none => exact ⟨rfl, fun q => (if_neg fun hEq => nomatch hEq).symm⟩
    | some p =>
      have hBoth : ∀ q, update st.packets p ((st.packets p).add r) q =
          if some p = some q then (st.packets q).add r else st.packets q := by
        intro q
        by_cases hq : q = p
        · subst hq
          rw [update_self, if_pos rfl]
        · rw [update_of_ne hq, if_neg fun hEq => hq (Option.some.inj hEq).symm]
      dsimp only
      split
      · exact ⟨rfl, hBoth⟩
      · split
        · exact ⟨rfl, hBoth⟩
        · exact ⟨rfl, hBoth⟩
  obtain ⟨hAurbs, hPackets⟩ := hFrame
  refine ⟨fun u hu hData q hq => ?_, fun u hu v hv => ?_⟩
  · rw [hAurbs] at hu ⊢
    have hOld := mem_of_mem_erase hu
    rw [hPackets]
    by_cases hPacket : r.aurb.packet = some q
    · -- the URBs of one packet are all of the same type
      obtain rfl : isControl = false := (h.apart _ hIn u hOld q hPacket hq).trans hData
      rw [if_pos hPacket]
      exact h.counts_add hIn hFits hPacket
    · rw [if_neg hPacket]
      refine (h.counts u hOld hData q hq).mono ?_
      rw [← inFlight_erase hIn q]
      exact Nat.le_add_left ..
  · rw [hAurbs] at hu hv
    exact h.apart u (mem_of_mem_erase hu) v (mem_of_mem_erase hv)

theorem LengthsInv.step (h : LengthsInv st) {op : HostOp} (hStep : op.Step st st') :
    LengthsInv st' := by
  obtain ⟨hEnabled, rfl⟩ := hStep
  cases op with
  | data p size => exact h.handleData hEnabled.1 hEnabled.2
  | control p len size => exact h.handleControl hEnabled len size
  | cancel p => exact h.asyncCancel p
  | reap isControl r => exact h.reap hEnabled.1 hEnabled.2
  | setHandler handler => exact ⟨h.counts, h.apart⟩

theorem reap_call {isControl : Bool} {n : Nat} (hPacket : r.aurb.packet = some p)
    (hCall : (st.reap isControl r).1 = some n) :
    isControl = false ∧ n = sizeT ((st.reap isControl r).2.packets p).len ∧
      (st.reap isControl r).2.packets p = (st.packets p).add r := by
  unfold UsbHost.reap at hCall ⊢
  rw [hPacket] at hCall ⊢
  dsimp only at hCall ⊢
  cases isControl with
  | true => cases hCall
  | false =>
    rw [if_neg Bool.false_ne_true] at hCall ⊢
    split at hCall
    · cases hCall
    · rename_i hLast
      rw [if_neg hLast]
      refine ⟨rfl, ?_, update_self ..⟩
      unfold PacketHandler.cryptLen at hCall
      split at hCall
      · cases hCall
      · exact (Option.some.inj hCall).symm
      · split at hCall
        · exact (Option.some.inj hCall).symm
        · cases hCall

theorem LengthsInv.receivedOnly_iff (h : LengthsInv st) {op : HostOp} (hEnabled : op.Enabled st) :
    op.ReceivedOnly st ↔ op.NoneFailed st := by
  cases op with
  | data p size => exact Iff.rfl
  | control p len size => exact Iff.rfl
  | cancel p => exact Iff.rfl
  | setHandler handler => exact Iff.rfl
  | reap isControl r =>
    refine forall_congr' fun n => imp_congr_right fun hCall => forall_congr' fun p =>
      imp_congr_right fun hPacket => ?_
    obtain ⟨rfl, rfl, hAdd⟩ := reap_call hPacket hCall
    rw [hAdd]
    exact (h.counts_add hEnabled.1 hEnabled.2 hPacket).sizeT_iff

end Run

/-- A device with an encrypted endpoint, and nothing in flight. -/
def encHost : UsbHost := ⟨fun _ => ⟨0, 0, 0, false⟩, [], .enc⟩

def eightBytes (status : Int) : DoneURB :=
  ⟨⟨some 0, false, 0, 8⟩, status, List.replicate 8 1, List.replicate 8 1, true⟩

def longUrb (more : Bool) (status : Int) : DoneURB :=
  if more then ⟨⟨some 0, true, 0, 16384⟩, status, [], [], true⟩
  else ⟨⟨some 0, false, 16384, 8⟩, status, List.replicate 8 1, List.replicate 8 1, true⟩

end Lacuna.Usb
