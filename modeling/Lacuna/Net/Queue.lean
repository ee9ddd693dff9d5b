import Lacuna.Lib.Trace
import Lacuna.Net.Gather

/-!
# Frames that are sent again

`net/queue.c`, `net.c` and the receive functions of `net/tap.c`, for a NIC with
a tap device as its peer. A packet that the device does not take is copied to the
queue and submitted again later; `tap_write_packet` has encrypted it in place by then,
and encrypts it again (`resubmitted_twice`). Without that, and with each frame in one
element, every frame is encrypted once and with the next part of the keystream
(`encrypted_once`).

The flush at the end of a send, and the flush once the device is writable, are
steps of their own, one for each packet: the callback of a packet, which lets
the NIC send on, comes between them. A NIC whose own link is down does not send.
-/

namespace Lacuna.Net

open Lacuna.Lib Lacuna.Crypt List

def VNET_HDR_SIZE : Nat := 12

structure NetPacket where
  raw : Bool
  data : List UInt8
  frame : List UInt8
  deriving DecidableEq

/-- `TAPState` with its client and its queue. The last fields are the packets for which `writev`
has been called, and the frames it has taken: as handed over, and as written after the header. -/
structure TapState where
  hostVnetHdrLen : Nat
  usingVnetHdr : Bool
  writePoll : Bool
  linkDown : Bool
  receiveDisabled : Bool
  packets : List NetPacket
  ndTable : List NICInfo
  calls : Nat
  written : List (List UInt8 × List UInt8)
  deriving DecidableEq

/-- The bytes of a packet before its frame, when the NIC sends it. -/
def TapState.ownHdr (t : TapState) (raw : Bool) : Nat :=
  if raw then 0 else if t.usingVnetHdr then t.hostVnetHdrLen else 0

section Net

variable (aes : List UInt8 → BlockStream 128 16) (last : AesBlock)
  -- for each packet, how often `writev` is interrupted and what it comes to
  (writev : Nat → Nat × WritevResult)

variable {ndTable : List NICInfo} {t : TapState} {hdr : Nat} {es : List Iovec}

/-! ## The tap device -/

/-- `tap_write_packet`, with the state of the device. -/
def writePacket (frame : List UInt8) (iov : List Iovec) (mem : Mem) (t : TapState) :
    Int × Mem × TapState :=
  let w := writev t.calls
  let r := tapWritePacket aes last iov w.1 w.2 ⟨mem, t.ndTable⟩
  (r.1, r.2.2.mem,
    { t with
      ndTable := r.2.2.ndTable
      calls := t.calls + 1
      writePoll := t.writePoll || w.2 = .eagain
      written := t.written ++ (r.2.1.map fun out => (frame, out.drop t.hostVnetHdrLen)).toList })

def tapReceiveIov (frame : List UInt8) (iov : List Iovec) (hdr : Nat) (mem : Mem) (t : TapState) :
    Int × Mem × TapState :=
  let mem := store mem hdr (List.replicate VNET_HDR_SIZE 0)
  if t.hostVnetHdrLen ≠ 0 ∧ t.usingVnetHdr = false then
    writePacket aes last writev frame (⟨hdr, t.hostVnetHdrLen⟩ :: iov) mem t
  else writePacket aes last writev frame iov mem t

def tapReceiveRaw (frame : List UInt8) (buf : Iovec) (hdr : Nat) (mem : Mem) (t : TapState) :
    Int × Mem × TapState :=
  let mem := store mem hdr (List.replicate VNET_HDR_SIZE 0)
  if t.hostVnetHdrLen ≠ 0 then
    writePacket aes last writev frame [⟨hdr, t.hostVnetHdrLen⟩, buf] mem t
  else writePacket aes last writev frame [buf] mem t

def tapReceive (frame : List UInt8) (buf : Iovec) (hdr : Nat) (mem : Mem) (t : TapState) :
    Int × Mem × TapState :=
  if t.hostVnetHdrLen ≠ 0 ∧ t.usingVnetHdr = false then
    tapReceiveRaw aes last writev frame buf hdr mem t
  else writePacket aes last writev frame [buf] mem t

/-! ## The net layer -/

def qemuDeliverPacket (raw : Bool) (frame : List UInt8) (buf : Iovec) (hdr : Nat) (mem : Mem)
    (t : TapState) : Int × Mem × TapState :=
  if t.linkDown then (buf.len, mem, t)
  else if t.receiveDisabled then (0, mem, t)
  else
    let r := if raw then tapReceiveRaw aes last writev frame buf hdr mem t
      else tapReceive aes last writev frame buf hdr mem t
    (r.1, r.2.1, if r.1 = 0 then { r.2.2 with receiveDisabled := true } else r.2.2)

def qemuDeliverPacketIov (frame : List UInt8) (iov : List Iovec) (hdr : Nat) (mem : Mem)
    (t : TapState) : Int × Mem × TapState :=
  if t.linkDown then ((iov.map Iovec.len).sum, mem, t)
  else tapReceiveIov aes last writev frame iov hdr mem t

def qemuNetQueueSend (raw : Bool) (buf : Iovec) (hdr : Nat) (mem : Mem) (t : TapState) : TapState :=
  let frame := (load mem buf.base buf.len).drop (t.ownHdr raw)
  let r := qemuDeliverPacket aes last writev raw frame buf hdr mem t
  if r.1 = 0 then
    { r.2.2 with packets := r.2.2.packets ++ [⟨raw, load r.2.1 buf.base buf.len, frame⟩] }
  else r.2.2

def qemuNetQueueSendIov (iov : List Iovec) (hdr : Nat) (mem : Mem) (t : TapState) : TapState :=
  let frame := (gather mem iov).drop (t.ownHdr false)
  let r := qemuDeliverPacketIov aes last writev frame iov hdr mem t
  if r.1 = 0 then
    { r.2.2 with packets := r.2.2.packets ++ [⟨false, gather r.2.1 iov, frame⟩] }
  else r.2.2

/-- One turn of `qemu_net_queue_flush`, with the first packet at the address
`base`. -/
def qemuNetQueueFlush (base hdr : Nat) (mem : Mem) (t : TapState) : TapState :=
  match t.packets with
  | [] => t
  | p :: rest =>
    let buf : Iovec := ⟨base, p.data.length⟩
    let r := qemuDeliverPacket aes last writev p.raw p.frame buf hdr (store mem base p.data)
      { t with packets := rest }
    if r.1 = 0 then
      { r.2.2 with packets := { p with data := load r.2.1 base p.data.length } :: r.2.2.packets }
    else r.2.2

inductive NetOp where
  /-- `qemu_send_packet_async`, or `qemu_send_packet_raw`. -/
  | send (raw : Bool) (buf : Iovec) (hdr : Nat) (mem : Mem)
  /-- `qemu_sendv_packet_async`. -/
  | sendv (iov : List Iovec) (hdr : Nat) (mem : Mem)
  | flush (base hdr : Nat) (mem : Mem)
  /-- `tap_writable`, up to the flush. -/
  | writable
  /-- `qemu_purge_queued_packets`. -/
  | purge
  /-- `do_set_link` on the tap device. -/
  | setLink (up : Bool)
  /-- `tap_set_vnet_hdr_len`. -/
  | setVnetHdrLen (len : Nat)
  /-- `tap_using_vnet_hdr`. -/
  | usingVnetHdr (on : Bool)

namespace NetOp

def run : NetOp → TapState → TapState
  | send raw buf hdr mem, t => qemuNetQueueSend aes last writev raw buf hdr mem t
  | sendv iov hdr mem, t => qemuNetQueueSendIov aes last writev iov hdr mem t
  | flush base hdr mem, t => qemuNetQueueFlush aes last writev base hdr mem t
  | writable, t => { t with writePoll := false, receiveDisabled := false }
  | purge, t => { t with packets := [] }
  | setLink up, t => { t with linkDown := !up }
  | setVnetHdrLen len, t => { t with hostVnetHdrLen := len }
  | usingVnetHdr on, t => { t with usingVnetHdr := on }

end NetOp

/-- The frame is an Ethernet frame of a NIC that has a key. -/
structure FromNic (ndTable : List NICInfo) (f : List UInt8) : Prop where
  header : DATA_START_POS ≤ f.length
  registered : ∃ i dir st, findCctx ndTable (frameMac false f) false = some (i, ⟨dir, some st⟩)

/-- The variable `hdr` of the receive functions is apart from the element. -/
def HdrApart (hdr : Nat) (e : Iovec) : Prop := ∀ a, (Iovec.mk hdr VNET_HDR_SIZE).Holds a → ¬ e.Holds a

/-- Frames of registered NICs, in elements that do not overlap; the assertions of the functions. -/
def NetOp.Allowed (t : TapState) : NetOp → Prop
  | .send raw buf hdr mem =>
    FromNic t.ndTable ((load mem buf.base buf.len).drop (t.ownHdr raw)) ∧ HdrApart hdr buf
  | .sendv iov hdr mem =>
    FromNic t.ndTable ((gather mem iov).drop (t.ownHdr false)) ∧ (∀ e ∈ iov, HdrApart hdr e) ∧
      iov.Pairwise fun x y => ∀ a, x.Holds a → ¬ y.Holds a
  | .setVnetHdrLen len => len = 12 ∨ len = 10
  | .usingVnetHdr on => (t.hostVnetHdrLen ≠ 0) = on
  | _ => True

def NetOp.Step (t : TapState) (op : NetOp) (t' : TapState) : Prop :=
  op.Allowed t ∧ t' = op.run aes last writev t

/-! ## Once -/

/-- A frame encrypted once, with the keystream that comes next. -/
def cryptOnce (ndTable : List NICInfo) (f : List UInt8) : List UInt8 × List NICInfo :=
  match findCctx ndTable (frameMac false f) false with
  | some (i, ⟨dir, some st⟩) =>
    let r := cryptFrame aes false st f
    (r.1, ndTable.modify i (·.setCctx false ⟨dir, some r.2⟩))
  | _ => (f, ndTable)

def cryptFrames : List NICInfo → List (List UInt8) → List (List UInt8) × List NICInfo
  | ndTable, [] => ([], ndTable)
  | ndTable, f :: fs =>
    let r := cryptOnce aes ndTable f
    let rs := cryptFrames r.2 fs
    (r.1 :: rs.1, rs.2)

/-- What has been written are the frames handed over, each encrypted once, and the contexts have
moved on accordingly. -/
def EncryptedOnce (ndTable : List NICInfo) (t : TapState) : Prop :=
  cryptFrames aes ndTable (t.written.map Prod.fst) = (t.written.map Prod.snd, t.ndTable)

instance (ndTable : List NICInfo) (t : TapState) : Decidable (EncryptedOnce aes ndTable t) :=
  inferInstanceAs (Decidable (_ = _))

def TapState.hdrElem (t : TapState) (hdr : Nat) : Option Iovec :=
  if t.hostVnetHdrLen = 0 then none else some ⟨hdr, t.hostVnetHdrLen⟩

/-- The device takes the packet, its frame is in one element, and a header in one of its own. -/
def NetOp.TakenWhole (t : TapState) : NetOp → Prop
  | .send raw buf hdr mem =>
    (writev t.calls).2 ≠ .eagain ∧ t.ownHdr raw = 0 ∧
      InOneElement ⟨store mem hdr (List.replicate VNET_HDR_SIZE 0), t.ndTable⟩ (t.hdrElem hdr) [buf]
  | .sendv iov hdr mem =>
    (writev t.calls).2 ≠ .eagain ∧
      if t.ownHdr false = 0 then
        InOneElement ⟨store mem hdr (List.replicate VNET_HDR_SIZE 0), t.ndTable⟩ (t.hdrElem hdr) iov
      else ∃ h es, iov = h :: es ∧ h.len = t.ownHdr false ∧
        InOneElement ⟨store mem hdr (List.replicate VNET_HDR_SIZE 0), t.ndTable⟩ (some h) es
  | _ => True

def TapState.took (t : TapState) (f : List UInt8) : TapState :=
  { t with
    ndTable := (cryptOnce aes t.ndTable f).2
    calls := t.calls + 1
    written := t.written ++ [(f, (cryptOnce aes t.ndTable f).1)] }

structure QueueInv (ndTable : List NICInfo) (t : TapState) : Prop where
  once : EncryptedOnce aes ndTable t
  empty : t.packets = []
  enabled : t.receiveDisabled = false
  hdrLen : t.hostVnetHdrLen ≤ VNET_HDR_SIZE

variable {aes last writev}

theorem cryptFrames_concat (ndTable : List NICInfo) (fs : List (List UInt8)) (f : List UInt8) :
    cryptFrames aes ndTable (fs ++ [f]) =
      ((cryptFrames aes ndTable fs).1 ++ [(cryptOnce aes (cryptFrames aes ndTable fs).2 f).1],
        (cryptOnce aes (cryptFrames aes ndTable fs).2 f).2) := by
  induction fs generalizing ndTable with
  | nil => rfl
  | cons g gs ih => simp only [cons_append, cryptFrames, ih]

theorem cryptOnce_eq {f : List UInt8} {i : Nat} {dir : Dir}
    {st : AesniState} (h : findCctx ndTable (frameMac false f) false = some (i, ⟨dir, some st⟩)) :
    cryptOnce aes ndTable f = ((cryptFrame aes false st f).1,
        ndTable.modify i (·.setCctx false ⟨dir, some (cryptFrame aes false st f).2⟩)) := by
  rw [cryptOnce, h]

theorem QueueInv.took (h : QueueInv aes ndTable t)
    (f : List UInt8) : QueueInv aes ndTable (t.took aes f) where
  once := by
    have hOnce := h.once
    rw [EncryptedOnce] at hOnce ⊢
    simp only [TapState.took, map_append, map_cons, map_nil]
    rw [cryptFrames_concat, hOnce]
  empty := h.empty
  enabled := h.enabled
  hdrLen := h.hdrLen

/-! ## One packet -/

theorem gather_hdr (mem : Mem) (h : ∀ e ∈ es, HdrApart hdr e) :
    gather (store mem hdr (replicate VNET_HDR_SIZE 0)) es = gather mem es := by
  refine flatMap_congr fun e he => load_congr fun j hj => ?_
  have hOut : ¬ (Iovec.mk hdr VNET_HDR_SIZE).Holds (e.base + j) := fun hHdr =>
    h e he _ hHdr ⟨Nat.le_add_right .., Nat.add_lt_add_left hj _⟩
  by_cases hLow : e.base + j < hdr
  · exact store_of_lt hLow
  · refine store_of_le ?_
    rw [length_replicate]
    exact Nat.not_lt.mp fun hHigh => hOut ⟨Nat.not_lt.mp hLow, hHigh⟩

theorem writePacket_took {t : TapState} {mem : Mem} {f : List UInt8} {hdr : Option Iovec}
    {es : List Iovec} (hWritten : (writev t.calls).2 = .written)
    (hHdr : (hdr.map Iovec.len).getD 0 = t.hostVnetHdrLen)
    (hLen : t.hostVnetHdrLen ≤ VNET_HDR_SIZE)
    (hDisj : ∀ h, hdr = some h → ∀ e ∈ es, ∀ a, h.Holds a → ¬ e.Holds a)
    (hFrame : gather mem es = f) (hFrom : FromNic t.ndTable f)
    (hOne : InOneElement ⟨mem, t.ndTable⟩ hdr es) :
    (writePacket aes last writev f (hdr.toList ++ es) mem t).1 ≠ 0 ∧
      (writePacket aes last writev f (hdr.toList ++ es) mem t).2.2 = t.took aes f := by
  obtain ⟨i, dir, st, hFind⟩ := hFrom.registered
  have hShort : ∀ h, hdr = some h → h.len < DATA_START_POS := by
    rintro h rfl
    have hEq : h.len = t.hostVnetHdrLen := hHdr
    rw [hEq]
    exact Nat.lt_of_le_of_lt hLen (by decide)
  have hSame := @passed_of_inOneElement aes last ⟨mem, t.ndTable⟩ hdr es i dir st hShort hDisj
    (by rw [hFrame]; exact hFrom.header) (by rw [hFrame]; exact hFind) hOne
  rw [hFrame, passedWhole_eq hFrom.header hFind, ← cryptOnce_eq hFind, passed, hHdr] at hSame
  have hPos : 0 < (gather (cryptIov aes last ⟨mem, t.ndTable⟩ (hdr.toList ++ es)).mem
      (hdr.toList ++ es)).length := by
    have hf := hFrom.header
    rw [← hFrame, length_gather] at hf
    rw [length_gather, map_append, sum_append]
    exact Nat.add_pos_right _ (Nat.lt_of_lt_of_le (by decide) hf)
  simp only [writePacket, tapWritePacket, writevLoop_eq, hWritten, writevLoop, Option.getD_some,
    Option.map_some, Option.toList_some, TapState.took]
  refine ⟨Int.natCast_ne_zero.mpr hPos.ne', ?_⟩
  rw [← hSame]
  simp

theorem hdrElem_len (t : TapState) (hdr : Nat) :
    ((t.hdrElem hdr).map Iovec.len).getD 0 = t.hostVnetHdrLen := by
  unfold TapState.hdrElem
  split
  · rename_i h
    exact h.symm
  · rfl

theorem hdrElem_disj (hLen : t.hostVnetHdrLen ≤ VNET_HDR_SIZE) (hApart : ∀ e ∈ es, HdrApart hdr e) :
    ∀ h, t.hdrElem hdr = some h → ∀ e ∈ es, ∀ a, h.Holds a → ¬ e.Holds a := by
  intro h hh e he a hHolds
  unfold TapState.hdrElem at hh
  split at hh
  · cases hh
  · cases hh
    exact hApart e he a ⟨hHolds.1, Nat.lt_of_lt_of_le hHolds.2 (Nat.add_le_add_left hLen _)⟩

theorem hdrElem_of_zero (h : t.hostVnetHdrLen = 0) (hdr : Nat) : t.hdrElem hdr = none :=
  if_pos h

theorem hdrLen_zero (hOwn : t.ownHdr false = 0)
    (hPut : ¬ (t.hostVnetHdrLen ≠ 0 ∧ t.usingVnetHdr = false)) : t.hostVnetHdrLen = 0 := by
  by_contra hNe
  have hUsing : t.usingVnetHdr = true := by
    rw [← Bool.not_eq_false]
    exact fun h => hPut ⟨hNe, h⟩
  rw [TapState.ownHdr, hUsing] at hOwn
  exact hNe hOwn

theorem InOneElement.of_none {s s' : Vm} (h : InOneElement s none es) :
    InOneElement s' none es := by
  obtain ⟨pre, e, post, hEs, hEmpty, -⟩ := h
  exact ⟨pre, e, post, hEs, hEmpty, fun _ hh => nomatch hh⟩

section Took

variable {t : TapState} {hdr : Nat} {mem : Mem} (hLen : t.hostVnetHdrLen ≤ VNET_HDR_SIZE)
  (hWritten : (writev t.calls).2 = .written)

include hLen hWritten

theorem tapReceiveRaw_took {buf : Iovec} (hApart : HdrApart hdr buf)
    (hFrom : FromNic t.ndTable (load mem buf.base buf.len))
    (hOne : InOneElement ⟨store mem hdr (replicate VNET_HDR_SIZE 0), t.ndTable⟩
      (t.hdrElem hdr) [buf]) :
    (tapReceiveRaw aes last writev (load mem buf.base buf.len) buf hdr mem t).1 ≠ 0 ∧
      (tapReceiveRaw aes last writev (load mem buf.base buf.len) buf hdr mem t).2.2 =
        t.took aes (load mem buf.base buf.len) := by
  have hApart' : ∀ e ∈ [buf], HdrApart hdr e := fun e he => by rwa [List.mem_singleton.mp he]
  have hIov : tapReceiveRaw aes last writev (load mem buf.base buf.len) buf hdr mem t =
      writePacket aes last writev (load mem buf.base buf.len) ((t.hdrElem hdr).toList ++ [buf])
        (store mem hdr (replicate VNET_HDR_SIZE 0)) t := by
    unfold tapReceiveRaw TapState.hdrElem
    split_ifs <;> first | rfl | contradiction
  rw [hIov]
  refine writePacket_took hWritten (hdrElem_len t hdr) hLen (hdrElem_disj hLen hApart') ?_ hFrom hOne
  rw [gather_hdr mem hApart']
  exact append_nil _

theorem tapReceive_took {buf : Iovec} (hApart : HdrApart hdr buf)
    (hFrom : FromNic t.ndTable (load mem buf.base buf.len)) (hOwn : t.ownHdr false = 0)
    (hOne : InOneElement ⟨store mem hdr (replicate VNET_HDR_SIZE 0), t.ndTable⟩
      (t.hdrElem hdr) [buf]) :
    (tapReceive aes last writev (load mem buf.base buf.len) buf hdr mem t).1 ≠ 0 ∧
      (tapReceive aes last writev (load mem buf.base buf.len) buf hdr mem t).2.2 =
        t.took aes (load mem buf.base buf.len) := by
  unfold tapReceive
  by_cases hPut : t.hostVnetHdrLen ≠ 0 ∧ t.usingVnetHdr = false
  · rw [if_pos hPut]
    exact tapReceiveRaw_took hLen hWritten hApart hFrom hOne
  · have hNone := hdrLen_zero hOwn hPut
    rw [if_neg hPut]
    rw [hdrElem_of_zero hNone] at hOne
    exact @writePacket_took aes last writev t mem _ none [buf] hWritten hNone.symm hLen
      (fun _ hh => nomatch hh) (append_nil _) hFrom hOne.of_none

theorem tapReceiveIov_took {iov : List Iovec} (hApart : ∀ e ∈ iov, HdrApart hdr e)
    (hFrom : FromNic t.ndTable (gather mem iov)) (hOwn : t.ownHdr false = 0)
    (hOne : InOneElement ⟨store mem hdr (replicate VNET_HDR_SIZE 0), t.ndTable⟩
      (t.hdrElem hdr) iov) :
    (tapReceiveIov aes last writev (gather mem iov) iov hdr mem t).1 ≠ 0 ∧
      (tapReceiveIov aes last writev (gather mem iov) iov hdr mem t).2.2 =
        t.took aes (gather mem iov) := by
  have hIov : tapReceiveIov aes last writev (gather mem iov) iov hdr mem t =
      writePacket aes last writev (gather mem iov) ((t.hdrElem hdr).toList ++ iov)
        (store mem hdr (replicate VNET_HDR_SIZE 0)) t := by
    unfold tapReceiveIov
    by_cases hPut : t.hostVnetHdrLen ≠ 0 ∧ t.usingVnetHdr = false
    · rw [if_pos hPut, TapState.hdrElem, if_neg hPut.1]
      rfl
    · rw [if_neg hPut, hdrElem_of_zero (hdrLen_zero hOwn hPut)]
      rfl
  rw [hIov]
  exact writePacket_took hWritten (hdrElem_len t hdr) hLen (hdrElem_disj hLen hApart)
    (gather_hdr mem hApart) hFrom hOne

theorem tapReceiveIov_own_took {h : Iovec} {es : List Iovec}
    (hApart : ∀ e ∈ h :: es, HdrApart hdr e)
    (hDisj : (h :: es).Pairwise fun x y => ∀ a, x.Holds a → ¬ y.Holds a)
    (hFrom : FromNic t.ndTable (gather mem es)) (hOwn : t.ownHdr false ≠ 0)
    (hHdr : h.len = t.ownHdr false)
    (hOne : InOneElement ⟨store mem hdr (replicate VNET_HDR_SIZE 0), t.ndTable⟩ (some h) es) :
    (tapReceiveIov aes last writev (gather mem es) (h :: es) hdr mem t).1 ≠ 0 ∧
      (tapReceiveIov aes last writev (gather mem es) (h :: es) hdr mem t).2.2 =
        t.took aes (gather mem es) := by
  have hUsing : t.usingVnetHdr = true := by
    rw [← Bool.not_eq_false]
    intro h
    exact hOwn (by rw [TapState.ownHdr, h]; rfl)
  have hOwnEq : t.ownHdr false = t.hostVnetHdrLen := by
    rw [TapState.ownHdr, hUsing]
    rfl
  have hIov : tapReceiveIov aes last writev (gather mem es) (h :: es) hdr mem t =
      writePacket aes last writev (gather mem es) ((some h).toList ++ es)
        (store mem hdr (replicate VNET_HDR_SIZE 0)) t := by
    have hPut : ¬ (t.hostVnetHdrLen ≠ 0 ∧ t.usingVnetHdr = false) := by
      rw [hUsing]
      exact fun hPut => Bool.noConfusion hPut.2
    rw [tapReceiveIov, if_neg hPut]
    rfl
  have hDisj' : ∀ x, some h = some x → ∀ e ∈ es, ∀ a, x.Holds a → ¬ e.Holds a := by
    rintro x ⟨⟩ e he
    exact (List.pairwise_cons.mp hDisj).1 e he
  rw [hIov]
  exact writePacket_took hWritten (hHdr.trans hOwnEq) hLen hDisj'
    (gather_hdr mem fun e he => hApart e (mem_cons_of_mem _ he)) hFrom hOne

end Took

theorem qemuNetQueueSend_took {raw : Bool} {buf : Iovec} {mem : Mem}
    (hLen : t.hostVnetHdrLen ≤ VNET_HDR_SIZE) (hEnabled : t.receiveDisabled = false)
    (hWritten : (writev t.calls).2 = .written)
    (hAllowed : (NetOp.send raw buf hdr mem).Allowed t)
    (hWhole : (NetOp.send raw buf hdr mem).TakenWhole writev t) :
    qemuNetQueueSend aes last writev raw buf hdr mem t =
      if t.linkDown then t else t.took aes (load mem buf.base buf.len) := by
  obtain ⟨hFrom, hApart⟩ := hAllowed
  obtain ⟨-, hOwn, hOne⟩ := hWhole
  rw [hOwn, drop_zero] at hFrom
  have hPos : (buf.len : Int) ≠ 0 := by
    have h := hFrom.header
    rw [length_load] at h
    exact Int.natCast_ne_zero.mpr (Nat.lt_of_lt_of_le (by decide) h).ne'
  simp only [qemuNetQueueSend, qemuDeliverPacket, hOwn, drop_zero, hEnabled]
  cases hDown : t.linkDown with
  | true => simp only [if_true, if_neg hPos]
  | false =>
    have hTook : ∀ r, r = (if raw then tapReceiveRaw aes last writev (load mem buf.base buf.len) buf
        hdr mem t else tapReceive aes last writev (load mem buf.base buf.len) buf hdr mem t) →
        r.1 ≠ 0 ∧ r.2.2 = t.took aes (load mem buf.base buf.len) := by
      rintro r rfl
      cases raw with
      | true => exact tapReceiveRaw_took hLen hWritten hApart hFrom hOne
      | false => exact tapReceive_took hLen hWritten hApart hFrom hOwn hOne
    obtain ⟨hRet, hState⟩ := hTook _ rfl
    simp only [Bool.false_eq_true, if_false, if_neg hRet]
    exact hState

theorem qemuNetQueueSendIov_took {iov : List Iovec} {mem : Mem}
    (hLen : t.hostVnetHdrLen ≤ VNET_HDR_SIZE) (hWritten : (writev t.calls).2 = .written)
    (hAllowed : (NetOp.sendv iov hdr mem).Allowed t)
    (hWhole : (NetOp.sendv iov hdr mem).TakenWhole writev t) :
    qemuNetQueueSendIov aes last writev iov hdr mem t =
      if t.linkDown then t else t.took aes ((gather mem iov).drop (t.ownHdr false)) := by
  obtain ⟨hFrom, hApart, hDisj⟩ := hAllowed
  obtain ⟨-, hOne⟩ := hWhole
  have hPos : (((iov.map Iovec.len).sum : Nat) : Int) ≠ 0 := by
    have h := hFrom.header
    rw [length_drop, length_gather] at h
    exact Int.natCast_ne_zero.mpr (Nat.lt_of_lt_of_le (by decide) (h.trans (Nat.sub_le _ _))).ne'
  simp only [qemuNetQueueSendIov, qemuDeliverPacketIov]
  by_cases hDown : t.linkDown = true
  · simp only [if_pos hDown, if_neg hPos]
  · have hTook : (tapReceiveIov aes last writev ((gather mem iov).drop (t.ownHdr false)) iov hdr mem
        t).1 ≠ 0 ∧
        (tapReceiveIov aes last writev ((gather mem iov).drop (t.ownHdr false)) iov hdr mem t).2.2 =
          t.took aes ((gather mem iov).drop (t.ownHdr false)) := by
      by_cases hOwn : t.ownHdr false = 0
      · rw [hOwn, drop_zero] at hFrom ⊢
        rw [if_pos hOwn] at hOne
        exact tapReceiveIov_took hLen hWritten hApart hFrom hOwn hOne
      · rw [if_neg hOwn] at hOne
        obtain ⟨h, es, rfl, hHdr, hOne⟩ := hOne
        have hDrop : (gather mem (h :: es)).drop (t.ownHdr false) = gather mem es := by
          rw [← hHdr]
          exact List.drop_left' (length_load ..)
        rw [hDrop] at hFrom ⊢
        exact tapReceiveIov_own_took hLen hWritten hApart hDisj hFrom hOwn hHdr hOne
    simp only [if_neg hDown, if_neg hTook.1]
    exact hTook.2

theorem qemuNetQueueFlush_empty (h : t.packets = []) (base hdr : Nat) (mem : Mem) :
    qemuNetQueueFlush aes last writev base hdr mem t = t := by
  rw [qemuNetQueueFlush, h]

theorem QueueInv.step (hResult : ∀ n, (writev n).2 ≠ .error)
    {t' : TapState} {op : NetOp} (hInv : QueueInv aes ndTable t)
    (hStep : op.Step aes last writev t t') (hWhole : op.TakenWhole writev t) :
    QueueInv aes ndTable t' := by
  obtain ⟨hAllowed, rfl⟩ := hStep
  have hWritten : (writev t.calls).2 ≠ .eagain → (writev t.calls).2 = .written := by
    intro hAgain
    cases h : (writev t.calls).2 with
    | written => rfl
    | eagain => exact absurd h hAgain
    | error => exact absurd h (hResult _)
  cases op with
  | send raw buf hdr mem =>
    rw [NetOp.run, qemuNetQueueSend_took hInv.hdrLen hInv.enabled (hWritten hWhole.1) hAllowed hWhole]
    split
    · exact hInv
    · exact hInv.took _
  | sendv iov hdr mem =>
    rw [NetOp.run, qemuNetQueueSendIov_took hInv.hdrLen (hWritten hWhole.1) hAllowed hWhole]
    split
    · exact hInv
    · exact hInv.took _
  | flush base hdr mem =>
    rw [NetOp.run, qemuNetQueueFlush_empty hInv.empty]
    exact hInv
  | writable => exact { hInv with enabled := rfl }
  | purge => exact { hInv with empty := rfl }
  | setLink up => exact { hInv with }
  | setVnetHdrLen len =>
    have hLen : len ≤ VNET_HDR_SIZE := by
      rcases hAllowed with rfl | rfl <;> decide
    exact { hInv with hdrLen := hLen }
  | usingVnetHdr on => exact { hInv with }

/-- **Encrypted once.** As long as the device takes each packet, with its frame in one element,
the frames are written that were sent, each encrypted once with the next part of the keystream
of its NIC. -/
theorem encrypted_once (hResult : ∀ n, (writev n).2 ≠ .error) {t : TapState} {tr : Trace TapState NetOp}
    (hNew : t.written = []) (hEmpty : t.packets = []) (hEnabled : t.receiveDisabled = false)
    (hLen : t.hostVnetHdrLen ≤ VNET_HDR_SIZE) (hTr : IsTrace (NetOp.Step aes last writev) t tr)
    (hWhole : EachStep (NetOp.TakenWhole writev) t tr) :
    EachState (EncryptedOnce aes t.ndTable) t tr := by
  have hInv : QueueInv aes t.ndTable t := by
    refine ⟨?_, hEmpty, hEnabled, hLen⟩
    rw [EncryptedOnce, hNew]
    rfl
  have hStep : ∀ s op s', QueueInv aes t.ndTable s → NetOp.Step aes last writev s op s' →
      NetOp.TakenWhole writev s op → QueueInv aes t.ndTable s' :=
    fun _ _ _ hInv hStep hC => hInv.step hResult hStep hC
  exact eachState_of_inv (fun _ hInv => hInv.once) hStep hInv hTr hWhole

end Net

def sampleTap : TapState where
  hostVnetHdrLen := 0
  usingVnetHdr := false
  writePoll := false
  linkDown := false
  receiveDisabled := false
  packets := []
  ndTable := sampleVm.ndTable
  calls := 0
  written := []

theorem sampleSend_allowed : (NetOp.send false ⟨0, 16⟩ 100 sampleVm.mem).Allowed sampleTap := by
  refine ⟨⟨by decide, 0, .enc, ⟨[7], 0⟩, by decide +kernel⟩, fun a hHdr hBuf => ?_⟩
  simp only [Iovec.Holds] at hHdr hBuf
  omega

/-- The device does not take the frame at first. When it is written, its type has been moved by
two, and its payload has met two parts of the keystream. -/
theorem resubmitted_twice :
    ∃ tr : Trace TapState NetOp,
      IsTrace (NetOp.Step onesCipher ⟨List.replicate 16 0, rfl⟩
        fun n => (0, if n = 0 then .eagain else .written)) sampleTap tr ∧
      (lastState sampleTap tr).written.map (fun w => (w.1.drop 12, w.2.drop 12)) =
        [([8, 0, 5, 6], [8, 2, 5, 6])] ∧
      ¬ EncryptedOnce onesCipher sampleTap.ndTable (lastState sampleTap tr) := by
  let run := NetOp.run onesCipher ⟨replicate 16 0, rfl⟩
    fun n => (0, if n = 0 then .eagain else .written)
  let t₁ := run (.send false ⟨0, 16⟩ 100 sampleVm.mem) sampleTap
  let t₂ := run .writable t₁
  let t₃ := run (.flush 0 100 fun _ => 0) t₂
  refine ⟨[(.send false ⟨0, 16⟩ 100 sampleVm.mem, t₁), (.writable, t₂), (.flush 0 100 fun _ => 0, t₃)],
    ⟨⟨sampleSend_allowed, rfl⟩, ⟨trivial, rfl⟩, ⟨trivial, rfl⟩, trivial⟩, ?_⟩
  show t₃.written.map _ = _ ∧ ¬ EncryptedOnce onesCipher sampleTap.ndTable t₃
  decide +kernel

theorem taken_once :
    EachState (EncryptedOnce onesCipher sampleTap.ndTable) sampleTap
      [(NetOp.send false ⟨0, 16⟩ 100 sampleVm.mem,
        NetOp.run onesCipher ⟨List.replicate 16 0, rfl⟩ (fun _ => (1, .written))
          (.send false ⟨0, 16⟩ 100 sampleVm.mem) sampleTap)] := by
  refine @encrypted_once onesCipher ⟨replicate 16 0, rfl⟩ (fun _ => (1, .written))
    (fun _ h => WritevResult.noConfusion h) sampleTap _ rfl rfl rfl (by decide)
    ⟨⟨sampleSend_allowed, rfl⟩, trivial⟩ ⟨⟨(fun h => WritevResult.noConfusion h), rfl, ?_⟩, trivial⟩
  exact ⟨[], ⟨0, 16⟩, [], rfl, (fun _ hx => nomatch hx), fun _ hh => nomatch hh⟩

end Lacuna.Net
