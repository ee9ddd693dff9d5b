import Lacuna.Lib.Trace
import Lacuna.Crypt.Aesni

/-!
# Passing a private device on to the guest

`usb-linux.c` and `priv-usb.c` of QEMU, over the `usbfs` queues of the kernel
(`drivers/usb/core/devio.c`), for the encrypted endpoint of one device.

A packet of the guest becomes one or more URBs. The kernel gives URBs back in order,
encrypted while the context is activated. QEMU reaps them, and the handler of the
device decrypts a packet when its last URB has been reaped (`asyncComplete`). The guest
may cancel packets (`usbHostAsyncCancel`); leaving private mode removes the handler and
closes the device, which reaps what is there (`usbDevDisconnect`).
-/

namespace Lacuna.Usb

open Lacuna.Lib Lacuna.Crypt

def MAX_USBFS_BUFFER_SIZE : Nat := 16384

def USB_RET_NAK : Int := -2
def USB_RET_STALL : Int := -3

def ENOENT : Int := 2

/-- The packet it is for, until that is cancelled, and its part of the packet's buffer. -/
structure AsyncURB where
  packet : Option Nat
  more : Bool
  offset : Nat
  bufferLength : Nat
  deriving DecidableEq

/-- A URB on `async_completed`: its status and the first `actual_length` bytes of
its buffer, with what the device sent and whether the kernel encrypted it. -/
structure DoneURB where
  aurb : AsyncURB
  status : Int
  bytes : List UInt8
  data : List UInt8
  encrypted : Bool
  deriving DecidableEq

structure USBPacket where
  len : Int
  data : List UInt8
  sent : List UInt8
  deriving DecidableEq

structure GuestPacket where
  packet : Nat
  content : USBPacket
  deriving DecidableEq

structure PrivUSBDevice where
  /-- the context of the kernel, and that of QEMU -/
  kern : PrivCryptCtx
  user : PrivCctx
  connected : Bool
  /-- `dev->priv_handle_packet` is `priv_handle_enc_packet` -/
  handler : Bool
  /-- `async_pending` and `async_completed` of the open file -/
  pending : List AsyncURB
  completed : List DoneURB
  packets : Nat → USBPacket
  /-- history: the URBs of a packet that have been reaped before its last -/
  received : List DoneURB
  /-- history: what has been completed to the guest, last first -/
  guest : List GuestPacket
  /-- QEMU has crashed -/
  crashed : Bool

namespace PrivUSBDevice

def setPacket (st : PrivUSBDevice) (p : Nat) (pkt : USBPacket) : PrivUSBDevice :=
  { st with packets := Function.update st.packets p pkt }

@[simp] theorem packets_setPacket_self (st : PrivUSBDevice) (p : Nat) (pkt : USBPacket) :
    (st.setPacket p pkt).packets p = pkt := by
  simp [setPacket]

theorem packets_setPacket_of_ne (st : PrivUSBDevice) {p q : Nat} (h : q ≠ p) (pkt : USBPacket) :
    (st.setPacket p pkt).packets q = st.packets q := by
  simp [setPacket, h]

@[simp] theorem handler_setPacket (st : PrivUSBDevice) (p : Nat) (pkt : USBPacket) :
    (st.setPacket p pkt).handler = st.handler := rfl

@[simp] theorem crashed_setPacket (st : PrivUSBDevice) (p : Nat) (pkt : USBPacket) :
    (st.setPacket p pkt).crashed = st.crashed := rfl

end PrivUSBDevice

section Model

variable (aes : List UInt8 → BlockStream 128 16)

/-! ## The kernel -/

def urbDone (st : PrivUSBDevice) (status : Int) (data : List UInt8) : PrivUSBDevice :=
  match st.pending with
  | [] => st
  | aurb :: rest =>
    if 0 ≤ status ∧ st.kern.activated = true then
      let r := privCrypt (.ctr aes) st.kern data
      { st with
        kern := r.2.2
        pending := rest
        completed := st.completed ++
          [{ aurb := aurb, status := status, bytes := r.2.1, data := data, encrypted := true }] }
    else
      { st with
        pending := rest
        completed := st.completed ++
          [{ aurb := aurb, status := status, bytes := data, data := data, encrypted := false }] }

def killed (aurb : AsyncURB) : DoneURB :=
  { aurb := aurb, status := -ENOENT, bytes := [], data := [], encrypted := false }

/-! ## QEMU -/

/-- The loop of `usb_host_handle_data`, which takes at most `rem` turns. -/
def dataUrbs (p : Nat) : Nat → Nat → Nat → List AsyncURB
  | 0, _, _ => []
  | turns + 1, off, rem =>
    if rem = 0 then []
    else if MAX_USBFS_BUFFER_SIZE < rem then
      { packet := some p, more := true, offset := off, bufferLength := MAX_USBFS_BUFFER_SIZE } ::
        dataUrbs p turns (off + MAX_USBFS_BUFFER_SIZE) (rem - MAX_USBFS_BUFFER_SIZE)
    else [{ packet := some p, more := false, offset := off, bufferLength := rem }]

def usbHostHandleData (st : PrivUSBDevice) (p : Nat) (buf : List UInt8) : PrivUSBDevice :=
  { st.setPacket p { len := 0, data := buf, sent := [] } with
    pending := st.pending ++ dataUrbs p buf.length 0 buf.length }

/-- The length is passed on as a `size_t`: a negative one is larger than any buffer. -/
def privHandleEncPacket (stack : Nat → AesBlock) (st : PrivUSBDevice) (p : Nat) : PrivUSBDevice :=
  let pkt := st.packets p
  if pkt.len < 0 then { st with crashed := true }
  else
    let n := pkt.len.toNat
    let r := userPrivCrypt aes (stack p) st.user (pkt.data.take n)
    { st.setPacket p { pkt with data := r.2.1 ++ pkt.data.drop n } with user := r.2.2 }

def usbPacketComplete (st : PrivUSBDevice) (p : Nat) : PrivUSBDevice :=
  { st with guest := { packet := p, content := st.packets p } :: st.guest }

def lenAfter (len : Int) (r : DoneURB) : Int :=
  if r.status = 0 then len + r.bytes.length
  else if r.status = -EPIPE then USB_RET_STALL
  else USB_RET_NAK

def copyOut (r : DoneURB) (buf : List UInt8) : List UInt8 :=
  buf.take r.aurb.offset ++ r.bytes ++ buf.drop (r.aurb.offset + r.bytes.length)

def USBPacket.add (pkt : USBPacket) (r : DoneURB) : USBPacket :=
  { len := lenAfter pkt.len r, data := copyOut r pkt.data, sent := pkt.sent ++ r.data }

def reapUrb (stack : Nat → AesBlock) (st : PrivUSBDevice) (r : DoneURB) : PrivUSBDevice :=
  if st.crashed then st
  else
    match r.aurb.packet with
    | none => st
    | some p =>
      let st := st.setPacket p ((st.packets p).add r)
      if r.aurb.more then { st with received := st.received ++ [r] }
      else
        let st := if st.handler then privHandleEncPacket aes stack st p else st
        if st.crashed then st else { usbPacketComplete st p with received := [] }

section ReapUrb

variable {aes} {stack : Nat → AesBlock} {st : PrivUSBDevice} {r : DoneURB} {p : Nat}

theorem reapUrb_dead (hRuns : st.crashed = false) (hDead : r.aurb.packet = none) :
    reapUrb aes stack st r = st := by
  simp [reapUrb, hRuns, hDead]

theorem reapUrb_more (hRuns : st.crashed = false) (hPacket : r.aurb.packet = some p)
    (hMore : r.aurb.more = true) :
    reapUrb aes stack st r =
      { st.setPacket p ((st.packets p).add r) with received := st.received ++ [r] } := by
  simp [reapUrb, hRuns, hPacket, hMore, PrivUSBDevice.setPacket]

theorem reapUrb_plain (hRuns : st.crashed = false) (hPacket : r.aurb.packet = some p)
    (hLast : r.aurb.more = false) (hOff : st.handler = false) :
    reapUrb aes stack st r =
      { usbPacketComplete (st.setPacket p ((st.packets p).add r)) p with received := [] } := by
  simp [reapUrb, hRuns, hPacket, hLast, hOff]

theorem reapUrb_secured (hRuns : st.crashed = false) (hPacket : r.aurb.packet = some p)
    (hLast : r.aurb.more = false) (hOn : st.handler = true) :
    reapUrb aes stack st r =
      let t := privHandleEncPacket aes stack (st.setPacket p ((st.packets p).add r)) p
      if t.crashed then t else { usbPacketComplete t p with received := [] } := by
  simp [reapUrb, hRuns, hPacket, hLast, hOn]

end ReapUrb

def asyncComplete (stack : Nat → AesBlock) (st : PrivUSBDevice) : PrivUSBDevice :=
  st.completed.foldl (reapUrb aes stack) { st with completed := [] }

def AsyncURB.forget (p : Nat) (aurb : AsyncURB) : AsyncURB :=
  if aurb.packet = some p then { aurb with packet := none } else aurb

/-- The URBs in flight are killed; "async discard urb" fails for those given back. -/
def usbHostAsyncCancel (st : PrivUSBDevice) (p : Nat) : PrivUSBDevice :=
  let mine := st.pending.filter fun aurb => aurb.packet = some p
  { st with
    pending := st.pending.filter fun aurb => aurb.packet ≠ some p
    completed := st.completed.map (fun r => { r with aurb := r.aurb.forget p }) ++
      mine.reverse.map fun aurb => killed (aurb.forget p) }

def usbDevConnect (st : PrivUSBDevice) : PrivUSBDevice :=
  { st with kern := privSetActivated st.kern true, connected := true, handler := true }

/-- The URBs of `late` are given back after the context has been deactivated and before the last
reap; those in flight at the end go with the open file. -/
def usbDevDisconnect (late : List (Int × List UInt8)) (stack : Nat → AesBlock)
    (st : PrivUSBDevice) : PrivUSBDevice :=
  if st.connected then
    let st := { st with kern := privSetActivated st.kern false, handler := false }
    let st := late.foldl (fun st c => urbDone aes st c.1 c.2) st
    let st := asyncComplete aes stack st
    { st with pending := [], received := [], connected := false }
  else st

inductive DevOp where
  | submit (p : Nat) (buf : List UInt8)
  | urbDone (status : Int) (data : List UInt8)
  | reap (stack : Nat → AesBlock)
  | cancel (p : Nat)
  | connect
  | disconnect (late : List (Int × List UInt8)) (stack : Nat → AesBlock)

inductive DevStep : PrivUSBDevice → DevOp → PrivUSBDevice → Prop
  | submit (st p buf) (hRuns : st.crashed = false) (hOpen : st.connected = true)
      (hPending : ∀ a ∈ st.pending, a.packet ≠ some p)
      (hCompleted : ∀ r ∈ st.completed, r.aurb.packet ≠ some p) :
      DevStep st (.submit p buf) (usbHostHandleData st p buf)
  | urbDone (st status data) : DevStep st (.urbDone status data) (Usb.urbDone aes st status data)
  | reap (st stack) (hRuns : st.crashed = false) (hOpen : st.connected = true) :
      DevStep st (.reap stack) (asyncComplete aes stack st)
  | cancel (st p) (hRuns : st.crashed = false) (hOpen : st.connected = true) :
      DevStep st (.cancel p) (usbHostAsyncCancel st p)
  | connect (st) (hRuns : st.crashed = false) (hClosed : st.connected = false) :
      DevStep st .connect (usbDevConnect st)
  | disconnect (st late stack) (hRuns : st.crashed = false) :
      DevStep st (.disconnect late stack) (usbDevDisconnect aes late stack st)

end Model

end Lacuna.Usb
