import Mathlib.Data.List.Nodup
import Lacuna.Lib.Trace

/-!
# Connecting and disconnecting private devices

A private device that is configured is a `PrivUSBDevice` of `priv-usb.c`. Connecting it
opens a host device and keeps it in `pud->dev`; disconnecting closes what
`usb_device_delete_addr` finds on the bus under the address of `pud->dev`, and leaves
`pud->dev` as it is. The ctrl and alt keys of a keyboard that toggles call
`priv_disconnect_all` from within `async_complete`, which goes on with the device.
-/

namespace Lacuna.Usb.Lifecycle

open Lacuna.Lib Function List

structure KbdInfo where
  lctrl : Bool
  lalt : Bool
  deriving DecidableEq

structure PrivUsb where
  /-- `pd.ops` are those of keyboards -/
  kbd : Bool
  toggler : Bool
  encrypt : Bool
  dev : Option Nat
  /-- `pud->opaque` -/
  info : Option KbdInfo
  deriving DecidableEq

/-- `dev->priv_handle_packet`, with the place of `dev->priv_opaque` among the devices. -/
inductive DevHandler where
  | none
  | enc (i : Nat)
  | kbd (i : Nat)
  deriving DecidableEq

inductive DevKind where
  /-- a host device opened by a connect -/
  | priv
  /-- any other host device -/
  | host
  | emulated
  deriving DecidableEq

structure BusDev where
  kind : DevKind
  addr : Nat
  handler : DevHandler
  /-- history: how many times it has been closed -/
  closes : Nat
  deriving DecidableEq

/-- The devices, and those at the ports of `bus->used`. -/
structure Bus where
  devs : Nat → BusDev
  used : List Nat
  /-- where the next device is allocated -/
  next : Nat
  /-- history: a device that was closed has been used -/
  misused : Bool

structure PrivInput where
  devices : List PrivUsb
  bus : Bus
  exited : Bool

/-! ## The bus -/

namespace Bus

def set (bus : Bus) (h : Nat) (dev : BusDev) : Bus :=
  { bus with devs := Function.update bus.devs h dev }

def use (bus : Bus) (h : Nat) : Bus :=
  { bus with misused := bus.misused || (bus.devs h).closes != 0 }

def setHandler (bus : Bus) (h : Nat) (handler : DevHandler) : Bus :=
  (bus.use h).set h { bus.devs h with handler := handler }

/-- When it finds the device or waits for it to be plugged in. -/
def usbHostDeviceOpen (bus : Bus) (attached : Bool) : Bus :=
  { bus.set bus.next { kind := .priv, addr := 0, handler := .none, closes := 0 } with
    used := if attached then bus.used ++ [bus.next] else bus.used
    next := bus.next + 1 }

/-- The port that `usb_device_delete_addr` stops at. -/
def findAddr (bus : Bus) (addr : Nat) : Option Nat :=
  bus.used.find? fun h => (bus.devs h).addr = addr

/-- Only host devices leave their port, in `usb_host_close`. -/
def qdevFree (bus : Bus) (h : Nat) : Bus :=
  { bus.set h { bus.devs h with closes := (bus.devs h).closes + 1 } with
    used := if (bus.devs h).kind = .emulated then bus.used else bus.used.erase h }

def usbCloseHostDev (bus : Bus) (h : Nat) : Int × Bus :=
  match bus.findAddr (bus.devs h).addr with
  | none => (-1, bus)
  | some h' => (0, bus.qdevFree h')

end Bus

/-- Whether the device is opened and is plugged in, and the outcome of `priv_activate`. -/
structure ConnectEnv where
  opens : Bool
  attached : Bool
  activates : Bool
  deriving DecidableEq

def usbDevConnect (env : Nat → ConnectEnv) (i : Nat) (pud : PrivUsb) (bus : Bus) :
    Int × PrivUsb × Bus :=
  if (env i).opens then
    let pud := { pud with dev := some bus.next }
    let bus' := bus.usbHostDeviceOpen (env i).attached
    if pud.encrypt then
      if (env i).activates then (0, pud, bus'.setHandler bus.next (.enc i))
      else (-1, pud, bus')
    else (0, pud, bus')
  else (-1, { pud with dev := none }, bus)

def usbKbdConnect (env : Nat → ConnectEnv) (i : Nat) (pud : PrivUsb) (bus : Bus) :
    Int × PrivUsb × Bus :=
  match usbDevConnect env i pud bus with
  | (rc, pud, bus) =>
    if rc < 0 then (rc, pud, bus)
    else if pud.toggler then
      let pud := { pud with info := some ⟨false, false⟩ }
      match pud.dev with
      | some h => (rc, pud, bus.setHandler h (.kbd i))
      | none => (rc, pud, bus)
    else (rc, pud, bus)

def usbDevDisconnect (pud : PrivUsb) (bus : Bus) : Int × PrivUsb × Bus :=
  match pud.dev with
  | none => (0, pud, bus)
  | some h =>
    match (bus.setHandler h .none).usbCloseHostDev h with
    | (rc, bus) => (rc, pud, bus)

def usbKbdDisconnect (pud : PrivUsb) (bus : Bus) : Int × PrivUsb × Bus :=
  usbDevDisconnect (if pud.toggler then { pud with info := none } else pud) bus

def privDevConnect (env : Nat → ConnectEnv) (i : Nat) (pud : PrivUsb) (bus : Bus) :
    Int × PrivUsb × Bus :=
  if pud.kbd then usbKbdConnect env i pud bus else usbDevConnect env i pud bus

def privDevDisconnect (pud : PrivUsb) (bus : Bus) : Int × PrivUsb × Bus :=
  if pud.kbd then usbKbdDisconnect pud bus else usbDevDisconnect pud bus

def privDevForAll (fn : Nat → PrivUsb → Bus → Int × PrivUsb × Bus) :
    Nat → List PrivUsb → Bus → Int × List PrivUsb × Bus
  | _, [], bus => (0, [], bus)
  | i, pud :: puds, bus =>
    match fn i pud bus with
    | (rc, pud, bus) =>
      if rc < 0 then (-1, pud :: puds, bus)
      else
        match privDevForAll fn (i + 1) puds bus with
        | (rc, puds, bus) => (rc, pud :: puds, bus)

def privConnectAll (env : Nat → ConnectEnv) (puds : List PrivUsb) (bus : Bus) :
    Int × List PrivUsb × Bus :=
  privDevForAll (privDevConnect env) 0 puds bus

def privDisconnectAll (puds : List PrivUsb) (bus : Bus) : Int × List PrivUsb × Bus :=
  privDevForAll (fun _ => privDevDisconnect) 0 puds bus

/-! ## Packets of keyboards -/

def USB_KBD_LCTRL : UInt8 := 0x01

def USB_KBD_LALT : UInt8 := 0x04

/-- A packet that is complete: its length and the first byte, decrypted. -/
structure KbdPacket where
  len : Int
  state : UInt8
  deriving DecidableEq

/-- The state of the keys after a packet, and whether the input grab is to be released. -/
def KbdInfo.press (pki : KbdInfo) (state : UInt8) : Bool × KbdInfo :=
  let lctrl := state &&& USB_KBD_LCTRL != 0
  let lalt := state &&& USB_KBD_LALT != 0
  ((lctrl && !pki.lctrl || lalt && !pki.lalt) && lctrl && lalt, ⟨lctrl, lalt⟩)

namespace PrivInput

/-- `dev->priv_handle_packet` for the device `h`: whether it comes to `sdl_grab_end`. -/
def handlePacket (st : PrivInput) (h : Nat) (pkt : KbdPacket) : Bool × PrivInput :=
  match (st.bus.devs h).handler with
  | .kbd i =>
    if pkt.len < 1 then (false, st)
    else
      match st.devices[i]? with
      | some pud =>
        match pud.info with
        | some pki =>
          ((pki.press pkt.state).1,
            { st with devices := st.devices.set i { pud with info := some (pki.press pkt.state).2 } })
        -- a read through `NULL`
        | none => (false, { st with exited := true })
      | none => (false, st)
  | _ => (false, st)

def sdlGrabEnd (st : PrivInput) : PrivInput :=
  match privDisconnectAll st.devices st.bus with
  | (rc, puds, bus) => { devices := puds, bus := bus, exited := st.exited || rc < 0 }

/-- The loop of `async_complete` over the packets that the device `h` has completed: whether it
has come to `sdl_grab_end`, and the state. Each turn begins with an `ioctl` on `s->fd`. -/
def asyncComplete (h : Nat) : List KbdPacket → PrivInput → Bool × PrivInput
  | [], st => (false, { st with bus := st.bus.use h })
  | pkt :: pkts, st =>
    let st := { st with bus := st.bus.use h }
    if (st.bus.devs h).closes ≠ 0 then (false, st)
    else
      match st.handlePacket h pkt with
      | (grabEnd, st) =>
        if st.exited then (false, st)
        else if grabEnd then
          if st.sdlGrabEnd.exited then (true, st.sdlGrabEnd)
          else (true, (asyncComplete h pkts st.sdlGrabEnd).2)
        else asyncComplete h pkts st

end PrivInput

/-- Calls, and what happens in between: a device is plugged in or out, or gets an address. -/
inductive InputOp where
  | connectAll (env : Nat → ConnectEnv)
  | disconnectAll
  | reap (h : Nat) (pkts : List KbdPacket)
  | attach (h : Nat)
  | detach (h : Nat)
  | setAddr (h addr : Nat)

def heldDevs (puds : List PrivUsb) : List Nat := puds.filterMap (·.dev)

/-- `P` at each device that `priv_disconnect_all` comes to. -/
def EachDisconnect (P : PrivUsb → Bus → Prop) : List PrivUsb → Bus → Prop
  | [], _ => True
  | pud :: puds, bus =>
    P pud bus ∧ (0 ≤ (privDevDisconnect pud bus).1 →
      EachDisconnect P puds (privDevDisconnect pud bus).2.2)

def PrivUsb.Connected (pud : PrivUsb) (bus : Bus) : Prop :=
  ∃ h, pud.dev = some h ∧ (bus.devs h).closes = 0

/-- The disconnect succeeds and does nothing unless the device is connected. -/
def PrivUsb.Idle (pud : PrivUsb) (bus : Bus) : Prop :=
  ¬ pud.Connected bus → (privDevDisconnect pud bus).1 = 0 ∧ (privDevDisconnect pud bus).2.2 = bus

/-- `pud->dev` is open, and is what is found under its address. -/
def PrivUsb.Found (pud : PrivUsb) (bus : Bus) : Prop :=
  ∀ h, pud.dev = some h →
    (bus.devs h).closes = 0 ∧ bus.findAddr (bus.devs h).addr = some h

namespace InputOp

def run (st : PrivInput) : InputOp → PrivInput
  | .connectAll env =>
    match privConnectAll env st.devices st.bus with
    | (_, puds, bus) => { st with devices := puds, bus := bus }
  | .disconnectAll =>
    match privDisconnectAll st.devices st.bus with
    | (_, puds, bus) => { st with devices := puds, bus := bus }
  | .reap h pkts => (st.asyncComplete h pkts).2
  | .attach h => { st with bus := { st.bus with used := st.bus.used ++ [h] } }
  | .detach h => { st with bus := { st.bus with used := st.bus.used.erase h } }
  | .setAddr h addr => { st with bus := st.bus.set h { st.bus.devs h with addr := addr } }

/-- Only open devices are polled by the main loop and can be plugged in. -/
def Enabled (st : PrivInput) : InputOp → Prop
  | .reap h _ => st.exited = false ∧ (st.bus.devs h).closes = 0
  | .attach h => st.exited = false ∧ (st.bus.devs h).closes = 0 ∧ h < st.bus.next
  | _ => st.exited = false

def Step (st : PrivInput) (op : InputOp) (st' : PrivInput) : Prop :=
  op.Enabled st ∧ st' = op.run st

/-- The step is a call of `priv_disconnect_all` or comes to one. -/
def disconnects (st : PrivInput) : InputOp → Bool
  | .disconnectAll => true
  | .reap h pkts => (st.asyncComplete h pkts).1
  | _ => false

structure Good (st : PrivInput) (op : InputOp) : Prop where
  unused : (op.run st).bus.misused = false
  atMostOnce : ∀ h, ((op.run st).bus.devs h).kind = .priv → ((op.run st).bus.devs h).closes ≤ 1
  closed : op.disconnects st = true →
    ∀ h, ((op.run st).bus.devs h).kind = .priv → ((op.run st).bus.devs h).closes = 1
  idle : op = .disconnectAll → EachDisconnect PrivUsb.Idle st.devices st.bus

/-- A disconnect is not begun by a keyboard, and meets every open device where it looks. -/
def Orderly (st : PrivInput) : InputOp → Prop
  | .disconnectAll =>
    (∀ h, (st.bus.devs h).kind = .priv → (st.bus.devs h).closes = 0 → h ∈ heldDevs st.devices) ∧
      EachDisconnect PrivUsb.Found st.devices st.bus
  | .reap h pkts => (st.asyncComplete h pkts).1 = false
  | _ => True

end InputOp

/-! ## The invariant -/

structure BusInv (bus : Bus) : Prop where
  below : ∀ h, (bus.devs h).kind = .priv → h < bus.next
  handled : ∀ h, (bus.devs h).handler ≠ .none → (bus.devs h).kind = .priv
  unused : bus.misused = false
  atMostOnce : ∀ h, (bus.devs h).kind = .priv → (bus.devs h).closes ≤ 1

structure InputInv (st : PrivInput) : Prop where
  bus : BusInv st.bus
  held : ∀ h ∈ heldDevs st.devices, (st.bus.devs h).kind = .priv
  nodup : (heldDevs st.devices).Nodup

namespace Bus

section Frame

variable {bus : Bus} {h x : Nat}

theorem devs_setHandler (handler : DevHandler) : (bus.setHandler h handler).devs x =
    { bus.devs x with handler := if x = h then handler else (bus.devs x).handler } := by
  by_cases hx : x = h
  · subst hx
    simp [setHandler, set]
  · simp [setHandler, set, use, hx]

theorem devs_qdevFree : (bus.qdevFree h).devs x =
    { bus.devs x with closes := (bus.devs x).closes + if x = h then 1 else 0 } := by
  by_cases hx : x = h
  · subst hx
    simp [qdevFree, set]
  · simp [qdevFree, set, hx]

@[simp] theorem kind_setHandler (handler : DevHandler) :
    ((bus.setHandler h handler).devs x).kind = (bus.devs x).kind := by rw [devs_setHandler]

@[simp] theorem closes_setHandler (handler : DevHandler) :
    ((bus.setHandler h handler).devs x).closes = (bus.devs x).closes := by rw [devs_setHandler]

@[simp] theorem addr_setHandler (handler : DevHandler) :
    ((bus.setHandler h handler).devs x).addr = (bus.devs x).addr := by rw [devs_setHandler]

@[simp] theorem kind_qdevFree : ((bus.qdevFree h).devs x).kind = (bus.devs x).kind := by
  rw [devs_qdevFree]

@[simp] theorem handler_qdevFree : ((bus.qdevFree h).devs x).handler = (bus.devs x).handler := by
  rw [devs_qdevFree]

theorem closes_qdevFree :
    ((bus.qdevFree h).devs x).closes = (bus.devs x).closes + if x = h then 1 else 0 := by
  rw [devs_qdevFree]

theorem handler_setHandler (handler : DevHandler) : ((bus.setHandler h handler).devs x).handler =
    if x = h then handler else (bus.devs x).handler := by rw [devs_setHandler]

@[simp] theorem findAddr_setHandler (handler : DevHandler) (addr : Nat) :
    (bus.setHandler h handler).findAddr addr = bus.findAddr addr := by
  simp only [findAddr, addr_setHandler]
  rfl

@[simp] theorem misused_setHandler (handler : DevHandler) :
    (bus.setHandler h handler).misused = (bus.misused || (bus.devs h).closes != 0) := rfl

@[simp] theorem misused_qdevFree : (bus.qdevFree h).misused = bus.misused := rfl

end Frame

end Bus

/-! ## One disconnect -/

theorem privDevDisconnect_eq (pud : PrivUsb) (bus : Bus) :
    ∃ pud', pud'.dev = pud.dev ∧ privDevDisconnect pud bus = usbDevDisconnect pud' bus := by
  unfold privDevDisconnect usbKbdDisconnect
  by_cases hKbd : pud.kbd = true
  · rw [if_pos hKbd]
    refine ⟨_, ?_, rfl⟩
    split <;> rfl
  · rw [if_neg hKbd]
    exact ⟨pud, rfl, rfl⟩

/-- **One disconnect**: nothing is connected, nothing is found, or what is found is
closed. -/
theorem privDevDisconnect_cases (pud : PrivUsb) (bus : Bus) :
    (pud.dev = none ∧ (privDevDisconnect pud bus).1 = 0 ∧ (privDevDisconnect pud bus).2.2 = bus) ∨
    (∃ h, pud.dev = some h ∧ bus.findAddr (bus.devs h).addr = none ∧
      (privDevDisconnect pud bus).1 = -1 ∧
      (privDevDisconnect pud bus).2.2 = bus.setHandler h .none) ∨
    ∃ h h', pud.dev = some h ∧ bus.findAddr (bus.devs h).addr = some h' ∧
      (privDevDisconnect pud bus).1 = 0 ∧
      (privDevDisconnect pud bus).2.2 = (bus.setHandler h .none).qdevFree h' := by
  obtain ⟨pud', hDev', hEq⟩ := privDevDisconnect_eq pud bus
  rw [hEq, ← hDev']
  unfold usbDevDisconnect
  cases hDev : pud'.dev with
  | none => exact .inl ⟨rfl, rfl, rfl⟩
  | some h =>
    refine .inr ?_
    simp only [Bus.usbCloseHostDev, Bus.addr_setHandler, Bus.findAddr_setHandler]
    cases hFind : bus.findAddr (bus.devs h).addr with
    | none => exact .inl ⟨h, rfl, hFind, rfl, rfl⟩
    | some h' => exact .inr ⟨h, h', rfl, hFind, rfl, rfl⟩

theorem dev_privDevDisconnect (pud : PrivUsb) (bus : Bus) :
    (privDevDisconnect pud bus).2.1.dev = pud.dev := by
  obtain ⟨pud', hDev', hEq⟩ := privDevDisconnect_eq pud bus
  rw [hEq, ← hDev']
  unfold usbDevDisconnect
  split <;> rfl

/-! ## All disconnects -/

section DisconnectAll

variable {bus : Bus} {puds : List PrivUsb}

/-- What a disconnect leaves as it is, and what it may only add to. -/
structure Bus.Loses (bus bus' : Bus) : Prop where
  kind : ∀ x, (bus'.devs x).kind = (bus.devs x).kind
  handler : ∀ x, (bus'.devs x).handler ≠ .none → (bus.devs x).handler ≠ .none
  next : bus'.next = bus.next
  misused : bus.misused = true → bus'.misused = true

theorem Bus.Loses.refl (bus : Bus) : bus.Loses bus :=
  ⟨fun _ => rfl, fun _ => id, rfl, id⟩

theorem Bus.Loses.trans {bus' bus'' : Bus} (h : bus.Loses bus') (h' : bus'.Loses bus'') :
    bus.Loses bus'' :=
  ⟨fun x => (h'.kind x).trans (h.kind x), fun x hx => h.handler x (h'.handler x hx),
    h'.next.trans h.next, fun hMis => h'.misused (h.misused hMis)⟩

theorem loses_setHandler (bus : Bus) (h : Nat) : bus.Loses (bus.setHandler h .none) := by
  refine ⟨fun x => by simp, fun x hx => ?_, rfl, fun hMis => by simp [hMis]⟩
  rw [Bus.handler_setHandler] at hx
  split at hx
  · exact absurd rfl hx
  · exact hx

theorem loses_privDevDisconnect (pud : PrivUsb) (bus : Bus) :
    bus.Loses (privDevDisconnect pud bus).2.2 := by
  rcases privDevDisconnect_cases pud bus with ⟨-, -, hBus⟩ | ⟨h, -, -, -, hBus⟩ |
    ⟨h, h', -, -, -, hBus⟩
  · rw [hBus]
    exact Bus.Loses.refl bus
  · rw [hBus]
    exact loses_setHandler bus h
  · rw [hBus]
    refine (loses_setHandler bus h).trans ⟨fun x => by simp, fun x hx => ?_, rfl, id⟩
    rwa [Bus.handler_qdevFree] at hx

theorem privDevForAll_cons (fn : Nat → PrivUsb → Bus → Int × PrivUsb × Bus) (i : Nat)
    (pud : PrivUsb) (puds : List PrivUsb) (bus : Bus) :
    privDevForAll fn i (pud :: puds) bus =
      if (fn i pud bus).1 < 0 then (-1, (fn i pud bus).2.1 :: puds, (fn i pud bus).2.2)
      else
        ((privDevForAll fn (i + 1) puds (fn i pud bus).2.2).1,
          (fn i pud bus).2.1 :: (privDevForAll fn (i + 1) puds (fn i pud bus).2.2).2.1,
          (privDevForAll fn (i + 1) puds (fn i pud bus).2.2).2.2) := rfl

theorem loses_disconnect (i : Nat) (puds : List PrivUsb) (bus : Bus) :
    bus.Loses (privDevForAll (fun _ => privDevDisconnect) i puds bus).2.2 ∧
      heldDevs (privDevForAll (fun _ => privDevDisconnect) i puds bus).2.1 = heldDevs puds := by
  induction puds generalizing i bus with
  | nil => exact ⟨Bus.Loses.refl bus, rfl⟩
  | cons pud puds ih =>
    rw [privDevForAll_cons]
    have hHead := loses_privDevDisconnect pud bus
    split
    · refine ⟨hHead, ?_⟩
      simp only [heldDevs, filterMap_cons, dev_privDevDisconnect]
    · obtain ⟨hTail, hHeld⟩ := ih (i + 1) (privDevDisconnect pud bus).2.2
      refine ⟨hHead.trans hTail, ?_⟩
      simp only [heldDevs, filterMap_cons, dev_privDevDisconnect] at hHeld ⊢
      rw [hHeld]

theorem heldDevs_cons_none {pud : PrivUsb} (hDev : pud.dev = none) (puds : List PrivUsb) :
    heldDevs (pud :: puds) = heldDevs puds := filterMap_cons_none hDev

theorem heldDevs_cons_some {pud : PrivUsb} {h : Nat} (hDev : pud.dev = some h)
    (puds : List PrivUsb) : heldDevs (pud :: puds) = h :: heldDevs puds :=
  filterMap_cons_some hDev

/-- A closed device has been used, or a device that was opened is open. -/
def Bus.Bad (bus : Bus) : Prop :=
  bus.misused = true ∨ ∃ x, (bus.devs x).kind = .priv ∧ (bus.devs x).closes = 0

theorem bad_of_misused (hMis : bus.misused = true) (i : Nat) (puds : List PrivUsb) :
    (privDevForAll (fun _ => privDevDisconnect) i puds bus).2.2.Bad :=
  .inl ((loses_disconnect i puds bus).1.misused hMis)

theorem misused_of_closed {h : Nat} (hClosed : (bus.devs h).closes ≠ 0)
    (handler : DevHandler) : (bus.setHandler h handler).misused = true := by
  rw [Bus.misused_setHandler, Bool.or_eq_true, bne_iff_ne]
  exact .inr hClosed

/-- **A device too many**: the loop closes no more devices than it holds, so that one more
that is open in the beginning leaves one open in the end. -/
theorem bad_of_unheld {x : Nat} (i : Nat)
    (hKind : (bus.devs x).kind = .priv) (hOpen : (bus.devs x).closes = 0)
    (hNot : x ∉ heldDevs puds) (hNodup : (heldDevs puds).Nodup)
    (hHeld : ∀ h ∈ heldDevs puds, (bus.devs h).kind = .priv) :
    (privDevForAll (fun _ => privDevDisconnect) i puds bus).2.2.Bad := by
  induction puds generalizing i bus x with
  | nil => exact .inr ⟨x, hKind, hOpen⟩
  | cons pud puds ih =>
    rw [privDevForAll_cons]
    rcases privDevDisconnect_cases pud bus with ⟨hDev, hRc, hBus⟩ | ⟨h, hDev, -, hRc, hBus⟩ |
      ⟨h, h', hDev, -, hRc, hBus⟩
    · rw [heldDevs_cons_none hDev] at hNot hNodup hHeld
      rw [hRc, hBus, if_neg (by decide)]
      exact ih (i + 1) hKind hOpen hNot hNodup hHeld
    · rw [hRc, hBus, if_pos (by decide)]
      exact .inr ⟨x, by simpa using hKind, by simpa using hOpen⟩
    · rw [heldDevs_cons_some hDev] at hNot hNodup hHeld
      have hNe := ne_of_not_mem_cons hNot
      replace hNot := not_mem_of_not_mem_cons hNot
      obtain ⟨hNotHeld, hNodup⟩ := List.nodup_cons.mp hNodup
      rw [hRc, hBus, if_neg (by decide)]
      by_cases hClosed : (bus.devs h).closes = 0
      · have hHeld' : ∀ y ∈ heldDevs puds,
            (((bus.setHandler h .none).qdevFree h').devs y).kind = .priv := by
          intro y hy
          simpa using hHeld y (mem_cons_of_mem h hy)
        by_cases hx : h' = x
        · -- in its place `pud->dev` itself stays open
          subst hx
          refine ih (i + 1) (x := h) ?_ ?_ hNotHeld hNodup hHeld'
          · simpa using hHeld h mem_cons_self
          · rw [Bus.closes_qdevFree, if_neg (Ne.symm hNe), Bus.closes_setHandler, hClosed]
        · refine ih (i + 1) (x := x) ?_ ?_ hNot hNodup hHeld'
          · simpa using hKind
          · rw [Bus.closes_qdevFree, if_neg (Ne.symm hx), Bus.closes_setHandler, hOpen]
      · refine bad_of_misused ?_ (i + 1) puds
        rw [Bus.misused_qdevFree]
        exact misused_of_closed hClosed .none

theorem bad_of_failed {i : Nat} (hHeld : ∀ h ∈ heldDevs puds, (bus.devs h).kind = .priv)
    (hFailed : (privDevForAll (fun _ => privDevDisconnect) i puds bus).1 < 0) :
    (privDevForAll (fun _ => privDevDisconnect) i puds bus).2.2.Bad := by
  induction puds generalizing i bus with
  | nil => exact absurd hFailed (Int.lt_irrefl 0)
  | cons pud puds ih =>
    rw [privDevForAll_cons] at hFailed ⊢
    rcases privDevDisconnect_cases pud bus with ⟨hDev, hRc, hBus⟩ | ⟨h, hDev, -, hRc, hBus⟩ |
      ⟨h, h', hDev, -, hRc, hBus⟩
    · rw [heldDevs_cons_none hDev] at hHeld
      rw [hRc, hBus, if_neg (by decide)] at hFailed ⊢
      exact ih hHeld hFailed
    · rw [heldDevs_cons_some hDev] at hHeld
      rw [hRc, hBus, if_pos (by decide)]
      by_cases hClosed : (bus.devs h).closes = 0
      · exact .inr ⟨h, by simpa using hHeld h mem_cons_self, by simpa using hClosed⟩
      · exact .inl (misused_of_closed hClosed .none)
    · rw [heldDevs_cons_some hDev] at hHeld
      rw [hRc, hBus, if_neg (by decide)] at hFailed ⊢
      refine ih (fun y hy => ?_) hFailed
      simpa using hHeld y (mem_cons_of_mem h hy)

theorem disconnect_found (i : Nat)
    (hFound : EachDisconnect PrivUsb.Found puds bus) (hNodup : (heldDevs puds).Nodup) :
    (privDevForAll (fun _ => privDevDisconnect) i puds bus).2.2.misused = bus.misused ∧
    (∀ x, ((privDevForAll (fun _ => privDevDisconnect) i puds bus).2.2.devs x).closes =
      if x ∈ heldDevs puds then 1 else (bus.devs x).closes) ∧
    EachDisconnect PrivUsb.Idle puds bus := by
  induction puds generalizing i bus with
  | nil => exact ⟨rfl, fun x => (if_neg not_mem_nil).symm, trivial⟩
  | cons pud puds ih =>
    rw [privDevForAll_cons]
    rcases privDevDisconnect_cases pud bus with ⟨hDev, hRc, hBus⟩ | ⟨h, hDev, hFind, -, -⟩ |
      ⟨h, h', hDev, hFind, hRc, hBus⟩
    · have hRest := hFound.2 (hRc ▸ Int.le_refl 0)
      rw [hBus] at hRest
      rw [heldDevs_cons_none hDev] at hNodup ⊢
      obtain ⟨hMis, hCloses, hIdle⟩ := ih (i + 1) hRest hNodup
      rw [hRc, hBus, if_neg (by decide)]
      refine ⟨hMis, hCloses, fun _ => ⟨hRc, hBus⟩, fun _ => ?_⟩
      rwa [hBus]
    · have := (hFound.1 h hDev).2
      rw [hFind] at this
      cases this
    · obtain ⟨hOpen, hHere⟩ := hFound.1 h hDev
      obtain rfl : h' = h := Option.some.inj (hFind.symm.trans hHere)
      have hRest := hFound.2 (hRc ▸ Int.le_refl 0)
      rw [heldDevs_cons_some hDev] at hNodup ⊢
      obtain ⟨hNotHeld, hNodup⟩ := List.nodup_cons.mp hNodup
      obtain ⟨hMis, hCloses, hIdle⟩ := ih (i + 1) hRest hNodup
      rw [hRc, if_neg (by decide)]
      refine ⟨?_, fun x => ?_, fun hNot => absurd ⟨h', hDev, hOpen⟩ hNot, fun _ => hIdle⟩
      · rw [hMis, hBus, Bus.misused_qdevFree, Bus.misused_setHandler, hOpen]
        exact Bool.or_false _
      · rw [hCloses, hBus, Bus.closes_qdevFree, Bus.closes_setHandler]
        by_cases hx : x = h'
        · subst hx
          rw [if_neg hNotHeld, if_pos rfl, if_pos mem_cons_self, hOpen]
        · by_cases hIn : x ∈ heldDevs puds
          · rw [if_pos hIn, if_pos (mem_cons_of_mem h' hIn)]
          · rw [if_neg hIn, if_neg hx, if_neg (not_mem_cons_of_ne_of_not_mem hx hIn), Nat.add_zero]

theorem found_of_not_bad {i : Nat}
    (hGood : ¬ (privDevForAll (fun _ => privDevDisconnect) i puds bus).2.2.Bad)
    (hNodup : (heldDevs puds).Nodup) (hHeld : ∀ h ∈ heldDevs puds, (bus.devs h).kind = .priv) :
    EachDisconnect PrivUsb.Found puds bus := by
  induction puds generalizing i bus with
  | nil => trivial
  | cons pud puds ih =>
    rw [privDevForAll_cons] at hGood
    rcases privDevDisconnect_cases pud bus with ⟨hDev, hRc, hBus⟩ | ⟨h, hDev, hFind, hRc, hBus⟩ |
      ⟨h, h', hDev, hFind, hRc, hBus⟩
    · rw [heldDevs_cons_none hDev] at hNodup hHeld
      rw [hRc, hBus, if_neg (by decide)] at hGood
      refine ⟨fun h hSome => ?_, fun _ => ?_⟩
      · rw [hDev] at hSome
        cases hSome
      · rw [hBus]
        exact ih hGood hNodup hHeld
    · refine absurd (bad_of_failed (i := i) hHeld ?_) ?_
      · rw [privDevForAll_cons, hRc, if_pos (by decide)]
        exact Int.negSucc_lt_zero 0
      · rwa [privDevForAll_cons]
    · rw [heldDevs_cons_some hDev] at hNodup hHeld
      obtain ⟨hNotHeld, hNodup⟩ := List.nodup_cons.mp hNodup
      rw [hRc, if_neg (by decide)] at hGood
      have hHeld' : ∀ y ∈ heldDevs puds, ((privDevDisconnect pud bus).2.2.devs y).kind = .priv := by
        intro y hy
        rw [(loses_privDevDisconnect pud bus).kind]
        exact hHeld y (mem_cons_of_mem h hy)
      refine ⟨fun x hSome => ?_, fun _ => ih hGood hNodup hHeld'⟩
      cases hDev.symm.trans hSome
      by_cases hOpen : (bus.devs h).closes = 0
      · refine ⟨hOpen, ?_⟩
        by_cases hEq : h' = h
        · rw [hFind, hEq]
        · refine absurd (bad_of_unheld (i + 1) (x := h) ?_ ?_ hNotHeld hNodup hHeld') hGood
          · rw [(loses_privDevDisconnect pud bus).kind]
            exact hHeld h mem_cons_self
          · rw [hBus, Bus.closes_qdevFree, if_neg (Ne.symm hEq), Bus.closes_setHandler, hOpen]
      · refine absurd (bad_of_misused ?_ (i + 1) puds) hGood
        rw [hBus, Bus.misused_qdevFree]
        exact misused_of_closed hOpen .none

end DisconnectAll

/-! ## Connecting -/

section Connect

variable {bus bus' : Bus}

structure Bus.Opens (bus bus' : Bus) : Prop where
  next : bus'.next = bus.next + 1
  misused : bus'.misused = bus.misused
  kind : (bus'.devs bus.next).kind = .priv
  closes : (bus'.devs bus.next).closes = 0
  other : ∀ x, x ≠ bus.next → bus'.devs x = bus.devs x

theorem opens_usbHostDeviceOpen (bus : Bus) (attached : Bool) :
    bus.Opens (bus.usbHostDeviceOpen attached) := by
  have hNew : (bus.usbHostDeviceOpen attached).devs bus.next = ⟨.priv, 0, .none, 0⟩ :=
    update_self (β := fun _ => BusDev) ..
  refine ⟨rfl, rfl, by rw [hNew], by rw [hNew], fun x hx => ?_⟩
  exact update_of_ne hx ..

theorem Bus.Opens.setHandler (h : bus.Opens bus') (handler : DevHandler) :
    bus.Opens (bus'.setHandler bus.next handler) := by
  refine ⟨h.next, ?_, ?_, ?_, fun x hx => ?_⟩
  · rw [Bus.misused_setHandler, h.misused, h.closes]
    exact Bool.or_false _
  · rw [Bus.kind_setHandler, h.kind]
  · rw [Bus.closes_setHandler, h.closes]
  · rw [← h.other x hx]
    exact update_of_ne hx ..

theorem usbDevConnect_spec (env : Nat → ConnectEnv) (i : Nat) (pud : PrivUsb) (bus : Bus) :
    ((usbDevConnect env i pud bus).2.1.dev = none ∧ (usbDevConnect env i pud bus).2.2 = bus ∧
      (usbDevConnect env i pud bus).1 < 0) ∨
    (usbDevConnect env i pud bus).2.1.dev = some bus.next ∧
      bus.Opens (usbDevConnect env i pud bus).2.2 := by
  have hOpens := opens_usbHostDeviceOpen bus (env i).attached
  unfold usbDevConnect
  cases (env i).opens with
  | false => exact .inl ⟨rfl, rfl, Int.negSucc_lt_zero 0⟩
  | true =>
    refine .inr ?_
    cases hEnc : pud.encrypt with
    | false => exact ⟨rfl, hOpens⟩
    | true =>
      cases (env i).activates with
      | false => exact ⟨rfl, hOpens⟩
      | true => exact ⟨rfl, hOpens.setHandler (.enc i)⟩

/-- **One connect**. -/
theorem privDevConnect_spec (env : Nat → ConnectEnv) (i : Nat) (pud : PrivUsb) (bus : Bus) :
    ((privDevConnect env i pud bus).2.1.dev = none ∧ (privDevConnect env i pud bus).2.2 = bus) ∨
    (privDevConnect env i pud bus).2.1.dev = some bus.next ∧
      bus.Opens (privDevConnect env i pud bus).2.2 := by
  have hSpec := usbDevConnect_spec env i pud bus
  unfold privDevConnect usbKbdConnect
  rcases hDev : usbDevConnect env i pud bus with ⟨rc, pud', bus'⟩
  rw [hDev] at hSpec
  split
  · dsimp only
    rcases hSpec with ⟨hNone, hBus, hRc⟩ | ⟨hSome, hOpens⟩
    · rw [if_pos hRc]
      exact .inl ⟨hNone, hBus⟩
    · refine .inr ?_
      split
      · exact ⟨hSome, hOpens⟩
      split
      · rw [hSome]
        exact ⟨rfl, hOpens.setHandler (.kbd i)⟩
      · exact ⟨hSome, hOpens⟩
  · exact hSpec.imp (fun hNone => ⟨hNone.1, hNone.2.1⟩) id

theorem BusInv.of_opens (h : BusInv bus) (hOpens : bus.Opens bus') : BusInv bus' := by
  refine ⟨fun x hx => ?_, fun x hx => ?_, hOpens.misused.trans h.unused, fun x hx => ?_⟩
  · rw [hOpens.next]
    by_cases hNew : x = bus.next
    · omega
    · rw [hOpens.other x hNew] at hx
      exact Nat.lt_succ_of_lt (h.below x hx)
  · by_cases hNew : x = bus.next
    · rw [hNew, hOpens.kind]
    · rw [hOpens.other x hNew] at hx ⊢
      exact h.handled x hx
  · by_cases hNew : x = bus.next
    · rw [hNew, hOpens.closes]
      exact Nat.zero_le 1
    · rw [hOpens.other x hNew] at hx ⊢
      exact h.atMostOnce x hx

theorem BusInv.priv_of_opens (h : BusInv bus) (hOpens : bus.Opens bus') {x : Nat}
    (hx : (bus.devs x).kind = .priv) : (bus'.devs x).kind = .priv := by
  rwa [hOpens.other x (Nat.ne_of_lt (h.below x hx))]

/-- What a run of connects keeps: the devices held are opened ones, all different. -/
structure Connects (puds : List PrivUsb) (bus : Bus) (puds' : List PrivUsb) (bus' : Bus) :
    Prop where
  inv : BusInv bus'
  next : bus.next ≤ bus'.next
  priv : ∀ x, (bus.devs x).kind = .priv → (bus'.devs x).kind = .priv
  held : ∀ x ∈ heldDevs puds', (bus'.devs x).kind = .priv
  fresh : ∀ x ∈ heldDevs puds', x ∈ heldDevs puds ∨ bus.next ≤ x
  nodup : (heldDevs puds').Nodup

section

variable {pud pud' : PrivUsb} {puds puds' : List PrivUsb}

theorem mem_heldDevs_cons {x : Nat} (hx : x ∈ heldDevs puds) : x ∈ heldDevs (pud :: puds) :=
  ((sublist_cons_self pud puds).filterMap _).subset hx

theorem Connects.refl (h : BusInv bus) (hHeld : ∀ x ∈ heldDevs puds, (bus.devs x).kind = .priv)
    (hNodup : (heldDevs puds).Nodup) : Connects puds bus puds bus :=
  ⟨h, Nat.le_refl _, fun _ => id, hHeld, fun _ => Or.inl, hNodup⟩

theorem Connects.cons_none (h : Connects puds bus puds' bus') (hDev : pud'.dev = none) :
    Connects (pud :: puds) bus (pud' :: puds') bus' := by
  refine ⟨h.inv, h.next, h.priv, ?_, ?_, ?_⟩
  · rw [heldDevs_cons_none hDev]
    exact h.held
  · rw [heldDevs_cons_none hDev]
    exact fun x hx => (h.fresh x hx).imp_left mem_heldDevs_cons
  · rw [heldDevs_cons_none hDev]
    exact h.nodup

theorem Connects.cons_some {bus₁ : Bus} (hInv : BusInv bus) (hOpens : bus.Opens bus₁)
    (hHeld : ∀ x ∈ heldDevs puds, (bus.devs x).kind = .priv)
    (h : Connects puds bus₁ puds' bus') (hDev : pud'.dev = some bus.next) :
    Connects (pud :: puds) bus (pud' :: puds') bus' := by
  have hNext := h.next
  rw [hOpens.next] at hNext
  have hFresh : ∀ x ∈ heldDevs puds', x ∈ heldDevs puds ∨ bus.next < x := by
    intro x hx
    have hLe := h.fresh x hx
    rw [hOpens.next] at hLe
    exact hLe
  refine ⟨h.inv, Nat.le_of_lt hNext, fun x hx => h.priv x (hInv.priv_of_opens hOpens hx), ?_, ?_, ?_⟩
  · rw [heldDevs_cons_some hDev]
    exact List.forall_mem_cons.mpr ⟨h.priv _ hOpens.kind, h.held⟩
  · rw [heldDevs_cons_some hDev]
    exact List.forall_mem_cons.mpr ⟨.inr (Nat.le_refl _),
      fun x hx => (hFresh x hx).imp mem_heldDevs_cons Nat.le_of_lt⟩
  · rw [heldDevs_cons_some hDev]
    refine List.nodup_cons.mpr ⟨fun hIn => ?_, h.nodup⟩
    -- the new device is above all that were held
    rcases hFresh _ hIn with hOld | hLt
    · exact Nat.lt_irrefl _ (hInv.below _ (hHeld _ hOld))
    · exact Nat.lt_irrefl _ hLt

end

theorem connects_loop (env : Nat → ConnectEnv) (i : Nat) {puds : List PrivUsb} (h : BusInv bus)
    (hHeld : ∀ x ∈ heldDevs puds, (bus.devs x).kind = .priv) (hNodup : (heldDevs puds).Nodup) :
    Connects puds bus (privDevForAll (privDevConnect env) i puds bus).2.1
      (privDevForAll (privDevConnect env) i puds bus).2.2 := by
  induction puds generalizing i bus with
  | nil => exact Connects.refl h hHeld hNodup
  | cons pud puds ih =>
    replace hHeld : ∀ x ∈ heldDevs puds, (bus.devs x).kind = .priv :=
      fun x hx => hHeld x (mem_heldDevs_cons hx)
    replace hNodup : (heldDevs puds).Nodup :=
      hNodup.sublist ((sublist_cons_self pud puds).filterMap _)
    rw [privDevForAll_cons]
    rcases privDevConnect_spec env i pud bus with ⟨hDev, hBus⟩ | ⟨hDev, hOpens⟩
    · rw [hBus]
      split
      · exact (Connects.refl h hHeld hNodup).cons_none hDev
      · exact (ih (i + 1) h hHeld hNodup).cons_none hDev
    · have hHeld' : ∀ x ∈ heldDevs puds, ((privDevConnect env i pud bus).2.2.devs x).kind = .priv :=
        fun x hx => h.priv_of_opens hOpens (hHeld x hx)
      split
      · exact .cons_some h hOpens hHeld (.refl (h.of_opens hOpens) hHeld' hNodup) hDev
      · exact .cons_some h hOpens hHeld (ih (i + 1) (h.of_opens hOpens) hHeld' hNodup) hDev

end Connect

section Packets

variable {st : PrivInput} {h : Nat}

theorem heldDevs_set {puds : List PrivUsb} {i : Nat} {pud pud' : PrivUsb}
    (hAt : puds[i]? = some pud) (hDev : pud'.dev = pud.dev) :
    heldDevs (puds.set i pud') = heldDevs puds := by
  induction puds generalizing i with
  | nil => cases hAt
  | cons head puds ih =>
    cases i with
    | zero =>
      cases hAt
      rw [set_cons_zero, heldDevs, heldDevs, filterMap_cons, filterMap_cons, hDev]
    | succ i =>
      rw [List.getElem?_cons_succ] at hAt
      have hRest := ih hAt
      unfold heldDevs at hRest ⊢
      rw [set_cons_succ, filterMap_cons, filterMap_cons, hRest]

theorem handlePacket_frame (st : PrivInput) (h : Nat) (pkt : KbdPacket) :
    (st.handlePacket h pkt).2.bus = st.bus ∧
      heldDevs (st.handlePacket h pkt).2.devices = heldDevs st.devices := by
  unfold PrivInput.handlePacket
  split
  · split
    · exact ⟨rfl, rfl⟩
    · split
      · rename_i pud hAt
        split
        · exact ⟨rfl, heldDevs_set hAt rfl⟩
        · exact ⟨rfl, rfl⟩
      · exact ⟨rfl, rfl⟩
  · exact ⟨rfl, rfl⟩

theorem use_of_open {bus : Bus} (hOpen : (bus.devs h).closes = 0) : bus.use h = bus := by
  unfold Bus.use
  rw [hOpen]
  simp

theorem asyncComplete_open (pkt : KbdPacket) (pkts : List KbdPacket)
    (hOpen : (st.bus.devs h).closes = 0) :
    st.asyncComplete h (pkt :: pkts) =
      if (st.handlePacket h pkt).2.exited then (false, (st.handlePacket h pkt).2)
      else if (st.handlePacket h pkt).1 then
        if (st.handlePacket h pkt).2.sdlGrabEnd.exited then
          (true, (st.handlePacket h pkt).2.sdlGrabEnd)
        else (true, ((st.handlePacket h pkt).2.sdlGrabEnd.asyncComplete h pkts).2)
      else (st.handlePacket h pkt).2.asyncComplete h pkts := by
  rw [PrivInput.asyncComplete, use_of_open hOpen]
  exact if_neg (not_not.mpr hOpen)

theorem asyncComplete_closed (pkts : List KbdPacket) (hClosed : (st.bus.devs h).closes ≠ 0) :
    (st.asyncComplete h pkts).2.bus.misused = true := by
  have hUse : (st.bus.use h).misused = true := by
    show (st.bus.misused || (st.bus.devs h).closes != 0) = true
    rw [Bool.or_eq_true, bne_iff_ne]
    exact .inr hClosed
  cases pkts with
  | nil => exact hUse
  | cons pkt pkts =>
    have hTurn : st.asyncComplete h (pkt :: pkts) = (false, { st with bus := st.bus.use h }) :=
      if_pos hClosed
    rw [hTurn]
    exact hUse

theorem asyncComplete_quiet (pkts : List KbdPacket) (hOpen : (st.bus.devs h).closes = 0)
    (hQuiet : (st.asyncComplete h pkts).1 = false) :
    (st.asyncComplete h pkts).2.bus = st.bus ∧
      heldDevs (st.asyncComplete h pkts).2.devices = heldDevs st.devices := by
  induction pkts generalizing st with
  | nil => exact ⟨use_of_open hOpen, rfl⟩
  | cons pkt pkts ih =>
    obtain ⟨hBus, hHeld⟩ := handlePacket_frame st h pkt
    rw [asyncComplete_open pkt pkts hOpen] at hQuiet ⊢
    by_cases hExit : (st.handlePacket h pkt).2.exited = true
    · rw [if_pos hExit]
      exact ⟨hBus, hHeld⟩
    · rw [if_neg hExit] at hQuiet ⊢
      by_cases hGrab : (st.handlePacket h pkt).1 = true
      · rw [if_pos hGrab] at hQuiet
        split at hQuiet <;> cases hQuiet
      · rw [if_neg hGrab] at hQuiet ⊢
        obtain ⟨hBus', hHeld'⟩ := @ih (st.handlePacket h pkt).2 (hBus ▸ hOpen) hQuiet
        exact ⟨hBus'.trans hBus, hHeld'.trans hHeld⟩

theorem asyncComplete_of_none (pkts : List KbdPacket) (hOpen : (st.bus.devs h).closes = 0)
    (hNone : (st.bus.devs h).handler = .none) : (st.asyncComplete h pkts).1 = false := by
  induction pkts with
  | nil => rfl
  | cons pkt pkts ih =>
    have hHandle : st.handlePacket h pkt = (false, st) := by
      unfold PrivInput.handlePacket
      rw [hNone]
    rw [asyncComplete_open pkt pkts hOpen, hHandle]
    split
    · rfl
    · exact ih

/-- **A device polled** is used after it is closed, or stays open. -/
theorem bad_of_reap (pkts : List KbdPacket) (hKind : (st.bus.devs h).kind = .priv)
    (hHeld : ∀ x ∈ heldDevs st.devices, (st.bus.devs x).kind = .priv) :
    (st.asyncComplete h pkts).2.bus.Bad := by
  induction pkts generalizing st with
  | nil =>
    by_cases hOpen : (st.bus.devs h).closes = 0
    · exact .inr ⟨h, hKind, hOpen⟩
    · exact .inl (asyncComplete_closed [] hOpen)
  | cons pkt pkts ih =>
    by_cases hOpen : (st.bus.devs h).closes = 0
    · obtain ⟨hBus, hDevs⟩ := handlePacket_frame st h pkt
      rw [asyncComplete_open pkt pkts hOpen]
      generalize (st.handlePacket h pkt).2 = st' at hBus hDevs ⊢
      rw [← hBus] at hKind hOpen hHeld
      rw [← hDevs] at hHeld
      by_cases hExit : st'.exited = true
      · rw [if_pos hExit]
        exact .inr ⟨h, hKind, hOpen⟩
      · rw [if_neg hExit]
        split
        · obtain ⟨hLoses, hSame⟩ := loses_disconnect 0 st'.devices st'.bus
          split
          · rename_i hFailed
            refine bad_of_failed hHeld ?_
            have hOr : (st'.exited ||
                decide ((privDisconnectAll st'.devices st'.bus).1 < 0)) = true := hFailed
            rw [Bool.eq_false_iff.mpr hExit, Bool.false_or, decide_eq_true_eq] at hOr
            exact hOr
          · refine @ih st'.sdlGrabEnd ((hLoses.kind h).trans hKind) fun x hx => ?_
            refine (hLoses.kind x).trans (hHeld x ?_)
            rw [← hSame]
            exact hx
        · exact ih hKind hHeld
    · exact .inl (asyncComplete_closed (pkt :: pkts) hOpen)

end Packets

section Run

variable {st : PrivInput}

variable {op : InputOp}

theorem not_bad_of_closed {bus : Bus} (hUnused : bus.misused = false)
    (hClosed : ∀ x, (bus.devs x).kind = .priv → (bus.devs x).closes = 1) : ¬ bus.Bad := by
  rintro (hMis | ⟨x, hKind, hOpen⟩)
  · rw [hUnused] at hMis
    cases hMis
  · rw [hClosed x hKind] at hOpen
    cases hOpen

theorem InputOp.Good.of_inv (h : InputInv (op.run st))
    (hQuiet : op.disconnects st = false) : op.Good st := by
  refine ⟨h.bus.unused, h.bus.atMostOnce, fun hYes => ?_, fun hOp => ?_⟩
  · rw [hQuiet] at hYes
    cases hYes
  · subst hOp
    cases hQuiet

theorem InputInv.connectAll (h : InputInv st) (env : Nat → ConnectEnv) :
    InputInv ((InputOp.connectAll env).run st) := by
  have hAll := connects_loop env 0 h.bus h.held h.nodup
  exact ⟨hAll.inv, hAll.held, hAll.nodup⟩

theorem InputInv.reap (h : InputInv st) {x : Nat} {pkts : List KbdPacket}
    (hOpen : (st.bus.devs x).closes = 0) (hQuiet : (st.asyncComplete x pkts).1 = false) :
    InputInv ((InputOp.reap x pkts).run st) := by
  obtain ⟨hBus, hHeld⟩ := asyncComplete_quiet pkts hOpen hQuiet
  refine ⟨?_, ?_, ?_⟩
  · show BusInv (st.asyncComplete x pkts).2.bus
    rw [hBus]
    exact h.bus
  · show ∀ y ∈ heldDevs (st.asyncComplete x pkts).2.devices,
      ((st.asyncComplete x pkts).2.bus.devs y).kind = .priv
    rw [hBus, hHeld]
    exact h.held
  · show (heldDevs (st.asyncComplete x pkts).2.devices).Nodup
    rw [hHeld]
    exact h.nodup

theorem InputInv.good_disconnectAll (h : InputInv st) (hOrderly : InputOp.disconnectAll.Orderly st) :
    InputOp.disconnectAll.Good st := by
  obtain ⟨hKept, hFound⟩ := hOrderly
  obtain ⟨hMis, hCloses, hIdle⟩ := disconnect_found 0 hFound h.nodup
  have hLoses := (loses_disconnect 0 st.devices st.bus).1
  have hOnce : ∀ x, ((InputOp.disconnectAll.run st).bus.devs x).kind = .priv →
      ((InputOp.disconnectAll.run st).bus.devs x).closes = 1 := by
    intro x hx
    have hKind : (st.bus.devs x).kind = .priv := (hLoses.kind x).symm.trans hx
    refine (hCloses x).trans ?_
    by_cases hIn : x ∈ heldDevs st.devices
    · exact if_pos hIn
    · rw [if_neg hIn]
      have hLe := h.bus.atMostOnce x hKind
      have hNe : (st.bus.devs x).closes ≠ 0 := fun hOpen => hIn (hKept x hKind hOpen)
      omega
  exact ⟨hMis.trans h.bus.unused, fun x hx => Nat.le_of_eq (hOnce x hx), fun _ => hOnce,
    fun _ => hIdle⟩

theorem InputInv.disconnectAll (h : InputInv st) (hGood : InputOp.disconnectAll.Good st) :
    InputInv (InputOp.disconnectAll.run st) := by
  obtain ⟨hLoses, hHeld⟩ := loses_disconnect 0 st.devices st.bus
  have hKind : ∀ x, ((InputOp.disconnectAll.run st).bus.devs x).kind = (st.bus.devs x).kind :=
    hLoses.kind
  refine ⟨⟨fun x hx => ?_, fun x hx => ?_, hGood.unused, hGood.atMostOnce⟩, fun x hx => ?_, ?_⟩
  · rw [hKind] at hx
    exact Nat.lt_of_lt_of_eq (h.bus.below x hx) hLoses.next.symm
  · rw [hKind]
    exact h.bus.handled x (hLoses.handler x hx)
  · rw [hKind]
    refine h.held x ?_
    rw [← hHeld]
    exact hx
  · show (heldDevs (privDisconnectAll st.devices st.bus).2.1).Nodup
    exact hHeld ▸ h.nodup

/-- **One step**. -/
theorem InputInv.step (h : InputInv st) (hEnabled : op.Enabled st)
    (hOrderly : op.Orderly st) : op.Good st ∧ InputInv (op.run st) := by
  cases op with
  | connectAll env => exact ⟨.of_inv (h.connectAll env) rfl, h.connectAll env⟩
  | disconnectAll =>
    have hGood := h.good_disconnectAll hOrderly
    exact ⟨hGood, h.disconnectAll hGood⟩
  | reap x pkts =>
    have hInv := h.reap hEnabled.2 hOrderly
    exact ⟨.of_inv hInv hOrderly, hInv⟩
  | attach x =>
    have hInv : InputInv ((InputOp.attach x).run st) := ⟨⟨h.bus.1, h.bus.2, h.bus.3, h.bus.4⟩,
      h.held, h.nodup⟩
    exact ⟨.of_inv hInv rfl, hInv⟩
  | detach x =>
    have hInv : InputInv ((InputOp.detach x).run st) := ⟨⟨h.bus.1, h.bus.2, h.bus.3, h.bus.4⟩,
      h.held, h.nodup⟩
    exact ⟨.of_inv hInv rfl, hInv⟩
  | setAddr x addr =>
    have hDev : ∀ y, (((InputOp.setAddr x addr).run st).bus.devs y).kind = (st.bus.devs y).kind ∧
        (((InputOp.setAddr x addr).run st).bus.devs y).handler = (st.bus.devs y).handler ∧
        (((InputOp.setAddr x addr).run st).bus.devs y).closes = (st.bus.devs y).closes := by
      intro y
      by_cases hy : y = x
      · subst hy
        simp [InputOp.run, Bus.set]
      · simp [InputOp.run, Bus.set, hy]
    have hInv : InputInv ((InputOp.setAddr x addr).run st) := by
      refine ⟨⟨fun y hy => h.bus.below y ((hDev y).1 ▸ hy), fun y hy => ?_, h.bus.unused,
        fun y hy => ?_⟩, fun y hy => ?_, h.nodup⟩
      · rw [(hDev y).1]
        exact h.bus.handled y ((hDev y).2.1 ▸ hy)
      · rw [(hDev y).2.2]
        exact h.bus.atMostOnce y ((hDev y).1 ▸ hy)
      · rw [(hDev y).1]
        exact h.held y hy
    exact ⟨.of_inv hInv rfl, hInv⟩

theorem InputInv.orderly (h : InputInv st) (hEnabled : op.Enabled st)
    (hGood : op.Good st) : op.Orderly st := by
  cases op with
  | connectAll env => trivial
  | disconnectAll =>
    have hNot : ¬ (privDisconnectAll st.devices st.bus).2.2.Bad :=
      not_bad_of_closed hGood.unused (hGood.closed rfl)
    refine ⟨fun x hKind hOpen => ?_, found_of_not_bad hNot h.nodup h.held⟩
    by_contra hUnheld
    exact hNot (bad_of_unheld 0 hKind hOpen hUnheld h.nodup h.held)
  | reap x pkts =>
    refine Bool.eq_false_iff.mpr fun hGrab => ?_
    have hHandler : (st.bus.devs x).handler ≠ .none := by
      intro hNone
      rw [asyncComplete_of_none pkts hEnabled.2 hNone] at hGrab
      cases hGrab
    have hBad := bad_of_reap pkts (h.bus.handled x hHandler) h.held
    exact not_bad_of_closed hGood.unused (hGood.closed hGrab) hBad
  | attach x => trivial
  | detach x => trivial
  | setAddr x addr => trivial

structure PrivInput.Fresh (st : PrivInput) : Prop where
  unconnected : ∀ pud ∈ st.devices, pud.dev = none
  other : ∀ h, (st.bus.devs h).kind ≠ .priv
  handler : ∀ h, (st.bus.devs h).handler = .none
  unused : st.bus.misused = false

/-- **The life of private devices**, in any run that begins with nothing connected. -/
theorem lifecycle_iff {tr : Trace PrivInput InputOp} (hFresh : st.Fresh)
    (hTr : IsTrace InputOp.Step st tr) :
    EachStep (fun st op => op.Good st) st tr ↔ EachStep (fun st op => op.Orderly st) st tr := by
  have hNil : heldDevs st.devices = [] := List.filterMap_eq_nil_iff.mpr hFresh.unconnected
  have hInv : InputInv st := by
    refine ⟨⟨fun x hx => absurd hx (hFresh.other x), fun x hx => absurd (hFresh.handler x) hx,
      hFresh.unused, fun x hx => absurd hx (hFresh.other x)⟩, fun x hx => ?_, ?_⟩
    · rw [hNil] at hx
      cases hx
    · rw [hNil]
      exact nodup_nil
  refine eachStep_iff_of_inv (fun st op st' (h : InputInv st) hStep hOrderly => ?_)
    (fun st op st' h hStep hGood => h.orderly hStep.1 hGood) hInv hTr
  obtain ⟨hEnabled, rfl⟩ := hStep
  exact h.step hEnabled hOrderly

end Run

def oneKeyboard : PrivInput :=
  ⟨[⟨true, true, true, none, none⟩], ⟨fun _ => ⟨.host, 0, .none, 0⟩, [], 0, false⟩, false⟩

def plugged : InputOp := .connectAll fun _ => ⟨true, true, true⟩

theorem fresh_oneKeyboard : oneKeyboard.Fresh :=
  ⟨by decide, fun _ => (by decide : DevKind.host ≠ .priv), fun _ => rfl, rfl⟩

theorem lifecycle_sample :
    ∃ tr : Trace PrivInput InputOp, tr.map Prod.fst = [plugged, .disconnectAll, plugged] ∧
      EachStep (fun st op => op.Good st) oneKeyboard tr ∧
      ((lastState oneKeyboard tr).bus.devs 0).closes = 1 ∧
      ((lastState oneKeyboard tr).bus.devs 1).closes = 0 := by
  have hTr : IsTrace InputOp.Step oneKeyboard [(plugged, _), (.disconnectAll, _), (plugged, _)] :=
    ⟨⟨rfl, rfl⟩, ⟨rfl, rfl⟩, ⟨rfl, rfl⟩, trivial⟩
  refine ⟨_, rfl, (lifecycle_iff fresh_oneKeyboard hTr).mpr ⟨trivial, ⟨fun h hKind _ => ?_, ?_⟩,
    trivial, trivial⟩, by decide, by decide⟩
  · cases h with
    | zero => decide
    | succ h => exact absurd (show DevKind.host = .priv from hKind) (by decide)
  · refine ⟨fun h hDev => ?_, fun _ => trivial⟩
    cases hDev
    decide

/-- A second disconnect goes to the device that the first has closed; a keyboard with ctrl and
alt pressed is reaped from after it is closed; and of two devices that two connects have
opened, one is left open. -/
theorem lifecycle_misuse :
    (∃ tr : Trace PrivInput InputOp,
      tr.map Prod.fst = [plugged, .disconnectAll, .disconnectAll] ∧
      IsTrace InputOp.Step oneKeyboard tr ∧
      (lastState oneKeyboard tr).bus.misused = true ∧
      ¬ EachStep (fun st op => op.Good st) oneKeyboard tr) ∧
    (∃ tr : Trace PrivInput InputOp, tr.map Prod.fst = [plugged, .reap 0 [⟨8, 5⟩]] ∧
      IsTrace InputOp.Step oneKeyboard tr ∧
      (lastState oneKeyboard tr).bus.misused = true ∧
      ¬ EachStep (fun st op => op.Good st) oneKeyboard tr) ∧
    (∃ tr : Trace PrivInput InputOp, tr.map Prod.fst = [plugged, plugged, .disconnectAll] ∧
      IsTrace InputOp.Step oneKeyboard tr ∧
      ((lastState oneKeyboard tr).bus.devs 0).closes = 1 ∧
      ((lastState oneKeyboard tr).bus.devs 1).closes = 0 ∧
      ¬ EachStep (fun st op => op.Good st) oneKeyboard tr) := by
  refine ⟨⟨[(_, _), (_, _), (_, _)], rfl, ⟨⟨rfl, rfl⟩, ⟨rfl, rfl⟩, ⟨rfl, rfl⟩, trivial⟩, by decide,
      fun hAll => ?_⟩,
    ⟨[(_, _), (_, _)], rfl, ⟨⟨rfl, rfl⟩, ⟨⟨rfl, rfl⟩, rfl⟩, trivial⟩, by decide, fun hAll => ?_⟩,
    ⟨[(_, _), (_, _), (_, _)], rfl, ⟨⟨rfl, rfl⟩, ⟨rfl, rfl⟩, ⟨rfl, rfl⟩, trivial⟩, by decide,
      by decide, fun hAll => ?_⟩⟩
  · exact absurd hAll.2.2.1.unused (by decide)
  · exact absurd hAll.2.1.unused (by decide)
  · exact absurd (hAll.2.2.1.closed rfl 1 (by decide)) (by decide)

end Lacuna.Usb.Lifecycle
