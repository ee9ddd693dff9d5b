import Mathlib.Data.List.Forall2
import Lacuna.Crypt.Registry

/-!
# Completion of URBs on a private endpoint

`drivers/priv/usb.c`. The host controller passes a completed URB to
`priv_schedule_giveback_urb`. If the endpoint names an activated context, the
URB is left in the work item of the endpoint, and a worker encrypts it and
gives it back later; otherwise it is given back at once. In between, contexts
come and go as the registry lets them.

An endpoint has one work item, and each call of `schedule_work` is one run of
it to come. A URB left while there is one takes the place of the URB that was
waiting.
-/

namespace Lacuna.Usb

open Lacuna.Lib Lacuna.Crypt List

/-! ## Transfer buffers -/

/-- A context through time: its address, and how many contexts had been made there. -/
structure CtxName where
  addr : Nat
  made : Nat
  deriving DecidableEq

/-- What a transfer buffer holds: the data of the device, their encryption by a
context, zeroes, or something else. -/
inductive Content where
  | data
  | encrypted (name : CtxName) (cctx : PrivCryptCtx)
  | zeroes
  | other
  deriving DecidableEq

def Content.Means (blk : Blkcipher) (data bytes : List UInt8) : Content → Prop
  | .data => bytes = data
  | .encrypted _ cctx => 0 ≤ (privCrypt blk cctx data).1 ∧ bytes = (privCrypt blk cctx data).2.1
  | .zeroes => bytes = List.replicate data.length 0
  | .other => True

/-- The first `actual_length` bytes of a transfer buffer, with what the device
sent. -/
structure TransferBuffer (blk : Blkcipher) where
  data : List UInt8
  bytes : List UInt8
  content : Content
  means : content.Means blk data bytes

namespace TransferBuffer

variable {blk : Blkcipher}

def fill (data : List UInt8) : TransferBuffer blk where
  data := data
  bytes := data
  content := .data
  means := rfl

/-- `memset(urb->transfer_buffer, 0, urb->actual_length)`. -/
def erase (buf : TransferBuffer blk) : TransferBuffer blk where
  data := buf.data
  bytes := List.replicate buf.data.length 0
  content := .zeroes
  means := rfl

/-- Only the encryption of the data by a context that has not been freed is recorded as such. -/
def encrypt (buf : TransferBuffer blk) (name : CtxName) (allocated : Bool) (cctx : PrivCryptCtx)
    (hOk : 0 ≤ (privCrypt blk cctx buf.bytes).1) : TransferBuffer blk :=
  if h : buf.content = .data ∧ allocated = true then
    { data := buf.data
      bytes := (privCrypt blk cctx buf.bytes).2.1
      content := .encrypted name cctx
      means := by
        have hBytes : buf.bytes = buf.data := by
          have hMeans := buf.means
          rwa [h.1] at hMeans
        rw [hBytes] at hOk ⊢
        exact ⟨hOk, rfl⟩ }
  else
    { data := buf.data
      bytes := (privCrypt blk cctx buf.bytes).2.1
      content := .other
      means := trivial }

end TransferBuffer

/-- With the context named when the work was scheduled. -/
structure UrbEncryptWork where
  hcd : Nat
  urb : Nat
  status : Int
  under : CtxName
  deriving DecidableEq

structure Completion where
  hcd : Nat
  urb : Nat
  status : Int
  deriving DecidableEq

/-- A call of `usb_hcd_giveback_urb`, with the context the URB was to be
encrypted under, if any. -/
structure Giveback (blk : Blkcipher) where
  hcd : Nat
  urb : Nat
  status : Int
  under : Option CtxName
  buffer : TransferBuffer blk

structure Endpoint (blk : Blkcipher) where
  reg : Registry
  /-- history: how many contexts have been made at each address -/
  made : Nat → Nat
  /-- `transfer_buffer` of every URB of the endpoint -/
  transferBuffer : Nat → TransferBuffer blk
  work : UrbEncryptWork
  /-- runs of the work item to come -/
  scheduled : Nat
  /-- history: URBs passed to `priv_schedule_giveback_urb`, last first -/
  passed : List Completion
  /-- history: URBs given back, last first -/
  given : List (Giveback blk)

section Model

variable {blk : Blkcipher}

def Endpoint.name (s : Endpoint blk) (c : Nat) : CtxName := { addr := c, made := s.made c }

def usbHcdGivebackUrb (s : Endpoint blk) (hcd urb : Nat) (status : Int)
    (under : Option CtxName) : Endpoint blk :=
  { s with
    given :=
      { hcd := hcd, urb := urb, status := status, under := under,
        buffer := s.transferBuffer urb } :: s.given }

def Endpoint.setBuffer (s : Endpoint blk) (urb : Nat) (buf : TransferBuffer blk) : Endpoint blk :=
  { s with transferBuffer := Function.update s.transferBuffer urb buf }

/-- The device of the endpoint, if any, is named by its reference. -/
def privUsbUrbEnc (epDev : Option Nat) (s : Endpoint blk) (urb : Nat) : Int × Endpoint blk :=
  match epDev with
  | none => (-1, s)
  | some ref =>
    match s.reg.refs ref with
    | none => (0, s)
    | some c =>
      let cctx := s.reg.heap c
      let buf := s.transferBuffer urb
      if ¬ cctx.activated then (-EPIPE, s.setBuffer urb buf.erase)
      else
        let s := { s with reg := s.reg.modifyCtx c fun _ => (privCrypt blk cctx buf.bytes).2.2 }
        if h : (privCrypt blk cctx buf.bytes).1 < 0 then (-EPIPE, s.setBuffer urb buf.erase)
        else
          (0, s.setBuffer urb
            (buf.encrypt (s.name c) (s.reg.allocated c) cctx (Int.not_lt.mp h)))

def encryptAndGivebackUrb (epDev : Option Nat) (s : Endpoint blk) : Endpoint blk :=
  let (rc, s) := privUsbUrbEnc epDev { s with scheduled := s.scheduled - 1 } s.work.urb
  usbHcdGivebackUrb s s.work.hcd s.work.urb (if rc < 0 then rc else s.work.status)
    (some s.work.under)

/-- The context that the endpoint names, if it is activated and the URB completed without an
error. -/
def encryptsUnder (epDev : Option Nat) (s : Endpoint blk) (status : Int) : Option Nat :=
  if 0 ≤ status then
    (epDev.bind s.reg.refs).filter fun c => (s.reg.heap c).activated
  else none

def privScheduleGivebackUrb (epDev : Option Nat) (s : Endpoint blk) (hcd urb : Nat) (status : Int)
    (data : List UInt8) : Endpoint blk :=
  let s := s.setBuffer urb (.fill data)
  let s := { s with passed := { hcd := hcd, urb := urb, status := status } :: s.passed }
  match encryptsUnder epDev s status with
  | some c =>
    { s with
      work := { hcd := hcd, urb := urb, status := status, under := s.name c }
      scheduled := s.scheduled + 1 }
  | none => usbHcdGivebackUrb s hcd urb status none

inductive UsbOp where
  | complete (hcd urb : Nat) (status : Int) (data : List UInt8)
  | work
  | setActivated (c : Nat) (activated : Bool)
  | reg (op : RegOp)

def countMade (made : Nat → Nat) : RegOp → Nat → Nat
  | .newCtx c _ _ _ => Function.update made c (made c + 1)
  | _ => made

/-- How often a URB has been passed in, and how often given back. -/
def timesPassed (s : Endpoint blk) (urb : Nat) : Nat := (s.passed.map Completion.urb).count urb

def timesGiven (s : Endpoint blk) (urb : Nat) : Nat := (s.given.map Giveback.urb).count urb

/-- A URB completes only if it has been given back whenever it was passed in before; a context
is activated through its open file. -/
inductive UsbStep (epDev : Option Nat) : Endpoint blk → UsbOp → Endpoint blk → Prop
  | complete (s hcd urb status data) (hBack : timesPassed s urb ≤ timesGiven s urb) :
      UsbStep epDev s (.complete hcd urb status data)
        (privScheduleGivebackUrb epDev s hcd urb status data)
  | work (s) (hScheduled : s.scheduled ≠ 0) :
      UsbStep epDev s .work (encryptAndGivebackUrb epDev s)
  | setActivated (s c activated) (hOpen : s.reg.allocated c = true) :
      UsbStep epDev s (.setActivated c activated)
        { s with reg := s.reg.modifyCtx c fun k => privSetActivated k activated }
  | reg (s op reg') (hReg : RegStep s.reg op reg') :
      UsbStep epDev s (.reg op) { s with reg := reg', made := countMade s.made op }

/-! ## Accounting -/

def UrbEncryptWork.completion (w : UrbEncryptWork) : Completion :=
  { hcd := w.hcd, urb := w.urb, status := w.status }

def outstanding (s : Endpoint blk) : List Completion :=
  List.replicate s.scheduled s.work.completion

/-- A URB reaches its submitter: through its own controller, with its own status
or the error of the encryption. -/
structure Delivers (c : Completion) (g : Giveback blk) : Prop where
  hcd : g.hcd = c.hcd
  urb : g.urb = c.urb
  status : g.status = c.status ∨ g.status = -EPIPE

/-- Every URB passed in has been given back, or is what one run to come will give back; and
nothing else. -/
def Accounted (s : Endpoint blk) : Prop :=
  ∃ delivered, s.passed.Perm (delivered ++ outstanding s) ∧
    List.Forall₂ Delivers delivered s.given

/-- A URB is left for the worker only if no run is to come. -/
def OneAtATime (epDev : Option Nat) (s : Endpoint blk) : UsbOp → Prop
  | .complete _ _ status _ => encryptsUnder epDev s status = none ∨ s.scheduled = 0
  | _ => True

/-- What holds as long as URBs are left for the worker one at a time. -/
structure UsbInv (epDev : Option Nat) (s : Endpoint blk) : Prop where
  accounted : Accounted s
  one : s.scheduled ≤ 1
  present : s.scheduled ≠ 0 → epDev.isSome = true

theorem urbs_of_delivers {delivered : List Completion} {given : List (Giveback blk)}
    (h : List.Forall₂ Delivers delivered given) :
    delivered.map Completion.urb = given.map Giveback.urb := by
  induction h with
  | nil => rfl
  | cons hHead _ ih => rw [map_cons, map_cons, hHead.urb, ih]

theorem Accounted.timesPassed_eq {s : Endpoint blk} (h : Accounted s) (urb : Nat) :
    timesPassed s urb = timesGiven s urb + ((outstanding s).map Completion.urb).count urb := by
  obtain ⟨delivered, hPerm, hDelivers⟩ := h
  have hCount := (hPerm.map Completion.urb).count_eq urb
  rw [map_append, count_append, urbs_of_delivers hDelivers] at hCount
  exact hCount

theorem outstanding_of_idle {s : Endpoint blk} (h : s.scheduled = 0) : outstanding s = [] := by
  rw [outstanding, h, replicate_zero]

/-! ## What the functions do to the accounts -/

theorem privScheduleGivebackUrb_now {epDev : Option Nat} {s : Endpoint blk} {status : Int}
    (hNone : encryptsUnder epDev s status = none) (hcd urb : Nat) (data : List UInt8) :
    privScheduleGivebackUrb epDev s hcd urb status data =
      usbHcdGivebackUrb { s.setBuffer urb (.fill data) with
        passed := { hcd := hcd, urb := urb, status := status } :: s.passed }
        hcd urb status none := by
  unfold privScheduleGivebackUrb
  simp only [encryptsUnder, Endpoint.setBuffer] at hNone ⊢
  rw [hNone]

theorem privScheduleGivebackUrb_later {epDev : Option Nat} {s : Endpoint blk} {status : Int}
    {c : Nat} (hSome : encryptsUnder epDev s status = some c) (hcd urb : Nat)
    (data : List UInt8) :
    privScheduleGivebackUrb epDev s hcd urb status data = { s.setBuffer urb (.fill data) with
        passed := { hcd := hcd, urb := urb, status := status } :: s.passed
        work := { hcd := hcd, urb := urb, status := status, under := s.name c }
        scheduled := s.scheduled + 1 } := by
  unfold privScheduleGivebackUrb
  simp only [encryptsUnder, Endpoint.setBuffer, Endpoint.name] at hSome ⊢
  rw [hSome]

theorem encryptsUnder_present {epDev : Option Nat} {s : Endpoint blk} {status : Int} {c : Nat}
    (h : encryptsUnder epDev s status = some c) : epDev.isSome = true := by
  cases epDev with
  | some ref => rfl
  | none => simp [encryptsUnder] at h

/-- Two states of an endpoint that differ in contexts and buffers only. -/
structure SameQueue (s t : Endpoint blk) : Prop where
  work : t.work = s.work
  scheduled : t.scheduled = s.scheduled
  passed : t.passed = s.passed
  given : t.given = s.given

theorem privUsbUrbEnc_queue (ref : Nat) (s : Endpoint blk) (urb : Nat) :
    SameQueue s (privUsbUrbEnc (some ref) s urb).2 ∧
      ((privUsbUrbEnc (some ref) s urb).1 = 0 ∨ (privUsbUrbEnc (some ref) s urb).1 = -EPIPE) := by
  unfold privUsbUrbEnc
  dsimp only
  split
  · exact ⟨⟨rfl, rfl, rfl, rfl⟩, .inl rfl⟩
  · split
    · exact ⟨⟨rfl, rfl, rfl, rfl⟩, .inr rfl⟩
    · split
      · exact ⟨⟨rfl, rfl, rfl, rfl⟩, .inr rfl⟩
      · exact ⟨⟨rfl, rfl, rfl, rfl⟩, .inl rfl⟩

theorem encryptAndGivebackUrb_queue (ref : Nat) (s : Endpoint blk) :
    let t := encryptAndGivebackUrb (some ref) s
    t.work = s.work ∧ t.scheduled = s.scheduled - 1 ∧ t.passed = s.passed ∧
      ∃ g, t.given = g :: s.given ∧ Delivers s.work.completion g := by
  obtain ⟨hSame, hRc⟩ := privUsbUrbEnc_queue ref { s with scheduled := s.scheduled - 1 } s.work.urb
  unfold encryptAndGivebackUrb
  cases hEnc : privUsbUrbEnc (some ref) { s with scheduled := s.scheduled - 1 } s.work.urb with
  | mk rc t =>
  rw [hEnc] at hSame hRc
  refine ⟨hSame.work, hSame.scheduled, hSame.passed, _, congrArg _ hSame.given, ?_⟩
  refine ⟨congrArg UrbEncryptWork.hcd hSame.work, congrArg UrbEncryptWork.urb hSame.work, ?_⟩
  rcases hRc with rfl | rfl
  · exact .inl (congrArg UrbEncryptWork.status hSame.work)
  · exact .inr rfl

theorem complete_now_inv {epDev : Option Nat} {s : Endpoint blk} (h : UsbInv epDev s)
    {status : Int} (hNone : encryptsUnder epDev s status = none) (hcd urb : Nat)
    (data : List UInt8) :
    UsbInv epDev (privScheduleGivebackUrb epDev s hcd urb status data) := by
  rw [privScheduleGivebackUrb_now hNone]
  obtain ⟨delivered, hPerm, hAll⟩ := h.accounted
  refine ⟨⟨_ :: delivered, hPerm.cons _, .cons ⟨rfl, rfl, .inl rfl⟩ hAll⟩, h.one, h.present⟩

theorem complete_later_inv {epDev : Option Nat} {s : Endpoint blk} (h : UsbInv epDev s)
    {status : Int} {c : Nat} (hSome : encryptsUnder epDev s status = some c)
    (hIdle : s.scheduled = 0) (hcd urb : Nat) (data : List UInt8) :
    UsbInv epDev (privScheduleGivebackUrb epDev s hcd urb status data) := by
  rw [privScheduleGivebackUrb_later hSome]
  obtain ⟨delivered, hPerm, hAll⟩ := h.accounted
  rw [outstanding_of_idle hIdle, append_nil] at hPerm
  refine ⟨⟨delivered, ?_, hAll⟩, ?_, fun _ => encryptsUnder_present hSome⟩
  · simp only [outstanding, hIdle]
    exact (hPerm.cons _).trans (perm_append_singleton _ _).symm
  · simp only [hIdle]
    omega

/-- A URB left while another one waits takes its place: the other one is not
accounted for any more. -/
theorem complete_busy_not_accounted {epDev : Option Nat} {s : Endpoint blk} (h : UsbInv epDev s)
    {status : Int} {c : Nat} (hSome : encryptsUnder epDev s status = some c)
    (hBusy : s.scheduled ≠ 0) (hcd : Nat) {urb : Nat} (data : List UInt8)
    (hBack : timesPassed s urb ≤ timesGiven s urb) :
    ¬ Accounted (privScheduleGivebackUrb epDev s hcd urb status data) := by
  intro hAccounted
  have hOne : s.scheduled = 1 := by
    have hLe := h.one
    omega
  have hOut : ((outstanding s).map Completion.urb).count s.work.urb = 1 := by
    simp [outstanding, hOne, UrbEncryptWork.completion]
  -- the URB that waits is not the one that completes: it has not been given back
  have hWaits := h.accounted.timesPassed_eq s.work.urb
  have hNe : urb ≠ s.work.urb := by
    rintro rfl
    omega
  have hLost := hAccounted.timesPassed_eq s.work.urb
  rw [privScheduleGivebackUrb_later hSome] at hLost
  simp [timesPassed, timesGiven, outstanding, UrbEncryptWork.completion, Endpoint.setBuffer,
    count_replicate, hNe] at hLost
  simp only [timesPassed, timesGiven] at hWaits
  omega

theorem work_inv {epDev : Option Nat} {s : Endpoint blk} (h : UsbInv epDev s)
    (hScheduled : s.scheduled ≠ 0) : UsbInv epDev (encryptAndGivebackUrb epDev s) := by
  obtain ⟨ref, rfl⟩ := Option.isSome_iff_exists.mp (h.present hScheduled)
  obtain ⟨_, hRuns, hPassed, g, hGiven, hDelivers⟩ := encryptAndGivebackUrb_queue ref s
  have hOne : s.scheduled = 1 := by
    have hLe := h.one
    omega
  rw [hOne] at hRuns
  obtain ⟨delivered, hPerm, hAll⟩ := h.accounted
  refine ⟨⟨s.work.completion :: delivered, ?_, ?_⟩, by omega, fun hNe => absurd hRuns hNe⟩
  · rw [hPassed, outstanding_of_idle hRuns, append_nil]
    refine hPerm.trans ?_
    rw [outstanding, hOne]
    exact perm_append_singleton _ _
  · rw [hGiven]
    exact .cons hDelivers hAll

/-- **One step**: the accounts are kept exactly if no URB is left for the worker
while one waits. -/
theorem UsbInv.step {epDev : Option Nat} {s t : Endpoint blk} {op : UsbOp} (h : UsbInv epDev s)
    (hStep : UsbStep epDev s op t) :
    (OneAtATime epDev s op → UsbInv epDev t) ∧ (Accounted t → OneAtATime epDev s op) := by
  cases hStep with
  | complete hcd urb status data hBack =>
    cases hEnc : encryptsUnder epDev s status with
    | none => exact ⟨fun _ => complete_now_inv h hEnc hcd urb data, fun _ => .inl hEnc⟩
    | some c =>
      by_cases hIdle : s.scheduled = 0
      · exact ⟨fun _ => complete_later_inv h hEnc hIdle hcd urb data, fun _ => .inr hIdle⟩
      · refine ⟨fun hOne => ?_, fun hAcc => ?_⟩
        · rcases hOne with hNone | hZero
          · rw [hEnc] at hNone
            cases hNone
          · exact absurd hZero hIdle
        · exact absurd hAcc (complete_busy_not_accounted h hEnc hIdle hcd data hBack)
  | work hScheduled => exact ⟨fun _ => work_inv h hScheduled, fun _ => trivial⟩
  | setActivated c activated hOpen =>
    exact ⟨fun _ => ⟨h.accounted, h.one, h.present⟩, fun _ => trivial⟩
  | reg op reg' hReg => exact ⟨fun _ => ⟨h.accounted, h.one, h.present⟩, fun _ => trivial⟩

structure FreshEndpoint (s : Endpoint blk) : Prop where
  scheduled : s.scheduled = 0
  passed : s.passed = []
  given : s.given = []

theorem FreshEndpoint.inv {s : Endpoint blk} (h : FreshEndpoint s) (epDev : Option Nat) :
    UsbInv epDev s where
  accounted := by
    refine ⟨[], ?_, ?_⟩
    · rw [h.passed, outstanding_of_idle h.scheduled]
      exact List.Perm.refl _
    · rw [h.given]
      exact .nil
  one := by rw [h.scheduled]; omega
  present := fun hNe => absurd h.scheduled hNe

end Model

def flipCipher : Blkcipher where
  encrypt _ ctr data := .ok (data.map (· ^^^ 0xff), ctr + 1)
  decrypt _ ctr data := .ok (data.map (· ^^^ 0xff), ctr + 1)

def idleEndpoint : Endpoint flipCipher where
  reg := emptyRegistry
  made := fun _ => 0
  transferBuffer := fun _ => .fill []
  work := { hcd := 0, urb := 0, status := 0, under := { addr := 0, made := 0 } }
  scheduled := 0
  passed := []
  given := []

end Lacuna.Usb
