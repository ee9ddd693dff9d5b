import Lacuna.Usb.Giveback

/-!
# Private input in the clear

Whether a URB is to be encrypted is decided when it completes; it is encrypted
later, by the context that the endpoint names then. So what a submitter sees
depends on what happened in between (`KeepsCtx`).
-/

namespace Lacuna.Usb

open Lacuna.Lib Lacuna.Crypt

variable {blk : Blkcipher}

variable {s : Endpoint blk}

/-- A buffer holds the encryption of its data by a context, or zeroes. -/
def TransferBuffer.Protected (name : CtxName) (buf : TransferBuffer blk) : Prop :=
  (∃ cctx, buf.content = .encrypted name cctx) ∨ buf.content = .zeroes

/-- Of the URBs given back, those that were to be encrypted hold their encryption by the context
named when they completed, or zeroes. -/
def Released (s : Endpoint blk) : Prop :=
  ∀ g ∈ s.given, ∀ name, g.under = some name → g.buffer.Protected name

/-- A run of the work item finds the context that it was scheduled under, and
the data not encrypted yet, unless encryption fails. If the endpoint names no
context, it finds no data. -/
def KeepsCtx (epDev : Option Nat) (s : Endpoint blk) : UsbOp → Prop
  | .work =>
    let buf := s.transferBuffer s.work.urb
    match epDev.bind s.reg.refs with
    | none => buf.content ≠ .data
    | some c =>
      (s.reg.heap c).activated = true → 0 ≤ (privCrypt blk (s.reg.heap c) buf.bytes).1 →
        buf.content = .data ∧ s.reg.allocated c = true ∧ s.name c = s.work.under
  | _ => True

structure ReleaseInv (s : Endpoint blk) : Prop where
  released : Released s
  waiting : s.scheduled ≠ 0 → (s.transferBuffer s.work.urb).content = .data ∨
    (s.transferBuffer s.work.urb).Protected s.work.under

/-! ## One run of the work item -/

theorem TransferBuffer.not_protected {buf : TransferBuffer blk} (h : buf.content = .data)
    (name : CtxName) : ¬ buf.Protected name := by
  rintro (⟨cctx, hEnc⟩ | hZero)
  · rw [h] at hEnc
    cases hEnc
  · rw [h] at hZero
    cases hZero

theorem TransferBuffer.encrypt_protected_iff {buf : TransferBuffer blk} {name under : CtxName}
    {allocated : Bool} {cctx : PrivCryptCtx} (hOk : 0 ≤ (privCrypt blk cctx buf.bytes).1) :
    (buf.encrypt name allocated cctx hOk).Protected under ↔
      buf.content = .data ∧ allocated = true ∧ name = under := by
  unfold TransferBuffer.encrypt
  by_cases h : buf.content = .data ∧ allocated = true
  · rw [dif_pos h]
    refine ⟨?_, fun hAll => .inl ⟨cctx, by rw [hAll.2.2]⟩⟩
    rintro (⟨cctx', hEnc⟩ | hZero)
    · cases hEnc
      exact ⟨h.1, h.2, rfl⟩
    · cases hZero
  · rw [dif_neg h]
    refine ⟨?_, fun hAll => absurd ⟨hAll.1, hAll.2.1⟩ h⟩
    rintro (⟨cctx', hEnc⟩ | hZero)
    · cases hEnc
    · cases hZero

/-- **One run of the work item** leaves what may be released exactly if it finds
the context it was scheduled under. -/
theorem privUsbUrbEnc_protected_iff (epDev : Option Nat)
    (hWaiting : (s.transferBuffer s.work.urb).content = .data ∨
      (s.transferBuffer s.work.urb).Protected s.work.under) :
    ((privUsbUrbEnc epDev s s.work.urb).2.transferBuffer s.work.urb).Protected s.work.under ↔
      KeepsCtx epDev s .work := by
  -- without a context the buffer stays as it is
  have hUntouched : (s.transferBuffer s.work.urb).Protected s.work.under ↔
      (s.transferBuffer s.work.urb).content ≠ .data :=
    ⟨fun hProt hData => TransferBuffer.not_protected hData _ hProt, hWaiting.resolve_left⟩
  cases epDev with
  | none => exact hUntouched
  | some ref =>
    simp only [privUsbUrbEnc, KeepsCtx, Option.bind_some]
    cases s.reg.refs ref with
    | none => exact hUntouched
    | some c =>
      dsimp only
      have hErased : ∀ t : Endpoint blk, ((t.setBuffer s.work.urb
          (s.transferBuffer s.work.urb).erase).transferBuffer s.work.urb).Protected
          s.work.under := by
        intro t
        right
        simp [Endpoint.setBuffer, TransferBuffer.erase]
      split
      · rename_i hOff
        exact ⟨fun _ hOn => absurd hOn hOff, fun _ => hErased s⟩
      · rename_i hOn
        split
        · rename_i hFails
          exact ⟨fun _ _ hOk => absurd hFails (Int.not_lt.mpr hOk), fun _ => hErased _⟩
        · rename_i hOk
          simp only [Endpoint.setBuffer, Function.update_self]
          rw [TransferBuffer.encrypt_protected_iff]
          exact ⟨fun h _ _ => h, fun h => h (not_not.mp hOn) (Int.not_lt.mp hOk)⟩

theorem privUsbUrbEnc_given (epDev : Option Nat) (s : Endpoint blk) (urb : Nat) :
    SameQueue s (privUsbUrbEnc epDev s urb).2 := by
  cases epDev with
  | none => exact ⟨rfl, rfl, rfl, rfl⟩
  | some ref => exact (privUsbUrbEnc_queue ref s urb).1

theorem work_step {epDev : Option Nat} (h : ReleaseInv s) (hScheduled : s.scheduled ≠ 0) :
    (KeepsCtx epDev s .work → ReleaseInv (encryptAndGivebackUrb epDev s)) ∧
      (Released (encryptAndGivebackUrb epDev s) → KeepsCtx epDev s .work) := by
  have hIff := privUsbUrbEnc_protected_iff epDev
    (s := { s with scheduled := s.scheduled - 1 }) (h.waiting hScheduled)
  have hSame := privUsbUrbEnc_given epDev { s with scheduled := s.scheduled - 1 } s.work.urb
  unfold encryptAndGivebackUrb
  cases hEnc : privUsbUrbEnc epDev { s with scheduled := s.scheduled - 1 } s.work.urb with
  | mk rc t =>
  simp only [hEnc] at hIff hSame
  have hWork : t.work = s.work := hSame.work
  have hGiven : t.given = s.given := hSame.given
  refine ⟨fun hKeeps => ?_, fun hRel => ?_⟩
  · have hProt := hIff.mpr hKeeps
    refine ⟨?_, fun _ => .inr ?_⟩
    · intro g hg name hName
      rcases List.mem_cons.mp hg with rfl | hg
      · cases hName
        rw [hWork]
        exact hProt
      · rw [hGiven] at hg
        exact h.released g hg name hName
    · simp only [usbHcdGivebackUrb, hWork]
      exact hProt
  · have hHead := hRel _ List.mem_cons_self _ rfl
    rw [hWork] at hHead
    exact hIff.mp hHead

theorem complete_release_inv (h : ReleaseInv s) (epDev : Option Nat)
    (hcd urb : Nat) (status : Int) (data : List UInt8) :
    ReleaseInv (privScheduleGivebackUrb epDev s hcd urb status data) := by
  cases hEnc : encryptsUnder epDev s status with
  | some c =>
    rw [privScheduleGivebackUrb_later hEnc]
    refine ⟨h.released, fun _ => .inl ?_⟩
    simp [Endpoint.setBuffer, TransferBuffer.fill]
  | none =>
    rw [privScheduleGivebackUrb_now hEnc]
    refine ⟨?_, fun hScheduled => ?_⟩
    · intro g hg name hName
      rcases List.mem_cons.mp hg with rfl | hg
      · cases hName
      · exact h.released g hg name hName
    · by_cases hUrb : s.work.urb = urb
      · left
        simp [usbHcdGivebackUrb, Endpoint.setBuffer, hUrb, TransferBuffer.fill]
      · simp only [usbHcdGivebackUrb, Endpoint.setBuffer, Function.update_of_ne hUrb]
        exact h.waiting hScheduled

/-- **One step** releases only what may be released exactly if the work item finds its context. -/
theorem ReleaseInv.step {epDev : Option Nat} {t : Endpoint blk} {op : UsbOp}
    (h : ReleaseInv s) (hStep : UsbStep epDev s op t) :
    (KeepsCtx epDev s op → ReleaseInv t) ∧ (Released t → KeepsCtx epDev s op) := by
  cases hStep with
  | complete hcd urb status data _ =>
    exact ⟨fun _ => complete_release_inv h epDev hcd urb status data, fun _ => trivial⟩
  | work hScheduled => exact work_step h hScheduled
  | setActivated c activated _ => exact ⟨fun _ => ⟨h.released, h.waiting⟩, fun _ => trivial⟩
  | reg op reg' _ => exact ⟨fun _ => ⟨h.released, h.waiting⟩, fun _ => trivial⟩

theorem FreshEndpoint.releaseInv (h : FreshEndpoint s) : ReleaseInv s where
  released := by
    intro g hg
    rw [h.given] at hg
    cases hg
  waiting := fun hNe => absurd h.scheduled hNe

end Lacuna.Usb
