import Lacuna.Crypt.Channel
import Lacuna.Usb.Reap

/-!
# Encrypted input end to end

The two counters are tied only by the URBs that lie between the ends, so the ends
agree as long as every encrypted URB is decrypted in its turn (`DropsNothing`).
Leaving private mode while an encrypted URB has not been reaped completes it to the
guest as it is, and cancelling such a URB leaves the counters apart for good.
-/

namespace Lacuna.Usb

open Lacuna.Lib Lacuna.Crypt List

/-! ## What is claimed, and when it holds -/

/-- Every packet completed to the guest carries what the device sent, and the
counters agree whenever no URB is in flight. -/
structure EndToEnd (st : PrivUSBDevice) : Prop where
  guest : ∀ g ∈ st.guest, g.content.Carries
  counters : st.crashed = false → st.pending = [] → st.completed = [] →
    st.user.userCtx.map AesniState.iv = some st.kern.ctr

/-- No URB that the kernel has encrypted waits to be decrypted when its packet is cancelled or
when private mode is left. -/
def DropsNothing (st : PrivUSBDevice) : DevOp → Prop
  | .urbDone status data => ∀ aurb ∈ st.pending.head?, Whole aurb status data
  | .cancel p => ∀ r ∈ st.received ++ st.completed, r.aurb.packet = some p → r.encrypted = false
  | .disconnect late _ => (∀ r ∈ st.received ++ st.completed, r.encrypted = false) ∧
      ∀ x ∈ st.pending.zip late, Whole x.1 x.2.1 x.2.2
  | _ => True

section Steps

variable {aes : List UInt8 → BlockStream 128 16} {key : List UInt8} {st t : PrivUSBDevice}
  {rs : List DoneURB}

variable {p : Nat}

/-! ## The kernel gives a URB back -/

theorem DevInv.snoc {aurb : AsyncURB} {rest : List AsyncURB} {r : DoneURB}
    (h : DevInv aes key st rs) (hPending : st.pending = aurb :: rest) (hAurb : r.aurb = aurb)
    {kern : PrivCryptCtx} (hKey : kern.key = st.kern.key)
    (hStep : InStep (aes key) st.kern.ctr [r] kern.ctr)
    (hOn : st.handler = true → r.encrypted = false → r.status < 0)
    (hOff : st.handler = false → r.encrypted = false) (hWhole : Whole r.aurb r.status r.data) :
    DevInv aes key { st with kern := kern, pending := rest, completed := rs ++ [r] }
      (rs ++ [r]) := by
  obtain ⟨iv, hUser, hQueueStep⟩ := h.inStep
  obtain ⟨cur, hQueue⟩ := h.queue
  have hLive : r.aurb.packet ≠ none := by
    rw [hAurb]
    refine hQueue.chained.packet_ne_none aurb ?_
    rw [hPending]
    exact mem_append_right _ mem_cons_self
  have hUrbs : liveUrbs (rs ++ [r]) ++ rest = liveUrbs rs ++ st.pending := by
    obtain ⟨p, hp⟩ := Option.ne_none_iff_exists'.mp hLive
    rw [liveUrbs_append, liveUrbs_live hp, hPending, hAurb, append_assoc]
    rfl
  have hMem : ∀ {P : DoneURB → Prop}, (∀ r' ∈ rs, P r') → P r → ∀ r' ∈ rs ++ [r], P r' := by
    intro P hAll hNew r' hr'
    rcases List.mem_append.mp hr' with hr' | hr'
    · exact hAll r' hr'
    · rw [List.mem_singleton.mp hr']
      exact hNew
  refine ⟨hKey.trans h.kern_key, ⟨iv, hUser, ?_⟩, fun hOn' r' hr' => ?_, fun hOff' r' hr' => ?_,
    hMem h.live fun _ => hLive, hMem h.whole fun _ => hWhole, h.received, ⟨cur, ?_⟩, h.guest⟩
  · rw [← append_assoc]
    exact InStep.append_iff.mpr ⟨_, hQueueStep, hStep⟩
  · rw [← append_assoc] at hr'
    rcases List.mem_append.mp hr' with hr' | hr'
    · exact h.secured hOn' r' hr'
    · rw [List.mem_singleton.mp hr']
      exact hOn hOn'
  · rw [← append_assoc] at hr'
    rcases List.mem_append.mp hr' with hr' | hr'
    · exact h.plain hOff' r' hr'
    · rw [List.mem_singleton.mp hr']
      exact hOff hOff'
  · exact ⟨hUrbs ▸ hQueue.chained, hQueue.idle, hQueue.gathers, hQueue.begun, hUrbs ▸ hQueue.fresh⟩

theorem urbDone_secured {aurb : AsyncURB} {rest : List AsyncURB} {status : Int}
    (hPending : st.pending = aurb :: rest) (hStatus : 0 ≤ status)
    (hActive : st.kern.activated = true) (data : List UInt8) :
    Usb.urbDone aes st status data = { st with
        kern := { st.kern with ctr := (ctrCrypt (aes st.kern.key) st.kern.ctr data).2 }
        pending := rest
        completed := st.completed ++
          [{ aurb := aurb, status := status, data := data, encrypted := true,
             bytes := (ctrCrypt (aes st.kern.key) st.kern.ctr data).1 }] } := by
  rw [Usb.urbDone, hPending]
  dsimp only
  rw [if_pos ⟨hStatus, hActive⟩, privCrypt_ctr hActive]

theorem urbDone_frame (st : PrivUSBDevice) (status : Int) (data : List UInt8) :
    let t := Usb.urbDone aes st status data
    t.handler = st.handler ∧ t.kern.activated = st.kern.activated ∧ t.connected = st.connected ∧
      t.crashed = st.crashed ∧ t.guest = st.guest ∧ t.received = st.received ∧
      t.pending = st.pending.tail := by
  unfold Usb.urbDone
  cases hPending : st.pending with
  | nil => exact ⟨rfl, rfl, rfl, rfl, rfl, rfl, hPending⟩
  | cons aurb rest =>
    dsimp only
    split
    · rename_i hEnc
      rw [privCrypt_ctr hEnc.2]
      exact ⟨rfl, rfl, rfl, rfl, rfl, rfl, rfl⟩
    · exact ⟨rfl, rfl, rfl, rfl, rfl, rfl, rfl⟩

/-- **A URB is given back**, encrypted if the handler is there to decrypt it. -/
theorem DevInv.urbDone (h : DevInv aes key st st.completed)
    (hMode : st.kern.activated = st.handler) {status : Int} {data : List UInt8}
    (hWhole : ∀ aurb ∈ st.pending.head?, Whole aurb status data) :
    DevInv aes key (Usb.urbDone aes st status data) (Usb.urbDone aes st status data).completed := by
  cases hPending : st.pending with
  | nil =>
    rw [Usb.urbDone, hPending]
    exact h
  | cons aurb rest =>
    rw [hPending] at hWhole
    have hHead := hWhole aurb rfl
    by_cases hEnc : 0 ≤ status ∧ st.kern.activated = true
    · rw [urbDone_secured hPending hEnc.1 hEnc.2]
      refine h.snoc hPending rfl rfl ?_ (fun _ hNot => nomatch hNot) ?_ hHead
      · rw [InStep, if_pos rfl, h.kern_key]
        exact ⟨rfl, rfl⟩
      · intro hOff
        rw [← hMode, hEnc.2] at hOff
        cases hOff
    · rw [Usb.urbDone, hPending]
      dsimp only
      rw [if_neg hEnc]
      refine h.snoc hPending rfl rfl ?_ ?_ (fun _ => rfl) hHead
      · rw [InStep, if_neg Bool.false_ne_true]
        exact ⟨rfl, rfl⟩
      · intro hOn _
        rw [← hMode] at hOn
        exact Int.not_le.mp fun hNonneg => hEnc ⟨hNonneg, hOn⟩

/-! ## The guest submits and cancels packets -/

theorem DevInv.submit (h : DevInv aes key st st.completed) (buf : List UInt8)
    (hPending : ∀ a ∈ st.pending, a.packet ≠ some p)
    (hCompleted : ∀ r ∈ st.completed, r.aurb.packet ≠ some p) :
    DevInv aes key (usbHostHandleData st p buf) st.completed := by
  obtain ⟨cur, hQueue⟩ := h.queue
  have hOther : ∀ a ∈ liveUrbs st.completed ++ st.pending, a.packet ≠ some p := by
    intro a ha
    rcases List.mem_append.mp ha with ha | ha
    · obtain ⟨r, hr, rfl⟩ := mem_liveUrbs ha
      exact hCompleted r hr
    · exact hPending a ha
  have hNew : Chained none (dataUrbs p buf.length 0 buf.length) := by
    by_cases hPos : 0 < buf.length
    · exact .dataUrbs _ (.inl ⟨rfl, rfl⟩) (Nat.le_refl _) hPos
    · rw [Nat.eq_zero_of_not_pos hPos]
      rfl
  have hSame : ∀ q ≠ p, (usbHostHandleData st p buf).packets q = st.packets q :=
    fun q hq => PrivUSBDevice.packets_setPacket_of_ne st hq _
  have hCur : ∀ q off, cur = some (q, off) → q ≠ p := by
    rintro q off rfl rfl
    obtain ⟨a, ha, hq⟩ := hQueue.chained.cur_mem
    exact hOther a ha hq
  refine ⟨h.kern_key, h.inStep, h.secured, h.plain, h.live, h.whole, h.received,
    ⟨cur, ?_, hQueue.idle, ?_, hQueue.begun, ?_⟩, h.guest⟩
  · rw [usbHostHandleData, ← append_assoc]
    refine hQueue.chained.append hNew fun a ha b hb => ?_
    rw [packet_of_mem_dataUrbs b hb]
    exact (hOther a ha).symm
  · intro q off hq
    rw [hSame q (hCur q off hq)]
    exact hQueue.gathers q off hq
  · intro a ha q hq hNotCur
    rw [usbHostHandleData, ← append_assoc] at ha
    rcases List.mem_append.mp ha with hOld | hNew
    · have hNe : q ≠ p := by
        rintro rfl
        exact hOther a hOld hq
      rw [hSame q hNe]
      exact hQueue.fresh a hOld q hq hNotCur
    · obtain rfl : p = q := Option.some.inj ((packet_of_mem_dataUrbs a hNew).symm.trans hq)
      rw [usbHostHandleData]
      dsimp only
      rw [PrivUSBDevice.packets_setPacket_self]
      exact ⟨rfl, rfl, rfl⟩

theorem mem_cancelled {r : DoneURB} (h : r ∈ (usbHostAsyncCancel st p).completed) :
    (∃ r' ∈ st.completed, r = { r' with aurb := r'.aurb.forget p }) ∨
      r.aurb.packet = none ∧ r.encrypted = false ∧ r.status < 0 := by
  rcases List.mem_append.mp h with h | h
  · obtain ⟨r', hr', rfl⟩ := List.mem_map.mp h
    exact .inl ⟨r', hr', rfl⟩
  · obtain ⟨a, ha, rfl⟩ := List.mem_map.mp h
    have hMine := of_decide_eq_true (List.mem_filter.mp (List.mem_reverse.mp ha)).2
    refine .inr ⟨?_, rfl, Int.neg_neg_of_pos (by decide)⟩
    rw [killed, AsyncURB.forget, if_pos hMine]

theorem liveUrbs_usbHostAsyncCancel (st : PrivUSBDevice) (p : Nat) :
    liveUrbs (usbHostAsyncCancel st p).completed ++ (usbHostAsyncCancel st p).pending =
      (liveUrbs st.completed ++ st.pending).filter fun a => a.packet ≠ some p := by
  have hDead : liveUrbs ((st.pending.filter fun a => a.packet = some p).reverse.map
      fun a => killed (a.forget p)) = [] := by
    refine List.filter_eq_nil_iff.mpr fun a ha => ?_
    obtain ⟨r, hr, rfl⟩ := List.mem_map.mp ha
    obtain ⟨a', ha', rfl⟩ := List.mem_map.mp hr
    have hMine := of_decide_eq_true (List.mem_filter.mp (List.mem_reverse.mp ha')).2
    rw [killed, AsyncURB.forget, if_pos hMine]
    exact Bool.false_ne_true
  rw [usbHostAsyncCancel, liveUrbs_append, liveUrbs_forget, hDead, append_nil, filter_append]

theorem InStep.usbHostAsyncCancel {K : BlockStream 128 16} {iv ctr : BitVec 128}
    (h : InStep K iv (st.received ++ st.completed) ctr) (p : Nat) :
    InStep K iv (st.received ++ (Usb.usbHostAsyncCancel st p).completed) ctr := by
  obtain ⟨mid, hReceived, hRest⟩ := InStep.append_iff.mp h
  refine InStep.append_iff.mpr ⟨mid, hReceived, InStep.append_iff.mpr
    ⟨_, (InStep.map_aurb _).mpr hRest, (InStep.plain_iff ?_).mpr ⟨rfl, ?_⟩⟩⟩
  · intro r hr
    obtain ⟨a, _, rfl⟩ := List.mem_map.mp hr
    rfl
  · intro r hr
    obtain ⟨a, _, rfl⟩ := List.mem_map.mp hr
    rfl

/-- **A packet is cancelled** none of whose URBs have been encrypted. -/
theorem DevInv.cancel (h : DevInv aes key st st.completed) (hOn : st.handler = true)
    (hNothing : ∀ r ∈ st.received ++ st.completed, r.aurb.packet = some p → r.encrypted = false) :
    DevInv aes key (usbHostAsyncCancel st p) (usbHostAsyncCancel st p).completed := by
  obtain ⟨iv, hUser, hStep⟩ := h.inStep
  obtain ⟨cur, hQueue⟩ := h.queue
  have hForget : ∀ a : AsyncURB, a.packet ≠ some p → a.forget p = a := fun a ha => if_neg ha
  -- what has been encrypted is of another packet
  have hOther : ∀ r ∈ st.received ++ st.completed, r.encrypted = true → r.aurb.packet ≠ some p :=
    fun r hr hEnc hp => Bool.noConfusion (hEnc.symm.trans (hNothing r hr hp))
  -- and so is the packet of which something has been received
  have hCur : cur.filter (fun c => c.1 ≠ p) = cur := by
    cases hEq : cur with
    | none => rfl
    | some c =>
      obtain ⟨r, hr, hPacket⟩ := hQueue.begun c.1 c.2 hEq
      have hMem := mem_append_left st.completed hr
      have hEnc := h.encrypted_of_status hOn hMem (h.received r hr).1
      have hNe : c.1 ≠ p := fun hp => hOther r hMem hEnc (hp ▸ hPacket)
      simp [Option.filter, hNe]
  refine ⟨h.kern_key, ⟨iv, hUser, hStep.usbHostAsyncCancel p⟩, ?secured, ?plain, ?live, ?whole,
    h.received, ⟨cur, ?chained, hQueue.idle, hQueue.gathers, hQueue.begun, ?fresh⟩, h.guest⟩
  case secured =>
    intro _ r hr
    rcases List.mem_append.mp hr with hr | hr
    · exact h.secured hOn r (mem_append_left _ hr)
    · rcases mem_cancelled hr with ⟨r', hr', rfl⟩ | hDead
      · exact h.secured hOn r' (mem_append_right _ hr')
      · exact fun _ => hDead.2.2
  case plain =>
    intro hOff
    exact Bool.noConfusion (hOn.symm.trans hOff)
  case live =>
    intro r hr hEnc
    rcases mem_cancelled hr with ⟨r', hr', rfl⟩ | hDead
    · dsimp only
      rw [hForget _ (hOther r' (mem_append_right _ hr') hEnc)]
      exact h.live r' hr' hEnc
    · exact Bool.noConfusion (hEnc.symm.trans hDead.2.1)
  case whole =>
    intro r hr hLive
    rcases mem_cancelled hr with ⟨r', hr', rfl⟩ | hDead
    · have hNe : r'.aurb.packet ≠ some p := by
        intro hp
        refine hLive ?_
        rw [AsyncURB.forget, if_pos hp]
      rw [hForget _ hNe] at hLive ⊢
      exact h.whole r' hr' hLive
    · exact absurd hDead.1 hLive
  case chained =>
    rw [liveUrbs_usbHostAsyncCancel, ← hCur]
    exact hQueue.chained.cancel p
  case fresh =>
    intro a ha q hq hNotCur
    rw [liveUrbs_usbHostAsyncCancel] at ha
    exact hQueue.fresh a (List.mem_filter.mp ha).1 q hq hNotCur

/-! ## Private mode is entered and left -/

/-- The context is activated and the handler is there while the device is open. -/
structure Attached (st : PrivUSBDevice) : Prop where
  handler : st.handler = st.connected
  activated : st.kern.activated = st.connected
  closed : st.connected = false → st.pending = [] ∧ st.completed = [] ∧ st.received = []

theorem DevInv.idle {iv : BitVec 128} (hKey : st.kern.key = key)
    (hUser : st.user.userCtx = some { key := key, iv := iv }) (hCtr : iv = st.kern.ctr)
    (hPending : st.pending = []) (hReceived : st.received = [])
    (hGuest : ∀ g ∈ st.guest, g.content.Carries) : DevInv aes key st [] := by
  have hNone : ∀ r, r ∉ st.received ++ [] := by
    rw [hReceived]
    exact fun _ hr => nomatch hr
  refine ⟨hKey, ⟨iv, hUser, ?_⟩, fun _ r hr => absurd hr (hNone r), fun _ r hr => absurd hr (hNone r),
    (fun _ hr => nomatch hr), (fun _ hr => nomatch hr), ?_, ⟨none, ?_, fun _ => hReceived,
    (fun _ _ hSome => nomatch hSome), (fun _ _ hSome => nomatch hSome), ?_⟩, hGuest⟩
  · rw [hReceived]
    exact hCtr
  · rw [hReceived]
    exact fun _ hr => nomatch hr
  · rw [hPending]
    rfl
  · rw [hPending]
    exact fun _ ha => nomatch ha

theorem DevInv.late (late : List (Int × List UInt8)) {st : PrivUSBDevice}
    (h : DevInv aes key st st.completed) (hOff : st.handler = false)
    (hMode : st.kern.activated = false) (hRuns : st.crashed = false)
    (hWhole : ∀ x ∈ st.pending.zip late, Whole x.1 x.2.1 x.2.2) :
    let t := late.foldl (fun st c => Usb.urbDone aes st c.1 c.2) st
    DevInv aes key t t.completed ∧ t.handler = false ∧ t.kern.activated = false ∧
      t.crashed = false := by
  induction late generalizing st with
  | nil => exact ⟨h, hOff, hMode, hRuns⟩
  | cons c late ih =>
    dsimp only
    rw [foldl_cons]
    have hNext : DevInv aes key (Usb.urbDone aes st c.1 c.2) (Usb.urbDone aes st c.1 c.2).completed := by
      refine h.urbDone (hMode.trans hOff.symm) fun aurb hHead => ?_
      obtain ⟨rest, hPending⟩ := List.head?_eq_some_iff.mp (Option.mem_def.mp hHead)
      rw [hPending] at hWhole
      exact hWhole (aurb, c) mem_cons_self
    obtain ⟨hOff', hMode', _, hRuns', _, _, hTail⟩ := @urbDone_frame aes st c.1 c.2
    refine ih hNext (hOff'.trans hOff) (hMode'.trans hMode) (hRuns'.trans hRuns)
      fun x hx => hWhole x ?_
    rw [hTail] at hx
    cases hPending : st.pending with
    | nil =>
      rw [hPending] at hx
      cases hx
    | cons a rest =>
      rw [hPending] at hx
      exact mem_cons_of_mem _ hx

theorem DevInv.disconnect (h : DevInv aes key st st.completed) (hRuns : st.crashed = false)
    {late : List (Int × List UInt8)} (stack : Nat → AesBlock)
    (hNothing : ∀ r ∈ st.received ++ st.completed, r.encrypted = false)
    (hWhole : ∀ x ∈ st.pending.zip late, Whole x.1 x.2.1 x.2.2) (hOpen : st.connected = true) :
    let t := usbDevDisconnect aes late stack st
    (∀ g ∈ t.guest, g.content.Carries) ∧
      (t.crashed = false → DevInv aes key t t.completed ∧ Attached t) := by
  obtain ⟨cur, hQueue⟩ := h.queue
  -- without the handler, as long as nothing is encrypted
  have hClosing : DevInv aes key { st with kern := privSetActivated st.kern false, handler := false }
      st.completed :=
    ⟨h.kern_key, h.inStep, (fun hOn => nomatch hOn), fun _ => hNothing, h.live, h.whole, h.received,
      ⟨cur, hQueue.congr rfl rfl rfl⟩, h.guest⟩
  obtain ⟨hLate, hOff, hMode, hUp⟩ := hClosing.late late rfl rfl hRuns hWhole
  obtain ⟨hSame, hGuest, hInv⟩ := asyncComplete_inv stack hLate hUp
  dsimp only
  rw [usbDevDisconnect, if_pos hOpen]
  refine ⟨hGuest, fun hUp' => ?_⟩
  have hDone := hInv hUp'
  obtain ⟨iv, hUser, hStep⟩ := hDone.inStep
  have hPlain := hDone.plain (hSame.handler.trans hOff)
  have hCtr := ((InStep.plain_iff hPlain).mp hStep).1
  have hEmpty := hSame.completed
  refine ⟨?_, hSame.handler.trans hOff, ?_, fun _ => ⟨rfl, hEmpty, rfl⟩⟩
  · dsimp only
    rw [hEmpty]
    exact .idle hDone.kern_key hUser hCtr rfl rfl hGuest
  · exact (congrArg PrivCryptCtx.activated hSame.kern).trans hMode

theorem DevInv.connect (h : DevInv aes key st st.completed) (hAttached : Attached st)
    (hClosed : st.connected = false) :
    DevInv aes key (usbDevConnect st) (usbDevConnect st).completed ∧
      Attached (usbDevConnect st) := by
  obtain ⟨hPending, hCompleted, hReceived⟩ := hAttached.closed hClosed
  obtain ⟨iv, hUser, hStep⟩ := h.inStep
  rw [hReceived, hCompleted] at hStep
  refine ⟨?_, rfl, rfl, (fun hNot => nomatch hNot)⟩
  rw [show (usbDevConnect st).completed = [] from hCompleted]
  exact .idle h.kern_key hUser hStep hPending hReceived h.guest

/-- The packets so far were right, and the ends are in step until QEMU crashes. -/
structure RunInv (aes : List UInt8 → BlockStream 128 16) (key : List UInt8) (st : PrivUSBDevice) :
    Prop where
  running : st.crashed = false → DevInv aes key st st.completed ∧ Attached st
  guest : ∀ g ∈ st.guest, g.content.Carries

theorem RunInv.endToEnd (h : RunInv aes key st) : EndToEnd st where
  guest := h.guest
  counters := by
    intro hRuns hPending hCompleted
    obtain ⟨hInv, _⟩ := h.running hRuns
    obtain ⟨iv, hUser, hStep⟩ := hInv.inStep
    obtain ⟨cur, hQueue⟩ := hInv.queue
    have hChained := hQueue.chained
    rw [hCompleted, hPending] at hChained
    rw [hQueue.idle hChained, hCompleted] at hStep
    rw [hUser, Option.map_some]
    exact congrArg some hStep

/-- **One step** keeps the ends in step, unless it drops encrypted URBs. -/
theorem RunInv.step {op : DevOp} (h : RunInv aes key st) (hStep : DevStep aes st op t)
    (hNothing : DropsNothing st op) : RunInv aes key t := by
  cases hStep with
  | submit p buf hRuns hOpen hPending hCompleted =>
    obtain ⟨hInv, hAttached⟩ := h.running hRuns
    refine ⟨fun _ => ⟨hInv.submit buf hPending hCompleted, hAttached.handler,
      hAttached.activated, fun hClosed => ?_⟩, h.guest⟩
    rw [show st.connected = false from hClosed] at hOpen
    cases hOpen
  | urbDone status data =>
    obtain ⟨hHandler, hActive, hConn, hCrash, hGuest, hReceived, hTail⟩ :=
      @urbDone_frame aes st status data
    refine ⟨fun hRuns => ?_, hGuest ▸ h.guest⟩
    obtain ⟨hInv, hAttached⟩ := h.running (hCrash.symm.trans hRuns)
    refine ⟨hInv.urbDone (hAttached.activated.trans hAttached.handler.symm) hNothing,
      hHandler.trans (hAttached.handler.trans hConn.symm),
      hActive.trans (hAttached.activated.trans hConn.symm), fun hClosed => ?_⟩
    have hEmpty := hAttached.closed (hConn.symm.trans hClosed)
    rw [Usb.urbDone, hEmpty.1]
    exact hEmpty
  | reap stack hRuns hOpen =>
    obtain ⟨hInv, hAttached⟩ := h.running hRuns
    obtain ⟨hSame, hGuest, hAfter⟩ := asyncComplete_inv stack hInv hRuns
    refine ⟨fun hUp => ⟨?_, hSame.handler.trans (hAttached.handler.trans hSame.connected.symm), ?_,
      fun hClosed => ?_⟩, hGuest⟩
    · rw [hSame.completed]
      exact hAfter hUp
    · rw [hSame.kern, hSame.connected]
      exact hAttached.activated
    · have hBoth := hSame.connected.symm.trans hClosed
      rw [show st.connected = false from hBoth] at hOpen
      cases hOpen
  | cancel p hRuns hOpen =>
    obtain ⟨hInv, hAttached⟩ := h.running hRuns
    refine ⟨fun _ => ⟨hInv.cancel (hAttached.handler.trans hOpen) hNothing, hAttached.handler,
      hAttached.activated, fun hClosed => ?_⟩, h.guest⟩
    rw [show st.connected = false from hClosed] at hOpen
    cases hOpen
  | connect hRuns hClosed =>
    obtain ⟨hInv, hAttached⟩ := h.running hRuns
    exact ⟨fun _ => hInv.connect hAttached hClosed, h.guest⟩
  | disconnect late stack hRuns =>
    obtain ⟨hInv, hAttached⟩ := h.running hRuns
    cases hConn : st.connected with
    | true =>
      obtain ⟨hGuest, hAfter⟩ := hInv.disconnect hRuns stack hNothing.1 hNothing.2 hConn
      exact ⟨hAfter, hGuest⟩
    | false =>
      rw [usbDevDisconnect, hConn, if_neg Bool.false_ne_true]
      exact h

/-- Set up with one key and one counter at both ends, and not connected yet. -/
structure FreshDevice (key : List UInt8) (st : PrivUSBDevice) : Prop where
  attached : Attached st
  closed : st.connected = false
  kern_key : st.kern.key = key
  user : st.user.userCtx = some { key := key, iv := st.kern.ctr }
  guest : st.guest = []

theorem FreshDevice.inv (h : FreshDevice key st) : RunInv aes key st := by
  obtain ⟨hPending, hCompleted, hReceived⟩ := h.attached.closed h.closed
  have hGuest : ∀ g ∈ st.guest, g.content.Carries := by
    rw [h.guest]
    exact fun _ hg => nomatch hg
  refine ⟨fun _ => ⟨?_, h.attached⟩, hGuest⟩
  rw [hCompleted]
  exact .idle h.kern_key h.user rfl hPending hReceived hGuest

end Steps

def pairedDevice : PrivUSBDevice where
  kern := { id := 1, allocPid := 7, userLock := true, userRef := some 1, activated := false,
            dir := .enc, key := List.replicate 16 9, ctr := 1 }
  user := { dir := .enc, userCtx := some { key := List.replicate 16 9, iv := 1 } }
  connected := false
  handler := false
  pending := []
  completed := []
  packets := fun _ => { len := 0, data := [], sent := [] }
  received := []
  guest := []
  crashed := false

theorem pairedDevice_fresh : FreshDevice (replicate 16 9) pairedDevice :=
  ⟨⟨rfl, rfl, fun _ => ⟨rfl, rfl, rfl⟩⟩, rfl, rfl, rfl, rfl⟩

def zeroStack : Nat → AesBlock := fun _ => ⟨List.replicate 16 0, rfl⟩

/-- Private mode has been entered, and the guest has asked for a report. -/
def listeningDevice : PrivUSBDevice :=
  usbHostHandleData (usbDevConnect pairedDevice) 0 (List.replicate 4 0)

def typedDevice : PrivUSBDevice :=
  { listeningDevice with
    kern := { listeningDevice.kern with ctr := 2 }
    pending := []
    completed :=
      [{ aurb := { packet := some 0, more := false, offset := 0, bufferLength := 4 }, status := 0,
         bytes := [5, 1, 1, 1], data := [4, 0, 0, 0], encrypted := true }] }

theorem urbDone_listeningDevice : urbDone repeatCtr listeningDevice 0 [4, 0, 0, 0] = typedDevice :=
  urbDone_secured rfl (by decide) rfl _

end Lacuna.Usb
