import Lacuna.Usb.Queue

/-!
# Reaping URBs

`DevInv` is what holds of a device while nothing is dropped: the URBs that have been
received of a packet, those to be reaped and those in flight are whole packets in
order, and the encrypted ones take QEMU's counter to that of the kernel. A URB that
fails while the handler is there gives the packet a negative length, with which
`priv_handle_enc_packet` crashes QEMU.
-/

namespace Lacuna.Usb

open Lacuna.Lib Lacuna.Crypt List

/-- A packet carries what the device sent for it, unless it reports an error. -/
def USBPacket.Carries (pkt : USBPacket) : Prop :=
  0 ≤ pkt.len → pkt.data.take pkt.len.toNat = pkt.sent

/-- A URB that is followed by more of its packet succeeds and is full. -/
def Whole (aurb : AsyncURB) (status : Int) (data : List UInt8) : Prop :=
  aurb.more = true → status = 0 ∧ data.length = aurb.bufferLength

/-! ## The invariant -/

/-- The URBs to be reaped and those in flight are whole packets, after what has been
received of the first one; `cur` says which packet that is and how far it goes. -/
structure QueueInv (st : PrivUSBDevice) (rs : List DoneURB) (cur : Option (Nat × Nat)) :
    Prop where
  chained : Chained cur (liveUrbs rs ++ st.pending)
  idle : cur = none → st.received = []
  gathers : ∀ p off, cur = some (p, off) →
    off = (st.received.flatMap DoneURB.bytes).length ∧ (st.packets p).Gathers st.received
  begun : ∀ p off, cur = some (p, off) → ∃ r ∈ st.received, r.aurb.packet = some p
  fresh : ∀ a ∈ liveUrbs rs ++ st.pending, ∀ p, a.packet = some p →
    (∀ off, cur ≠ some (p, off)) → (st.packets p).Gathers []

/-- The state of a device with `rs` still to be reaped. -/
structure DevInv (aes : List UInt8 → BlockStream 128 16) (key : List UInt8) (st : PrivUSBDevice)
    (rs : List DoneURB) : Prop where
  kern_key : st.kern.key = key
  inStep : ∃ iv, st.user.userCtx = some { key := key, iv := iv } ∧
    InStep (aes key) iv (st.received ++ rs) st.kern.ctr
  /-- with the handler, what succeeds is encrypted; without it, nothing is -/
  secured : st.handler = true → ∀ r ∈ st.received ++ rs, r.encrypted = false → r.status < 0
  plain : st.handler = false → ∀ r ∈ st.received ++ rs, r.encrypted = false
  live : ∀ r ∈ rs, r.encrypted = true → r.aurb.packet ≠ none
  whole : ∀ r ∈ rs, r.aurb.packet ≠ none → Whole r.aurb r.status r.data
  received : ∀ r ∈ st.received, r.status = 0 ∧ r.data.length = MAX_USBFS_BUFFER_SIZE
  queue : ∃ cur, QueueInv st rs cur
  guest : ∀ g ∈ st.guest, g.content.Carries

section Reap

variable {aes : List UInt8 → BlockStream 128 16} {key : List UInt8} {st : PrivUSBDevice}
  {r : DoneURB} {rs : List DoneURB} {cur : Option (Nat × Nat)} {p : Nat}

theorem DevInv.encrypted_of_status (h : DevInv aes key st rs) (hOn : st.handler = true)
    (hMem : r ∈ st.received ++ rs) (hStatus : r.status = 0) : r.encrypted = true := by
  by_contra hNot
  have hNeg := h.secured hOn r hMem (eq_false_of_ne_true hNot)
  omega

theorem QueueInv.head (h : QueueInv st (r :: rs) cur) (hPacket : r.aurb.packet = some p) :
    r.aurb.offset = (st.received.flatMap DoneURB.bytes).length ∧
      (st.packets p).Gathers st.received ∧ ∀ q ≠ p, ∀ off, cur ≠ some (q, off) := by
  have hChained := h.chained
  rw [liveUrbs_live hPacket] at hChained
  obtain ⟨p', hp', hCur, _⟩ := hChained
  obtain rfl : p' = p := Option.some.inj (hp'.symm.trans hPacket)
  rcases hCur with ⟨rfl, hOff⟩ | rfl
  · have hNil := h.idle rfl
    have hFresh := h.fresh r.aurb (by rw [liveUrbs_live hPacket]; exact mem_cons_self) p'
      hPacket (fun _ hNone => nomatch hNone)
    rw [hNil]
    exact ⟨hOff, hFresh, fun _ _ _ hNone => nomatch hNone⟩
  · obtain ⟨hOff, hGathers⟩ := h.gathers p' _ rfl
    refine ⟨hOff, hGathers, fun q hq off hSome => hq ?_⟩
    cases hSome
    rfl

theorem QueueInv.fresh_tail (h : QueueInv st (r :: rs) cur) (hPacket : r.aurb.packet = some p) :
    ∀ a ∈ liveUrbs rs ++ st.pending, ∀ q, a.packet = some q → q ≠ p →
      (st.packets q).Gathers [] := by
  intro a ha q hq hNe
  refine h.fresh a ?_ q hq ((h.head hPacket).2.2 q hNe)
  rw [liveUrbs_live hPacket]
  exact mem_cons_of_mem _ ha

theorem QueueInv.last (h : QueueInv st (r :: rs) cur) (hPacket : r.aurb.packet = some p)
    (hLast : r.aurb.more = false) {t : PrivUSBDevice} (hPending : t.pending = st.pending)
    (hPackets : ∀ q ≠ p, t.packets q = st.packets q) (hReceived : t.received = []) :
    QueueInv t rs none := by
  have hChained := h.chained
  rw [liveUrbs_live hPacket] at hChained
  obtain ⟨p', hp', _, hRest⟩ := hChained
  obtain rfl : p' = p := Option.some.inj (hp'.symm.trans hPacket)
  rw [hLast, if_neg Bool.false_ne_true] at hRest
  refine ⟨?_, fun _ => hReceived, (fun _ _ hNone => nomatch hNone),
    (fun _ _ hNone => nomatch hNone), fun a ha q hq _ => ?_⟩
  · rw [hPending]
    exact hRest.2
  · rw [hPending] at ha
    have hNe : q ≠ p' := by
      rintro rfl
      exact hRest.1 a ha hq
    rw [hPackets q hNe]
    exact h.fresh_tail hPacket a ha q hq hNe

theorem DevInv.reap_dead (h : DevInv aes key st (r :: rs)) (hDead : r.aurb.packet = none) :
    DevInv aes key st rs := by
  have hSub : ∀ r' ∈ st.received ++ rs, r' ∈ st.received ++ r :: rs := by
    intro r' hr'
    rcases List.mem_append.mp hr' with hr' | hr'
    · exact mem_append_left _ hr'
    · exact mem_append_right _ (mem_cons_of_mem _ hr')
  have hPlain : r.encrypted = false :=
    eq_false_of_ne_true fun hEnc => h.live r mem_cons_self hEnc hDead
  obtain ⟨iv, hUser, hStep⟩ := h.inStep
  obtain ⟨cur, hQueue⟩ := h.queue
  refine ⟨h.kern_key, ⟨iv, hUser, hStep.skip hPlain⟩, fun hOn r' hr' => h.secured hOn r' (hSub r' hr'),
    fun hOff r' hr' => h.plain hOff r' (hSub r' hr'),
    fun r' hr' => h.live r' (mem_cons_of_mem _ hr'),
    fun r' hr' => h.whole r' (mem_cons_of_mem _ hr'), h.received, ⟨cur, ?_⟩, h.guest⟩
  have hLive := liveUrbs_dead hDead rs
  exact ⟨hLive ▸ hQueue.chained, hQueue.idle, hQueue.gathers, hQueue.begun, hLive ▸ hQueue.fresh⟩

theorem DevInv.reap_more (h : DevInv aes key st (r :: rs)) (hPacket : r.aurb.packet = some p)
    (hMore : r.aurb.more = true) :
    DevInv aes key { st.setPacket p ((st.packets p).add r) with received := st.received ++ [r] }
      rs := by
  obtain ⟨iv, hUser, hStep⟩ := h.inStep
  obtain ⟨cur, hQueue⟩ := h.queue
  obtain ⟨hOffset, hGathers, _⟩ := hQueue.head hPacket
  have hFresh := hQueue.fresh_tail hPacket
  have hChained := hQueue.chained
  rw [liveUrbs_live hPacket] at hChained
  obtain ⟨p', hp', _, hRest⟩ := hChained
  obtain rfl : p' = p := Option.some.inj (hp'.symm.trans hPacket)
  rw [if_pos hMore] at hRest
  obtain ⟨hStatus, hData⟩ := h.whole r mem_cons_self (by rw [hPacket]; nofun) hMore
  have hAssoc : st.received ++ [r] ++ rs = st.received ++ r :: rs := by simp
  have hBytes : r.bytes.length = MAX_USBFS_BUFFER_SIZE := by
    rw [hStep.length_bytes r (mem_append_right _ mem_cons_self), hData, hRest.1]
  refine ⟨h.kern_key, ⟨iv, hUser, ?_⟩, ?_, ?_, fun r' hr' => h.live r' (mem_cons_of_mem _ hr'),
    fun r' hr' => h.whole r' (mem_cons_of_mem _ hr'), ?_, ⟨some (p', _), hRest.2, ?_, ?_, ?_, ?_⟩,
    h.guest⟩
  · rw [hAssoc]
    exact hStep
  · rw [hAssoc]
    exact h.secured
  · rw [hAssoc]
    exact h.plain
  · intro r' hr'
    rcases List.mem_append.mp hr' with hr' | hr'
    · exact h.received r' hr'
    · rw [List.mem_singleton.mp hr']
      exact ⟨hStatus, hData.trans hRest.1⟩
  · exact fun hNone => nomatch hNone
  · intro q off hSome
    cases hSome
    refine ⟨?_, ?_⟩
    · simp only [flatMap_append, flatMap_singleton, length_append, hOffset, hBytes]
    · dsimp only
      rw [PrivUSBDevice.packets_setPacket_self]
      exact hGathers.add hStatus hOffset
  · intro q off hSome
    cases hSome
    exact ⟨r, mem_append_right _ mem_cons_self, hPacket⟩
  · intro a ha q hq hNotCur
    have hNe : q ≠ p' := fun hEq => hNotCur _ (by rw [hEq])
    dsimp only
    rw [PrivUSBDevice.packets_setPacket_of_ne st hNe]
    exact hFresh a ha q hq hNe

/-- Without the handler the last URB completes the packet as it is. -/
theorem DevInv.reap_last_plain (h : DevInv aes key st (r :: rs)) (hPacket : r.aurb.packet = some p)
    (hLast : r.aurb.more = false) (hOff : st.handler = false) :
    DevInv aes key
      { usbPacketComplete (st.setPacket p ((st.packets p).add r)) p with received := [] } rs := by
  obtain ⟨iv, hUser, hStep⟩ := h.inStep
  obtain ⟨cur, hQueue⟩ := h.queue
  obtain ⟨hOffset, hGathers, _⟩ := hQueue.head hPacket
  have hPlain := h.plain hOff
  obtain ⟨hCtr, hBytes⟩ := (InStep.plain_iff hPlain).mp hStep
  have hTail : ∀ r' ∈ rs, r' ∈ st.received ++ r :: rs := fun r' hr' =>
    mem_append_right _ (mem_cons_of_mem _ hr')
  refine ⟨h.kern_key, ⟨iv, hUser, ?_⟩, fun hOn => ?_, fun _ r' hr' => hPlain r' (hTail r' hr'),
    fun r' hr' => h.live r' (mem_cons_of_mem _ hr'),
    fun r' hr' => h.whole r' (mem_cons_of_mem _ hr'), (fun _ hr' => nomatch hr'),
    ⟨none, hQueue.last hPacket hLast rfl
      (fun q hq => PrivUSBDevice.packets_setPacket_of_ne st hq _) rfl⟩, ?_⟩
  · rw [nil_append]
    exact (InStep.plain_iff fun r' hr' => hPlain r' (hTail r' hr')).mpr
      ⟨hCtr, fun r' hr' => hBytes r' (hTail r' hr')⟩
  · rw [show st.handler = true from hOn] at hOff
    cases hOff
  · intro g hg
    rcases List.mem_cons.mp hg with rfl | hg
    · dsimp only
      rw [PrivUSBDevice.packets_setPacket_self]
      intro hNonneg
      by_cases hStatus : r.status = 0
      · have hAdd := hGathers.add hStatus hOffset
        rw [hAdd.len, Int.toNat_natCast, hAdd.data, hAdd.sent]
        refine flatMap_congr fun r' hr' => hBytes r' ?_
        rcases List.mem_append.mp hr' with hr' | hr'
        · exact mem_append_left _ hr'
        · rw [List.mem_singleton.mp hr']
          exact mem_append_right _ mem_cons_self
      · exact absurd hNonneg (Int.not_le.mpr (lenAfter_neg hStatus))
    · exact h.guest g hg

theorem privHandleEncPacket_eq {iv : BitVec 128} {msg : List UInt8} (stack : Nat → AesBlock)
    (hUser : st.user.userCtx = some { key := key, iv := iv })
    (hLen : (st.packets p).len = msg.length)
    (hData : (st.packets p).data.take msg.length = (ctrCrypt (aes key) iv msg).1) :
    privHandleEncPacket aes stack st p = { st.setPacket p
          { st.packets p with data := msg ++ (st.packets p).data.drop msg.length } with
        user := { dir := st.user.dir,
                  userCtx := some { key := key, iv := (ctrCrypt (aes key) iv msg).2 } } } := by
  have hUserEq : st.user = { dir := st.user.dir, userCtx := some { key := key, iv := iv } } := by
    rw [← hUser]
  unfold privHandleEncPacket
  dsimp only
  rw [hLen, if_neg (by omega), Int.toNat_natCast, hData, hUserEq, userPrivCrypt_eq,
    ctrCrypt_ctrCrypt (by decide)]

/-- With the handler the last URB completes the packet decrypted. -/
theorem DevInv.reap_last_secured (h : DevInv aes key st (r :: rs))
    (hPacket : r.aurb.packet = some p) (hLast : r.aurb.more = false) (hOn : st.handler = true)
    (hStatus : r.status = 0) (stack : Nat → AesBlock) :
    let t := privHandleEncPacket aes stack (st.setPacket p ((st.packets p).add r)) p
    t.crashed = st.crashed ∧ DevInv aes key { usbPacketComplete t p with received := [] } rs := by
  obtain ⟨iv, hUser, hStep⟩ := h.inStep
  obtain ⟨cur, hQueue⟩ := h.queue
  obtain ⟨hOffset, hGathers, _⟩ := hQueue.head hPacket
  have hAdd := hGathers.add hStatus hOffset
  -- all parts of the packet have been encrypted, one after the other
  have hEnc : ∀ r' ∈ st.received ++ [r], r'.encrypted = true := by
    intro r' hr'
    rcases List.mem_append.mp hr' with hr' | hr'
    · exact h.encrypted_of_status hOn (mem_append_left _ hr') (h.received r' hr').1
    · obtain rfl := List.mem_singleton.mp hr'
      exact h.encrypted_of_status hOn (mem_append_right _ mem_cons_self) hStatus
  have hBlocks : ∀ r' ∈ st.received, 16 ∣ r'.data.length := by
    intro r' hr'
    rw [(h.received r' hr').2]
    decide
  obtain ⟨hBytes, hRest⟩ := hStep.message hEnc hBlocks
  have hSize : ((st.received ++ [r]).flatMap DoneURB.bytes).length =
      ((st.received ++ [r]).flatMap DoneURB.data).length := by
    rw [hBytes]
    exact length_ctrCrypt (by decide) _
  have hEq := @privHandleEncPacket_eq aes key (st.setPacket p ((st.packets p).add r)) p iv
    ((st.received ++ [r]).flatMap DoneURB.data) stack hUser
    (by rw [PrivUSBDevice.packets_setPacket_self, hAdd.len, hSize])
    (by rw [PrivUSBDevice.packets_setPacket_self, ← hSize, hAdd.data, hBytes])
  have hTail : ∀ r' ∈ rs, r' ∈ st.received ++ r :: rs := fun r' hr' =>
    mem_append_right _ (mem_cons_of_mem _ hr')
  dsimp only
  rw [hEq]
  refine ⟨rfl, h.kern_key, ⟨_, rfl, hRest⟩, fun _ r' hr' => h.secured hOn r' (hTail r' hr'),
    fun hOff => ?_, fun r' hr' => h.live r' (mem_cons_of_mem _ hr'),
    fun r' hr' => h.whole r' (mem_cons_of_mem _ hr'), (fun _ hr' => nomatch hr'),
    ⟨none, hQueue.last hPacket hLast rfl ?_ rfl⟩, ?_⟩
  · rw [show st.handler = false from hOff] at hOn
    cases hOn
  · intro q hq
    exact (PrivUSBDevice.packets_setPacket_of_ne _ hq _).trans
      (PrivUSBDevice.packets_setPacket_of_ne st hq _)
  · intro g hg
    rcases List.mem_cons.mp hg with rfl | hg
    · dsimp only
      rw [PrivUSBDevice.packets_setPacket_self, PrivUSBDevice.packets_setPacket_self]
      intro _
      dsimp only
      rw [hAdd.len, Int.toNat_natCast, hSize, hAdd.sent]
      exact List.take_left' rfl
    · exact h.guest g hg

/-- **One URB is reaped**: what reaches the guest is what the device sent, and the
ends stay in step unless QEMU crashes. -/
theorem DevInv.reapUrb (h : DevInv aes key st (r :: rs)) (hRuns : st.crashed = false)
    (stack : Nat → AesBlock) :
    (∀ g ∈ (Usb.reapUrb aes stack st r).guest, g.content.Carries) ∧
      ((Usb.reapUrb aes stack st r).crashed = false →
        DevInv aes key (Usb.reapUrb aes stack st r) rs) := by
  cases hPacket : r.aurb.packet with
  | none =>
    rw [reapUrb_dead hRuns hPacket]
    exact ⟨h.guest, fun _ => h.reap_dead hPacket⟩
  | some p =>
    by_cases hMore : r.aurb.more = true
    · have hInv := h.reap_more hPacket hMore
      rw [reapUrb_more hRuns hPacket hMore]
      exact ⟨hInv.guest, fun _ => hInv⟩
    have hLast := eq_false_of_ne_true hMore
    by_cases hOn : st.handler = true
    · rw [reapUrb_secured hRuns hPacket hLast hOn]
      by_cases hStatus : r.status = 0
      · obtain ⟨hUp, hInv⟩ := h.reap_last_secured hPacket hLast hOn hStatus stack
        dsimp only
        rw [hUp, hRuns, if_neg Bool.false_ne_true]
        exact ⟨hInv.guest, fun _ => hInv⟩
      · have hNeg : ((st.setPacket p ((st.packets p).add r)).packets p).len < 0 := by
          rw [PrivUSBDevice.packets_setPacket_self]
          exact lenAfter_neg hStatus
        dsimp only
        rw [privHandleEncPacket, if_pos hNeg, if_pos rfl]
        exact ⟨h.guest, fun hNot => nomatch hNot⟩
    · have hInv := h.reap_last_plain hPacket hLast (eq_false_of_ne_true hOn)
      rw [reapUrb_plain hRuns hPacket hLast (eq_false_of_ne_true hOn)]
      exact ⟨hInv.guest, fun _ => hInv⟩

end Reap

/-! ## `async_complete` -/

section Steps

variable {aes : List UInt8 → BlockStream 128 16} {key : List UInt8} {st t : PrivUSBDevice}
  {rs : List DoneURB}

structure SameHost (st t : PrivUSBDevice) : Prop where
  kern : t.kern = st.kern
  connected : t.connected = st.connected
  handler : t.handler = st.handler
  pending : t.pending = st.pending
  completed : t.completed = st.completed

theorem SameHost.refl (st : PrivUSBDevice) : SameHost st st := ⟨rfl, rfl, rfl, rfl, rfl⟩

theorem SameHost.trans {u : PrivUSBDevice} (h : SameHost st t) (h' : SameHost t u) :
    SameHost st u :=
  ⟨h'.kern.trans h.kern, h'.connected.trans h.connected, h'.handler.trans h.handler,
    h'.pending.trans h.pending, h'.completed.trans h.completed⟩

theorem reapUrb_sameHost (stack : Nat → AesBlock) (st : PrivUSBDevice) (r : DoneURB) :
    SameHost st (reapUrb aes stack st r) := by
  have hHandle : ∀ st p, SameHost st (privHandleEncPacket aes stack st p) := by
    intro st p
    unfold privHandleEncPacket
    dsimp only
    split
    · exact ⟨rfl, rfl, rfl, rfl, rfl⟩
    · exact ⟨rfl, rfl, rfl, rfl, rfl⟩
  unfold reapUrb
  split
  · exact .refl st
  split
  · exact .refl st
  rename_i p _
  dsimp only
  split
  · exact ⟨rfl, rfl, rfl, rfl, rfl⟩
  have hSet : SameHost st (st.setPacket p ((st.packets p).add r)) := ⟨rfl, rfl, rfl, rfl, rfl⟩
  split
  · have hSame := hSet.trans (hHandle _ p)
    split
    · exact hSame
    · exact ⟨hSame.kern, hSame.connected, hSame.handler, hSame.pending, hSame.completed⟩
  · split
    · exact hSet
    · exact ⟨rfl, rfl, rfl, rfl, rfl⟩

theorem reapUrb_crashed (stack : Nat → AesBlock) (h : st.crashed = true) (r : DoneURB) :
    reapUrb aes stack st r = st := by
  rw [reapUrb, if_pos h]

/-- **All URBs are reaped**, one by one. -/
theorem reapAll (stack : Nat → AesBlock) (rs : List DoneURB) {st : PrivUSBDevice}
    (h : DevInv aes key st rs) (hRuns : st.crashed = false) :
    SameHost st (rs.foldl (reapUrb aes stack) st) ∧
      (∀ g ∈ (rs.foldl (reapUrb aes stack) st).guest, g.content.Carries) ∧
      ((rs.foldl (reapUrb aes stack) st).crashed = false →
        DevInv aes key (rs.foldl (reapUrb aes stack) st) []) := by
  induction rs generalizing st with
  | nil => exact ⟨.refl st, h.guest, fun _ => h⟩
  | cons r rs ih =>
    have hSame := @reapUrb_sameHost aes stack st r
    obtain ⟨hGuest, hInv⟩ := h.reapUrb hRuns stack
    rw [foldl_cons]
    cases hCrash : (reapUrb aes stack st r).crashed with
    | false =>
      obtain ⟨hRest, hAll⟩ := ih (hInv hCrash) hCrash
      exact ⟨hSame.trans hRest, hAll⟩
    | true =>
      -- the loop is over: nothing changes any more
      have hStop := List.foldl_fixed' (@reapUrb_crashed aes _ stack hCrash) rs
      rw [hStop]
      exact ⟨hSame, hGuest, fun hNot => by rw [hCrash] at hNot; cases hNot⟩

theorem QueueInv.congr {cur : Option (Nat × Nat)} (h : QueueInv st rs cur)
    (hPending : t.pending = st.pending) (hPackets : t.packets = st.packets)
    (hReceived : t.received = st.received) : QueueInv t rs cur := by
  refine ⟨?_, ?_, ?_, ?_, ?_⟩
  · rw [hPending]
    exact h.chained
  · rw [hReceived]
    exact h.idle
  · rw [hReceived, hPackets]
    exact h.gathers
  · rw [hReceived]
    exact h.begun
  · rw [hPending, hPackets]
    exact h.fresh

theorem asyncComplete_inv (stack : Nat → AesBlock) (h : DevInv aes key st st.completed)
    (hRuns : st.crashed = false) :
    SameHost { st with completed := [] } (asyncComplete aes stack st) ∧
      (∀ g ∈ (asyncComplete aes stack st).guest, g.content.Carries) ∧
      ((asyncComplete aes stack st).crashed = false →
        DevInv aes key (asyncComplete aes stack st) []) := by
  obtain ⟨cur, hQueue⟩ := h.queue
  exact reapAll stack st.completed
    ⟨h.kern_key, h.inStep, h.secured, h.plain, h.live, h.whole, h.received,
      ⟨cur, hQueue.congr rfl rfl rfl⟩, h.guest⟩ hRuns

end Steps

end Lacuna.Usb
