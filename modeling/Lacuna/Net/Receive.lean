import Lacuna.Lib.Trace
import Lacuna.Net.Gather

/-!
# Packets from the tap device

`tap_send` of `net/tap.c` reads packets from the device into `s->buf`, has
`priv_crypt_packet` decrypt the frame, and passes it on. The device puts
`host_vnet_hdr_len` bytes before the frame; `tap_send` looks for the frame 10 bytes
into the buffer, whatever that length is, and takes 10 from the size, whatever that
was.

`Touches` are the bytes that `priv_crypt_packet` reads or writes; it changes no other
one (`privCryptPacket_untouched`).
-/

namespace Lacuna.Net

open Lacuna.Lib Lacuna.Crypt

/-! ## The bytes that are looked at -/

def matchLen : List UInt8 → List UInt8 → Nat
  | x :: xs, y :: ys => if x = y then matchLen xs ys + 1 else 0
  | _, _ => 0

/-- The bytes that `get_nic_with_mac` reads at `addr`: for each NIC up to the first
that differs, and no further NIC if none does. -/
def macReads (mem : Mem) (addr : Nat) : List NICInfo → List Nat
  | [] => []
  | ni :: rest =>
    let j := matchLen ni.macaddr.val (load mem addr MAC_LEN)
    (List.range (min (j + 1) MAC_LEN)).map (addr + ·) ++
      if j = MAC_LEN then [] else macReads mem addr rest

/-- `priv_crypt_packet` reads or writes the byte at `a`. -/
def Touches (s : Vm) (len base : Nat) (dirIn : Bool) (a : Nat) : Prop :=
  a ∈ macReads s.mem (base + macPos dirIn) s.ndTable ∨
    ∃ r, findCctx s.ndTable (load s.mem (base + macPos dirIn) MAC_LEN) dirIn = some r ∧
      (a = base + TYPE_BYTE_POS ∨
        DATA_START_POS ≤ len ∧ r.2.userCtx.isSome ∧ base + DATA_START_POS ≤ a ∧ a < base + len)

section Touches

variable {aes : List UInt8 → BlockStream 128 16} {last : AesBlock} {s : Vm} {len base : Nat}
  {dirIn : Bool}

theorem userPrivCrypt_none (dir : Dir) (data : List UInt8) :
    userPrivCrypt aes last ⟨dir, none⟩ data = (-PRIV_CRYPT_SOME_ERR, data, ⟨dir, none⟩) := by
  cases dir <;> rfl

theorem privCryptPacket_none
    (h : findCctx s.ndTable (load s.mem (base + macPos dirIn) MAC_LEN) dirIn = none) :
    privCryptPacket aes last len base dirIn s = (0, s) := by
  rw [privCryptPacket, h]

/-- **What is not touched is not changed.** -/
theorem privCryptPacket_untouched {a : Nat} (h : ¬ Touches s len base dirIn a) :
    (privCryptPacket aes last len base dirIn s).2.mem a = s.mem a := by
  unfold privCryptPacket
  cases hFind : findCctx s.ndTable (load s.mem (base + macPos dirIn) MAC_LEN) dirIn with
  | none => rfl
  | some r =>
    obtain ⟨i, dir, userCtx⟩ := r
    have hType : a ≠ base + TYPE_BYTE_POS := fun hEq => h (.inr ⟨_, hFind, .inl hEq⟩)
    have hOld : store s.mem (base + TYPE_BYTE_POS)
        [s.mem (base + TYPE_BYTE_POS) + typeStep dirIn] a = s.mem a := store_singleton_of_ne hType
    dsimp only
    split
    · exact hOld
    · rename_i hLen
      refine Eq.trans ?_ hOld
      cases userCtx with
      | none =>
        rw [userPrivCrypt_none]
        dsimp only
        rw [store_load]
      | some st =>
        rw [userPrivCrypt_eq]
        by_cases hLow : a < base + DATA_START_POS
        · exact store_of_lt hLow
        · refine store_of_le ?_
          rw [length_ctrCrypt (by decide : 0 < 16), length_load]
          have hHigh : ¬ a < base + len := fun hLt => h (.inr ⟨_, hFind, Or.inr
            ⟨Nat.not_lt.mp hLen, rfl, Nat.not_lt.mp hLow, hLt⟩⟩)
          omega

end Touches

/-! ## `tap_send` -/

def TAP_BUFSIZE : Nat := 4096 + 65536
def PACKET_START_POS : Nat := 10

/-- A turn of the loop of `tap_send`, with what `tap_read_packet` has read. -/
structure RxTurn where
  hostVnetHdrLen : Nat
  usingVnetHdr : Bool
  packet : List UInt8
  length_pos : 1 ≤ packet.length
  length_le : packet.length ≤ TAP_BUFSIZE

namespace RxTurn

def frame (t : RxTurn) : List UInt8 := t.packet.drop t.hostVnetHdrLen

/-- `size - packet_start_pos`, as `priv_crypt_packet` takes it. -/
def len (t : RxTurn) : Nat := sizeT ((t.packet.length : Int) - PACKET_START_POS)

section Turn

variable (aes : List UInt8 → BlockStream 128 16) (last : AesBlock)
  -- the address of `s->buf`
  (buf : Nat)

def received (t : RxTurn) (s : Vm) : Vm := { s with mem := store s.mem buf t.packet }

/-- One turn of `tap_send`: what is given to `qemu_send_packet_async`, if anything, and the
state. -/
def run (t : RxTurn) (s : Vm) : Option (Nat × Int) × Vm :=
  let r := privCryptPacket aes last t.len (buf + PACKET_START_POS) true (t.received buf s)
  (if r.1 < 0 then none
    else if t.hostVnetHdrLen ≠ 0 ∧ t.usingVnetHdr = false then
      some (buf + t.hostVnetHdrLen, (t.packet.length : Int) - t.hostVnetHdrLen)
    else some (buf, t.packet.length),
    r.2)

def Step (s : Vm) (t : RxTurn) (s' : Vm) : Prop := s' = (t.run aes last buf s).2

/-- For each packet what `qemu_send_packet_async` returns, and `qemu_can_send_packet` afterwards.
A packet that cannot be decrypted is dropped. -/
def tapSend : List (RxTurn × Int × Bool) → Vm → Trace Vm RxTurn
  | [], _ => []
  | (t, sent, canSend) :: rest, s =>
    let r := t.run aes last buf s
    let size := if r.1.isSome then sent else t.packet.length
    (t, r.2) :: if 0 < size ∧ canSend then tapSend rest r.2 else []

structure Correct (t : RxTurn) (s : Vm) : Prop where
  /-- the frame is looked for behind the header -/
  located : buf + PACKET_START_POS = buf + t.hostVnetHdrLen
  /-- it is decrypted if it is for a NIC with a context -/
  decrypts : ∀ i dir st, findCctx s.ndTable (frameMac true t.frame) true = some (i, ⟨dir, some st⟩) →
    (t.run aes last buf s).2.mem = store (t.received buf s).mem (buf + t.hostVnetHdrLen)
      (cryptFrame aes true st t.frame).1
  /-- and left alone if it is for none -/
  leaves : findCctx s.ndTable (frameMac true t.frame) true = none →
    (t.run aes last buf s).2.mem = (t.received buf s).mem
  /-- nothing is touched that has not been received -/
  within : ∀ a, Touches (t.received buf s) t.len (buf + PACKET_START_POS) true a →
    buf ≤ a ∧ a < buf + t.packet.length

/-- The header has the length taken for granted. Behind it there is an Ethernet header; or the
packet is for no NIC, and holds what has to be compared to see that. -/
def Fits (t : RxTurn) (s : Vm) : Prop :=
  t.hostVnetHdrLen = PACKET_START_POS ∧
    (PACKET_START_POS + DATA_START_POS ≤ t.packet.length ∨
      findCctx s.ndTable (load (t.received buf s).mem (buf + PACKET_START_POS) MAC_LEN) true = none ∧
        ∀ a ∈ macReads (t.received buf s).mem (buf + PACKET_START_POS) s.ndTable,
          a < buf + t.packet.length)

end Turn

end RxTurn

section Turn

variable {aes : List UInt8 → BlockStream 128 16} {last : AesBlock} {buf : Nat} {t : RxTurn} {s : Vm}

theorem RxTurn.len_eq (h : PACKET_START_POS ≤ t.packet.length) :
    t.len = t.packet.length - PACKET_START_POS := by
  have hLe := t.length_le
  unfold RxTurn.len sizeT
  simp only [PACKET_START_POS, TAP_BUFSIZE] at h hLe ⊢
  omega

theorem RxTurn.load_received (n : Nat) (h : PACKET_START_POS + n ≤ t.packet.length) :
    load (t.received buf s).mem (buf + PACKET_START_POS) n =
      (t.packet.drop PACKET_START_POS).take n := by
  have hAll := load_store_self s.mem buf t.packet
  rw [← hAll]
  show load (store s.mem buf t.packet) _ n = _
  rw [hAll, ← hAll, drop_load _ _ (by omega), take_load _ _ (by omega), hAll]

theorem findCctx_of_length_ne {ndTable : List NICInfo} {addr : List UInt8} (dirIn : Bool)
    (h : addr.length ≠ MAC_LEN) : findCctx ndTable addr dirIn = none := by
  have hNone : getNicWithMac ndTable addr = none := by
    refine List.findIdx?_eq_none_iff.mpr fun ni _ => decide_eq_false fun hEq => h ?_
    rw [← hEq]
    exact ni.macaddr.property
  simp only [findCctx, hNone]
  rfl

theorem mem_macReads {mem : Mem} {addr a : Nat} {ndTable : List NICInfo}
    (h : a ∈ macReads mem addr ndTable) : addr ≤ a ∧ a < addr + MAC_LEN := by
  induction ndTable with
  | nil => cases h
  | cons ni rest ih =>
    rw [macReads] at h
    rcases List.mem_append.mp h with hHere | hRest
    · obtain ⟨j, hj, rfl⟩ := List.mem_map.mp hHere
      have hLt := List.mem_range.mp hj
      exact ⟨Nat.le_add_right .., by omega⟩
    · split at hRest
      · cases hRest
      · exact ih hRest

theorem RxTurn.correct_of_whole (hHdr : t.hostVnetHdrLen = PACKET_START_POS)
    (hLen : PACKET_START_POS + DATA_START_POS ≤ t.packet.length) : t.Correct aes last buf s := by
  have hStart : PACKET_START_POS ≤ t.packet.length := Nat.le_trans (Nat.le_add_right ..) hLen
  have hFrameLen : DATA_START_POS ≤ t.packet.length - PACKET_START_POS := by omega
  have hFrame : load (t.received buf s).mem (buf + PACKET_START_POS)
      (t.packet.length - PACKET_START_POS) = t.frame := by
    rw [RxTurn.load_received _ (by omega), RxTurn.frame, hHdr, ← List.length_drop, List.take_length]
  refine ⟨by rw [hHdr], fun i dir st hFind => ?_, fun hNone => ?_, fun a hTouch => ?_⟩
  · rw [← hFrame] at hFind
    rw [RxTurn.run, RxTurn.len_eq hStart, privCryptPacket_frame hFrameLen hFind, hFrame, hHdr]
  · rw [← hFrame, ← load_mac _ _ hFrameLen] at hNone
    rw [RxTurn.run, privCryptPacket_none hNone]
  · rw [RxTurn.len_eq hStart] at hTouch
    simp only [PACKET_START_POS, DATA_START_POS] at hLen hTouch ⊢
    rcases hTouch with hRead | ⟨r, -, rfl | ⟨-, -, hLow, hHigh⟩⟩
    · have hMac := mem_macReads hRead
      simp only [macPos, MAC_LEN, ↓reduceIte] at hMac
      omega
    · simp only [TYPE_BYTE_POS]
      omega
    · omega

theorem RxTurn.correct_of_none (hHdr : t.hostVnetHdrLen = PACKET_START_POS)
    (hNone : findCctx s.ndTable (load (t.received buf s).mem (buf + PACKET_START_POS) MAC_LEN) true =
      none)
    (hReads : ∀ a ∈ macReads (t.received buf s).mem (buf + PACKET_START_POS) s.ndTable,
      a < buf + t.packet.length) : t.Correct aes last buf s := by
  have hRun : (t.run aes last buf s).2 = t.received buf s := by
    rw [RxTurn.run, privCryptPacket_none hNone]
  refine ⟨by rw [hHdr], fun i dir st hFind => ?_, fun _ => by rw [hRun], fun a hTouch => ?_⟩
  · -- with fewer than six bytes there is no address, with six it is the one compared
    by_cases hMac : (frameMac true t.frame).length = MAC_LEN
    · have hLen : PACKET_START_POS + MAC_LEN ≤ t.packet.length := by
        rw [frameMac, List.length_take, List.length_drop, RxTurn.frame, List.length_drop, hHdr] at hMac
        simp only [macPos, MAC_LEN, PACKET_START_POS, ↓reduceIte] at hMac ⊢
        omega
      rw [RxTurn.load_received _ hLen, ← hHdr] at hNone
      cases hFind.symm.trans hNone
    · cases hFind.symm.trans (findCctx_of_length_ne true hMac)
  · rcases hTouch with hRead | ⟨r, hSome, -⟩
    · have hLow := (mem_macReads hRead).1
      exact ⟨by omega, hReads a hRead⟩
    · cases hSome.symm.trans hNone

/-- **One packet.** -/
theorem RxTurn.correct_iff : t.Correct aes last buf s ↔ t.Fits buf s := by
  constructor
  · intro h
    have hHdr : t.hostVnetHdrLen = PACKET_START_POS := (Nat.add_left_cancel h.located).symm
    refine ⟨hHdr, ?_⟩
    by_cases hLen : PACKET_START_POS + DATA_START_POS ≤ t.packet.length
    · exact .inl hLen
    refine .inr ⟨?_, fun a hRead => (h.within a (.inl hRead)).2⟩
    -- the byte of the type would be touched
    cases hFind : findCctx s.ndTable
        (load (t.received buf s).mem (buf + PACKET_START_POS) MAC_LEN) true with
    | none => rfl
    | some r =>
      have hType := (h.within _ (.inr ⟨r, hFind, .inl rfl⟩)).2
      simp only [PACKET_START_POS, DATA_START_POS, TYPE_BYTE_POS] at hType hLen
      omega
  · rintro ⟨hHdr, hLen | ⟨hNone, hReads⟩⟩
    · exact RxTurn.correct_of_whole hHdr hLen
    · exact RxTurn.correct_of_none hHdr hNone hReads

theorem isTrace_tapSend (reads : List (RxTurn × Int × Bool)) (s : Vm) :
    IsTrace (RxTurn.Step aes last buf) s (RxTurn.tapSend aes last buf reads s) := by
  induction reads generalizing s with
  | nil => trivial
  | cons r rest ih =>
    obtain ⟨t, sent, canSend⟩ := r
    refine ⟨rfl, ?_⟩
    by_cases hNext : 0 < (if (t.run aes last buf s).1.isSome then sent else t.packet.length) ∧
        canSend = true
    · rw [if_pos hNext]
      exact ih _
    · rw [if_neg hNext]
      trivial

/-- Outside `s->buf` a packet of at least ten bytes changes nothing. -/
theorem RxTurn.run_outside {a : Nat} (h : PACKET_START_POS ≤ t.packet.length)
    (ha : a < buf ∨ buf + TAP_BUFSIZE ≤ a) : (t.run aes last buf s).2.mem a = s.mem a := by
  have hLe := t.length_le
  have hLen := t.len_eq h
  -- with ten bytes the length did not wrap: all it covers is in the packet
  have hNot : ¬ Touches (t.received buf s) t.len (buf + PACKET_START_POS) true a := by
    simp only [PACKET_START_POS, TAP_BUFSIZE] at h hLe hLen ha ⊢
    rintro (hRead | ⟨r, -, hType | ⟨-, -, hLow, hHigh⟩⟩)
    · have hMac := mem_macReads hRead
      simp only [macPos, MAC_LEN, if_true] at hMac
      omega
    · simp only [TYPE_BYTE_POS] at hType
      omega
    · omega
  refine (privCryptPacket_untouched hNot).trans ?_
  rcases ha with hLow | hHigh
  · exact store_of_lt hLow
  · exact store_of_le (by omega)

/-- **Confinement.** However many packets a call of `tap_send` reads, it changes nothing outside
`s->buf` as long as each has at least ten bytes. -/
theorem tapSend_confined {turns : List (RxTurn × Int × Bool)} {a : Nat}
    (hLong : ∀ t ∈ turns, PACKET_START_POS ≤ t.1.packet.length)
    (ha : a < buf ∨ buf + TAP_BUFSIZE ≤ a) :
    (lastState s (RxTurn.tapSend aes last buf turns s)).mem a = s.mem a := by
  induction turns generalizing s with
  | nil => rfl
  | cons turn rest ih =>
    obtain ⟨t, sent, canSend⟩ := turn
    have hRun := @RxTurn.run_outside aes last buf t s a (hLong _ List.mem_cons_self) ha
    have hRest := (ih fun t ht => hLong t (List.mem_cons_of_mem _ ht)).trans hRun
    rw [RxTurn.tapSend]
    dsimp only [lastState]
    split_ifs
    exacts [hRest, hRun, hRest, hRun]

/-- **Packets from the device**, in any number and one after the other. -/
theorem rx_correct_iff {tr : Trace Vm RxTurn} (hTr : IsTrace (RxTurn.Step aes last buf) s tr) :
    EachStep (fun s t => t.Correct aes last buf s) s tr ↔
      EachStep (fun s t => t.Fits buf s) s tr :=
  eachStep_iff_of_inv
    (fun _ _ _ (_ : True) _ hFits => ⟨RxTurn.correct_iff.mpr hFits, trivial⟩)
    (fun _ _ _ _ _ hCorrect => RxTurn.correct_iff.mp hCorrect) trivial hTr

end Turn

theorem length_rxMac : [(2 : UInt8), 0, 0, 0, 0, 1].length = 6 := rfl

def rxVm : Vm where
  mem := fun _ => 0
  ndTable := [⟨⟨[2, 0, 0, 0, 0, 1], length_rxMac⟩, some ⟨.dec, some ⟨[7], 0⟩⟩, none⟩]

/-- The beginning of a frame for the NIC, behind so many bytes. -/
def rxPacket (hdr n : Nat) : List UInt8 :=
  List.replicate hdr 0 ++ [2, 0, 0, 0, 0, 1, 1, 1, 1, 1, 1, 1, 8, 1, 5, 6].take n

def wholeTurn : RxTurn := ⟨10, true, rxPacket 10 16, by decide, by decide⟩

def bareTurn : RxTurn := ⟨0, false, rxPacket 0 16, by decide, by decide⟩

def shortTurn : RxTurn := ⟨10, true, rxPacket 10 6, by decide, by decide⟩

theorem rx_sample :
    ∃ tr : Trace Vm RxTurn, tr.map Prod.fst = [wholeTurn] ∧
      EachStep (fun s t => t.Correct onesCipher ⟨List.replicate 16 0, rfl⟩ 0 s) rxVm tr ∧
      load (lastState rxVm tr).mem 22 4 = [8, 0, 0xfa, 0xf9] := by
  have hTr : IsTrace (RxTurn.Step onesCipher ⟨List.replicate 16 0, rfl⟩ 0) rxVm [(wholeTurn, _)] :=
    ⟨rfl, trivial⟩
  exact ⟨_, rfl, (rx_correct_iff hTr).mpr ⟨⟨rfl, Or.inl (by decide)⟩, trivial⟩, by decide +kernel⟩

theorem tapSend_confined_sample :
    (lastState rxVm (RxTurn.tapSend onesCipher ⟨List.replicate 16 0, rfl⟩ 0
      [(wholeTurn, 26, true), (bareTurn, 16, true)] rxVm)).mem TAP_BUFSIZE = 0 :=
  tapSend_confined (by decide) (Or.inr (by decide))

/-- A frame that does not stand at the tenth byte is passed on as it is. Of a packet of 16
bytes, the byte at 23 is changed; one of a single byte is taken for one of 2⁶⁴ − 9. -/
theorem rx_wrong_bytes :
    (∃ tr : Trace Vm RxTurn, tr.map Prod.fst = [bareTurn] ∧
      IsTrace (RxTurn.Step onesCipher ⟨List.replicate 16 0, rfl⟩ 0) rxVm tr ∧
      load (lastState rxVm tr).mem 12 4 = [8, 1, 5, 6] ∧
      ¬ EachStep (fun s t => t.Correct onesCipher ⟨List.replicate 16 0, rfl⟩ 0 s) rxVm tr) ∧
    (∃ tr : Trace Vm RxTurn, tr.map Prod.fst = [shortTurn] ∧
      IsTrace (RxTurn.Step onesCipher ⟨List.replicate 16 0, rfl⟩ 0) rxVm tr ∧
      (lastState rxVm tr).mem 23 = 255 ∧
      ¬ EachStep (fun s t => t.Correct onesCipher ⟨List.replicate 16 0, rfl⟩ 0 s) rxVm tr) ∧
    RxTurn.len ⟨10, true, [0], by decide, by decide⟩ = 2 ^ 64 - 9 := by
  refine ⟨⟨[(_, _)], rfl, ⟨rfl, trivial⟩, by decide +kernel, fun hAll => ?_⟩,
    ⟨[(_, _)], rfl, ⟨rfl, trivial⟩, by decide +kernel, fun hAll => ?_⟩, by decide⟩
  · exact absurd hAll.1.located (by decide)
  · have hFind : findCctx rxVm.ndTable (load (shortTurn.received 0 rxVm).mem (0 + PACKET_START_POS)
        MAC_LEN) true = some (0, ⟨.dec, some ⟨[7], 0⟩⟩) := by decide +kernel
    exact absurd (hAll.1.within 23 (Or.inr ⟨_, hFind, Or.inl rfl⟩)).2 (by decide)

end Lacuna.Net
