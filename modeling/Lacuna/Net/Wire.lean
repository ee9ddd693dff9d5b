import Lacuna.Net.E1000

/-!
# Frames between the wire and the guest

A frame for a private card goes through `e1000_receive_skb` in the host kernel
and through `priv_crypt_packet` in QEMU, a frame from it the other way round.
`Linked` says that the two programs know the same cards, with contexts that
share key and counter. It is kept, and frames are restored, as long as no private
frame has bytes in pages (`frames_restored_iff`).
-/

namespace Lacuna.Net

open Lacuna.Lib Lacuna.Crypt List

/-! ## The two programs -/

abbrev Frame := { f : List UInt8 // ETH_HLEN ≤ f.length }

/-- An skb for the frame, with the bytes from `cut` on in pages; the header never
is. -/
def Frame.split (f : Frame) (cut : Nat) : Skb where
  linear := f.val.take (max cut ETH_HLEN)
  paged := f.val.drop (max cut ETH_HLEN)
  header := by
    rw [List.length_take]
    exact Nat.le_min.mpr ⟨Nat.le_max_right _ _, f.2⟩

def Skb.toFrame (skb : Skb) : Frame :=
  ⟨skb.frame, Nat.le_trans skb.header (by rw [frame, List.length_append]; exact Nat.le_add_right _ _)⟩

structure NetEnds where
  host : Privnet
  vm : Vm

structure Carried where
  dirIn : Bool
  frame : Frame
  /-- where the pages of its skb begin -/
  cut : Nat
  /-- where QEMU has it in memory -/
  base : Nat
  last : AesBlock

/-- What becomes of it: between the two programs, and at the end. -/
structure Delivered where
  between : Frame
  delivered : Frame
  ends : NetEnds

section Carry

variable (aes : List UInt8 → BlockStream 128 16)

/-- `priv_crypt_packet` on a frame that QEMU holds at `base`. -/
def tapCrypt (last : AesBlock) (base : Nat) (dirIn : Bool) (f : Frame) (vm : Vm) : Frame × Vm :=
  let r := privCryptPacket aes last f.val.length base dirIn
    { vm with mem := store vm.mem base f.val }
  (⟨load r.2.mem base f.val.length, by rw [length_load]; exact f.2⟩, r.2)

def carry (s : NetEnds) (ev : Carried) : Delivered :=
  if ev.dirIn then
    let r := e1000ReceiveSkb (.ctr aes) s.host (ev.frame.split ev.cut)
    let q := tapCrypt aes ev.last ev.base true r.1.toFrame s.vm
    ⟨r.1.toFrame, q.1, ⟨r.2, q.2⟩⟩
  else
    let q := tapCrypt aes ev.last ev.base false ev.frame s.vm
    let r := e1000TxQueue (.ctr aes) s.host (q.1.split ev.cut)
    ⟨q.1, r.1.toFrame, ⟨r.2, q.2⟩⟩

end Carry

def Frame.mac (f : Frame) (dirIn : Bool) : MacAddr :=
  ⟨frameMac dirIn f.val, length_frameMac f.2 dirIn⟩

def Carried.mac (ev : Carried) : MacAddr := ev.frame.mac ev.dirIn

/-! ## Linked ends -/

/-- The kernel's context for a card in a direction and QEMU's. -/
structure TwoEnds (host : Privnet) (ndTable : List NICInfo) (mac : MacAddr) (nid : MacCryptRefs)
    (dirIn : Bool) (c i : Nat) (dir : Dir) (st : AesniState) : Prop where
  ref : host.reg.refs (nid.ref dirIn) = some c
  activated : (host.reg.heap c).activated = true
  qemu : findCctx ndTable mac.val dirIn = some (i, ⟨dir, some st⟩)
  key : st.key = (host.reg.heap c).key
  ctr : st.iv = (host.reg.heap c).ctr

/-- The kernel and QEMU know the same cards, by contexts that share key and
counter, and no context serves twice. -/
structure Linked (host : Privnet) (ndTable : List NICInfo) : Prop where
  foreign : ∀ (mac : MacAddr) dirIn, privnetFindMac host mac.val = none →
    findCctx ndTable mac.val dirIn = none
  ends : ∀ (mac : MacAddr) nid dirIn, privnetFindMac host mac.val = some nid →
    ∃ c i dir st, TwoEnds host ndTable mac nid dirIn c i dir st
  apart : ∀ (mac mac' : MacAddr) nid nid' dirIn dirIn' c, privnetFindMac host mac.val = some nid →
    privnetFindMac host mac'.val = some nid' → host.reg.refs (nid.ref dirIn) = some c →
    host.reg.refs (nid'.ref dirIn') = some c → mac = mac' ∧ dirIn = dirIn'

/-- The counters of the two ends are the same for every card. -/
def InStep (host : Privnet) (ndTable : List NICInfo) : Prop :=
  ∀ (mac : MacAddr) nid dirIn c i dir st, privnetFindMac host mac.val = some nid →
    host.reg.refs (nid.ref dirIn) = some c →
    findCctx ndTable mac.val dirIn = some (i, ⟨dir, some st⟩) → st.iv = (host.reg.heap c).ctr

theorem Linked.inStep {host : Privnet} {ndTable : List NICInfo} (h : Linked host ndTable) :
    InStep host ndTable := by
  intro mac nid dirIn c i dir st hFind hRef hQemu
  obtain ⟨c', i', dir', st', hEnds⟩ := h.ends mac nid dirIn hFind
  have hc : c' = c := Option.some.inj (hEnds.ref.symm.trans hRef)
  have hst : (i', (⟨dir', some st'⟩ : PrivCctx)) = (i, ⟨dir, some st⟩) :=
    Option.some.inj (hEnds.qemu.symm.trans hQemu)
  cases hst
  rw [← hc]
  exact hEnds.ctr

/-- Every frame comes out as it went in, foreign ones untouched on the way, and
the counters stay the same. -/
def Restores (aes : List UInt8 → BlockStream 128 16) : NetEnds → List Carried → Prop
  | _, [] => True
  | s, ev :: evs =>
    (carry aes s ev).delivered = ev.frame ∧
      (privnetFindMac s.host ev.mac.val = none → (carry aes s ev).between = ev.frame) ∧
      InStep (carry aes s ev).ends.host (carry aes s ev).ends.vm.ndTable ∧
      Restores aes (carry aes s ev).ends evs

/-! ## The table of network cards -/

section Table

variable {ndTable : List NICInfo}

variable {addr : List UInt8} {i : Nat}

theorem findIdx?_modify {α : Type} (p : α → Bool) {f : α → α} (hf : ∀ x, p (f x) = p x)
    (l : List α) (i : Nat) : (l.modify i f).findIdx? p = l.findIdx? p := by
  induction l generalizing i with
  | nil => rw [modify_nil]
  | cons x l ih =>
    cases i with
    | zero => rw [modify_zero_cons, List.findIdx?_cons, List.findIdx?_cons, hf]
    | succ i => rw [modify_succ_cons, List.findIdx?_cons, List.findIdx?_cons, ih]

theorem macaddr_of_getNicWithMac {ni : NICInfo}
    (h : getNicWithMac ndTable addr = some i) (hNi : ndTable[i]? = some ni) :
    ni.macaddr.val = addr := by
  obtain ⟨hi, hMac, _⟩ := List.findIdx?_eq_some_iff_getElem.mp h
  rw [List.getElem?_eq_getElem hi] at hNi
  rw [← Option.some.inj hNi]
  exact of_decide_eq_true hMac

theorem findCctx_eq_some {dirIn : Bool} {cctx : PrivCctx} :
    findCctx ndTable addr dirIn = some (i, cctx) ↔ getNicWithMac ndTable addr = some i ∧
      ∃ ni, ndTable[i]? = some ni ∧ ni.cctx dirIn = some cctx := by
  simp only [findCctx, Option.bind_eq_bind, Option.pure_def, Option.bind_eq_some_iff,
    Option.some.injEq, Prod.mk.injEq]
  constructor
  · rintro ⟨j, hj, ni, hNi, k, hk, rfl, rfl⟩
    exact ⟨hj, ni, hNi, hk⟩
  · rintro ⟨hj, ni, hNi, hk⟩
    exact ⟨i, hj, ni, hNi, cctx, hk, rfl, rfl⟩

theorem cctx_setCctx (ni : NICInfo) (dirIn dirIn' : Bool) (cctx : PrivCctx) :
    (ni.setCctx dirIn cctx).cctx dirIn' =
      if dirIn' = dirIn then some cctx else ni.cctx dirIn' := by
  cases dirIn <;> cases dirIn' <;> rfl

theorem findCctx_modify {dirIn : Bool} {old : PrivCctx}
    (hFind : findCctx ndTable addr dirIn = some (i, old)) (cctx : PrivCctx) (addr' : List UInt8)
    (dirIn' : Bool) :
    findCctx (ndTable.modify i (·.setCctx dirIn cctx)) addr' dirIn' =
      if addr' = addr ∧ dirIn' = dirIn then some (i, cctx)
      else findCctx ndTable addr' dirIn' := by
  obtain ⟨hNic, ni, hNi, _⟩ := findCctx_eq_some.mp hFind
  have hMac : ∀ a, getNicWithMac (ndTable.modify i (·.setCctx dirIn cctx)) a =
      getNicWithMac ndTable a := by
    intro a
    refine findIdx?_modify _ (fun x => ?_) ndTable i
    cases dirIn <;> rfl
  unfold findCctx
  rw [hMac]
  cases hNic' : getNicWithMac ndTable addr' with
  | none =>
    have hNe : ¬ (addr' = addr ∧ dirIn' = dirIn) := by
      rintro ⟨rfl, _⟩
      rw [hNic] at hNic'
      cases hNic'
    rw [if_neg hNe]
    rfl
  | some j =>
    simp only [Option.bind_eq_bind, Option.bind_some]
    by_cases hj : i = j
    · subst hj
      -- the same card, so the same address
      have hAddr : addr' = addr := by
        rw [← macaddr_of_getNicWithMac hNic' hNi, macaddr_of_getNicWithMac hNic hNi]
      rw [List.getElem?_modify_eq, hNi]
      show ((ni.setCctx dirIn cctx).cctx dirIn').bind _ = _
      rw [cctx_setCctx]
      by_cases hDir : dirIn' = dirIn
      · rw [if_pos hDir, if_pos ⟨hAddr, hDir⟩]
        rfl
      · rw [if_neg hDir, if_neg fun h => hDir h.2]
        rfl
    · have hNe : ¬ (addr' = addr ∧ dirIn' = dirIn) := by
        rintro ⟨rfl, _⟩
        rw [hNic] at hNic'
        exact hj (Option.some.inj hNic')
      rw [if_neg hNe, List.getElem?_modify_ne _ _ hj]

end Table

/-! ## One end at a time -/

section Ends

variable {aes : List UInt8 → BlockStream 128 16}

theorem tapCrypt_none {last : AesBlock} {base : Nat} {dirIn : Bool} {f : Frame} {vm : Vm}
    (hFind : findCctx vm.ndTable (frameMac dirIn f.val) dirIn = none) :
    (tapCrypt aes last base dirIn f vm).1 = f ∧
      (tapCrypt aes last base dirIn f vm).2.ndTable = vm.ndTable := by
  have hLoad : load (store vm.mem base f.val) base f.val.length = f.val := load_store_self ..
  have hMac := load_mac (store vm.mem base f.val) base f.2 dirIn
  rw [hLoad] at hMac
  have hSkip : privCryptPacket aes last f.val.length base dirIn
      { vm with mem := store vm.mem base f.val } =
        (0, { vm with mem := store vm.mem base f.val }) := by
    simp only [privCryptPacket, hMac, hFind]
  simp only [tapCrypt, hSkip, hLoad]
  exact ⟨trivial, trivial⟩

theorem tapCrypt_some {last : AesBlock} {base : Nat} {dirIn : Bool} {f : Frame} {vm : Vm} {i : Nat}
    {dir : Dir} {st : AesniState}
    (hFind : findCctx vm.ndTable (frameMac dirIn f.val) dirIn = some (i, ⟨dir, some st⟩)) :
    (tapCrypt aes last base dirIn f vm).1.val = (cryptFrame aes dirIn st f.val).1 ∧
      (tapCrypt aes last base dirIn f vm).2.ndTable = vm.ndTable.modify i
        (·.setCctx dirIn ⟨dir, some (cryptFrame aes dirIn st f.val).2⟩) := by
  have hLoad : load (store vm.mem base f.val) base f.val.length = f.val := load_store_self ..
  have hPacket := @privCryptPacket_frame aes last f.val.length base dirIn
    { vm with mem := store vm.mem base f.val } i dir st f.2 (by rw [hLoad]; exact hFind)
  dsimp only at hPacket
  rw [hLoad] at hPacket
  have hLen : (cryptFrame aes dirIn st f.val).1.length = f.val.length := length_cryptFrame f.2
  simp only [tapCrypt, hPacket]
  refine ⟨?_, trivial⟩
  rw [← hLen]
  exact load_store_self ..

theorem cryptSkb_some {dirIn : Bool} {st : Privnet} {skb : Skb} {nid : MacCryptRefs} {c : Nat}
    {q : AesniState} (hFind : privnetFindMac st (skb.mac dirIn).val = some nid)
    (hRef : st.reg.refs (nid.ref dirIn) = some c) (hActive : (st.reg.heap c).activated = true)
    (hKey : q.key = (st.reg.heap c).key) (hCtr : q.iv = (st.reg.heap c).ctr) :
    (cryptSkb (.ctr aes) dirIn st skb).1.linear = (cryptFrame aes (!dirIn) q skb.linear).1 ∧
      (cryptSkb (.ctr aes) dirIn st skb).1.paged = skb.paged ∧
      (cryptSkb (.ctr aes) dirIn st skb).2 = { st with reg := st.reg.modifyCtx c fun k =>
        { k with ctr := (cryptFrame aes (!dirIn) q skb.linear).2.iv } } := by
  have hRun : privCrypt (.ctr aes) (st.reg.heap c) (skb.linear.drop ETH_HLEN) =
      (0, (ctrCrypt (aes q.key) q.iv (skb.linear.drop DATA_START_POS)).1,
        { st.reg.heap c with
          ctr := (ctrCrypt (aes q.key) q.iv (skb.linear.drop DATA_START_POS)).2 }) := by
    rw [privCrypt, if_pos hActive, privCryptLoop_ctr, hKey, hCtr]
    rfl
  simp only [cryptSkb, hFind, privnetCrypt, hRef, hRun, cryptFrame]
  exact ⟨trivial, trivial, rfl⟩

end Ends

/-! ## Both ends -/

theorem Linked.advance {host : Privnet} {ndTable : List NICInfo} (h : Linked host ndTable)
    {mac : MacAddr} {nid : MacCryptRefs} {dirIn : Bool} {c i : Nat} {dir : Dir} {st : AesniState}
    (hFind : privnetFindMac host mac.val = some nid)
    (hEnds : TwoEnds host ndTable mac nid dirIn c i dir st) (ctr : BitVec 128) :
    Linked { host with reg := host.reg.modifyCtx c fun k => { k with ctr := ctr } }
      (ndTable.modify i (·.setCctx dirIn ⟨dir, some { st with iv := ctr }⟩)) := by
  have hQemu := findCctx_modify hEnds.qemu ⟨dir, some { st with iv := ctr }⟩
  refine ⟨?_, ?_, h.apart⟩
  · intro mac' dirIn' hNone
    rw [hQemu, if_neg ?_]
    · exact h.foreign mac' dirIn' hNone
    · rintro ⟨hMac, _⟩
      have hNone' : privnetFindMac host mac'.val = none := hNone
      rw [hMac, hFind] at hNone'
      cases hNone'
  · intro mac' nid' dirIn' hFind'
    by_cases hSame : mac'.val = mac.val ∧ dirIn' = dirIn
    · obtain ⟨hMac, rfl⟩ := hSame
      have hNid : nid' = nid := by
        have hFind'' : privnetFindMac host mac'.val = some nid' := hFind'
        rw [hMac, hFind] at hFind''
        exact (Option.some.inj hFind'').symm
      have hHeap : (host.reg.modifyCtx c fun k => { k with ctr := ctr }).heap c =
          { host.reg.heap c with ctr := ctr } := Function.update_self ..
      refine ⟨c, i, dir, { st with iv := ctr }, hNid ▸ hEnds.ref, ?_, ?_, ?_, ?_⟩
      · rw [hHeap]
        exact hEnds.activated
      · rw [hQemu, if_pos ⟨hMac, rfl⟩]
      · rw [hHeap]
        exact hEnds.key
      · rw [hHeap]
    · obtain ⟨c', i', dir', st', hOld⟩ := h.ends mac' nid' dirIn' hFind'
      have hNe : c' ≠ c := by
        rintro rfl
        obtain ⟨rfl, rfl⟩ := h.apart mac' mac nid' nid dirIn' dirIn c' hFind' hFind hOld.ref hEnds.ref
        exact hSame ⟨rfl, rfl⟩
      have hHeap : (host.reg.modifyCtx c fun k => { k with ctr := ctr }).heap c' =
          host.reg.heap c' := Function.update_of_ne hNe _ _
      refine ⟨c', i', dir', st', hOld.ref, ?_, ?_, ?_, ?_⟩
      · rw [hHeap]
        exact hOld.activated
      · rw [hQemu, if_neg hSame]
        exact hOld.qemu
      · rw [hHeap]
        exact hOld.key
      · rw [hHeap]
        exact hOld.ctr

section Private

variable {aes : List UInt8 → BlockStream 128 16} {s : NetEnds} {nid : MacCryptRefs}
variable {c i : Nat} {dir : Dir} {st : AesniState} {f : Frame} {cut base : Nat} {last : AesBlock}

theorem mac_split (f : Frame) (cut : Nat) (dirIn : Bool) : (f.split cut).mac dirIn = f.mac dirIn := by
  refine Subtype.ext (frameMac_eq_of_take ?_ dirIn)
  have hLe : TYPE_BYTE_POS ≤ max cut ETH_HLEN := Nat.le_trans (by decide) (Nat.le_max_right _ _)
  rw [Frame.split, take_take, Nat.min_eq_left hLe]

theorem mac_cryptFrame {dirIn : Bool} {g : List UInt8} (hLen : ETH_HLEN ≤ g.length)
    (rest : List UInt8) (dirIn' : Bool) :
    frameMac dirIn' ((cryptFrame aes dirIn st g).1 ++ rest) = frameMac dirIn' g := by
  refine frameMac_eq_of_take ?_ dirIn'
  have hOut : (cryptFrame aes dirIn st g).1.length = g.length := length_cryptFrame hLen
  rw [take_append_of_le_length, take_cryptFrame hLen]
  rw [hOut]
  exact Nat.le_trans (by decide) hLen

theorem carry_receive (hFind : privnetFindMac s.host (f.mac true).val = some nid)
    (hEnds : TwoEnds s.host s.vm.ndTable (f.mac true) nid true c i dir st) :
    let r := carry aes s ⟨true, f, cut, base, last⟩
    r.between.val = (cryptFrame aes false st (f.split cut).linear).1 ++ (f.split cut).paged ∧
      r.delivered.val = (cryptFrame aes true st r.between.val).1 ∧
      r.ends.host = { s.host with reg := s.host.reg.modifyCtx c fun k =>
        { k with ctr := (cryptFrame aes false st (f.split cut).linear).2.iv } } ∧
      r.ends.vm.ndTable = s.vm.ndTable.modify i (·.setCctx true
        ⟨dir, some (cryptFrame aes true st r.between.val).2⟩) := by
  intro r
  have hFind' : privnetFindMac s.host ((f.split cut).mac true).val = some nid := by
    rw [mac_split]
    exact hFind
  obtain ⟨hLinear, hPaged, hHost⟩ := @cryptSkb_some aes true s.host (f.split cut) nid c st
    hFind' hEnds.ref hEnds.activated hEnds.key hEnds.ctr
  have hBetween : r.between.val =
      (cryptFrame aes false st (f.split cut).linear).1 ++ (f.split cut).paged :=
    congrArg₂ (· ++ ·) hLinear hPaged
  have hQemu : findCctx s.vm.ndTable (frameMac true r.between.val) true =
      some (i, ⟨dir, some st⟩) := by
    have hMac : frameMac true (f.split cut).linear = (f.mac true).val :=
      congrArg Subtype.val (mac_split f cut true)
    rw [hBetween, mac_cryptFrame (f.split cut).header, hMac]
    exact hEnds.qemu
  obtain ⟨hOut, hTable⟩ := @tapCrypt_some aes last base true r.between s.vm i dir st hQemu
  exact ⟨hBetween, hOut, hHost, hTable⟩

theorem carry_transmit (hFind : privnetFindMac s.host (f.mac false).val = some nid)
    (hEnds : TwoEnds s.host s.vm.ndTable (f.mac false) nid false c i dir st) :
    let r := carry aes s ⟨false, f, cut, base, last⟩
    r.between.val = (cryptFrame aes false st f.val).1 ∧
      r.delivered.val =
        (cryptFrame aes true st (r.between.split cut).linear).1 ++ (r.between.split cut).paged ∧
      r.ends.host = { s.host with reg := s.host.reg.modifyCtx c fun k =>
        { k with ctr := (cryptFrame aes true st (r.between.split cut).linear).2.iv } } ∧
      r.ends.vm.ndTable = s.vm.ndTable.modify i (·.setCctx false
        ⟨dir, some (cryptFrame aes false st f.val).2⟩) := by
  intro r
  obtain ⟨hBetween, hTable⟩ := @tapCrypt_some aes last base false f s.vm i dir st hEnds.qemu
  have hFind' : privnetFindMac s.host ((r.between.split cut).mac false).val = some nid := by
    have hMac : (r.between.mac false).val = (f.mac false).val := by
      show frameMac false r.between.val = frameMac false f.val
      rw [show r.between.val = _ from hBetween, ← append_nil (cryptFrame aes false st f.val).1,
        mac_cryptFrame f.2]
    rw [mac_split, hMac]
    exact hFind
  obtain ⟨hLinear, hPaged, hHost⟩ := @cryptSkb_some aes false s.host (r.between.split cut) nid c st
    hFind' hEnds.ref hEnds.activated hEnds.key hEnds.ctr
  exact ⟨hBetween, congrArg₂ (· ++ ·) hLinear hPaged, hHost, hTable⟩

theorem split_paged_iff : (f.split cut).paged = [] ↔ f.val.length ≤ max cut ETH_HLEN :=
  drop_eq_nil_iff

theorem split_linear (h : (f.split cut).paged = []) : (f.split cut).linear = f.val :=
  take_of_length_le (split_paged_iff.mp h)

theorem Linked.carry_private (h : Linked s.host s.vm.ndTable) {ev : Carried}
    (hFind : privnetFindMac s.host ev.mac.val = some nid)
    (hLinear : (ev.frame.split ev.cut).paged = []) :
    (carry aes s ev).delivered = ev.frame ∧
      Linked (carry aes s ev).ends.host (carry aes s ev).ends.vm.ndTable := by
  obtain ⟨dirIn, f, cut, base, last⟩ := ev
  obtain ⟨c, i, dir, st, hEnds⟩ := h.ends (f.mac dirIn) nid dirIn hFind
  have hBack := @cryptFrame_cryptFrame aes false st f.val f.2
  have hBoth := h.advance hFind hEnds (cryptFrame aes false st f.val).2.iv
  cases dirIn with
  | true =>
    obtain ⟨hBetween, hOut, hHost, hTable⟩ :=
      @carry_receive aes s nid c i dir st f cut base last hFind hEnds
    rw [hLinear, split_linear hLinear, append_nil] at hBetween
    rw [hBetween] at hOut hTable
    rw [split_linear hLinear] at hHost
    rw [show (cryptFrame aes true st _) = _ from hBack] at hOut hTable
    refine ⟨Subtype.ext hOut, ?_⟩
    rw [hHost, hTable]
    exact hBoth
  | false =>
    obtain ⟨hBetween, hOut, hHost, hTable⟩ :=
      @carry_transmit aes s nid c i dir st f cut base last hFind hEnds
    have hPaged : ((carry aes s ⟨false, f, cut, base, last⟩).between.split cut).paged = [] := by
      rw [split_paged_iff, hBetween, length_cryptFrame f.2]
      exact split_paged_iff.mp hLinear
    rw [hPaged, split_linear hPaged, hBetween, append_nil] at hOut
    rw [split_linear hPaged, hBetween] at hHost
    rw [show (cryptFrame aes true st _) = _ from hBack] at hOut hHost
    refine ⟨Subtype.ext hOut, ?_⟩
    rw [hHost, hTable]
    exact hBoth

theorem Linked.carry_foreign (h : Linked s.host s.vm.ndTable) {ev : Carried}
    (hFind : privnetFindMac s.host ev.mac.val = none) :
    (carry aes s ev).delivered = ev.frame ∧ (carry aes s ev).between = ev.frame ∧
      Linked (carry aes s ev).ends.host (carry aes s ev).ends.vm.ndTable := by
  obtain ⟨dirIn, f, cut, base, last⟩ := ev
  have hQemu := h.foreign (f.mac dirIn) dirIn hFind
  obtain ⟨hFrame, hTable⟩ := @tapCrypt_none aes last base dirIn f s.vm hQemu
  have hSkip : cryptSkb (.ctr aes) dirIn s.host (f.split cut) = (f.split cut, s.host) := by
    have hFind' : privnetFindMac s.host ((f.split cut).mac dirIn).val = none := by
      rw [mac_split]
      exact hFind
    simp only [cryptSkb, hFind']
  have hWhole : (f.split cut).toFrame = f := Subtype.ext (take_append_drop _ _)
  cases dirIn with
  | true =>
    have hCarry : carry aes s ⟨true, f, cut, base, last⟩ =
        ⟨f, f, ⟨s.host, (tapCrypt aes last base true f s.vm).2⟩⟩ := by
      simp only [carry, if_true, e1000ReceiveSkb, hSkip, hWhole, hFrame]
    rw [hCarry]
    exact ⟨rfl, rfl, hTable ▸ h⟩
  | false =>
    have hCarry : carry aes s ⟨false, f, cut, base, last⟩ =
        ⟨f, f, ⟨s.host, (tapCrypt aes last base false f s.vm).2⟩⟩ := by
      simp only [carry, Bool.false_eq_true, if_false, e1000TxQueue, hFrame, hSkip, hWhole]
    rw [hCarry]
    exact ⟨rfl, rfl, hTable ▸ h⟩

theorem drop_cryptFrame_ones {dirIn : Bool} {g : List UInt8} (hLen : ETH_HLEN ≤ g.length) {n : Nat}
    (hn : ETH_HLEN ≤ n) :
    (cryptFrame onesCipher dirIn st g).1.drop n = (g.drop n).map (· ^^^ 0xff) := by
  obtain ⟨k, rfl⟩ := Nat.exists_eq_add_of_le hn
  have hPayload : (cryptFrame onesCipher dirIn st g).1.drop ETH_HLEN = _ := drop_cryptFrame hLen
  rw [← drop_drop, ← drop_drop, hPayload, ctrCrypt_onesCipher]
  simp only [map_drop]
  rfl

theorem Linked.carry_paged (h : Linked s.host s.vm.ndTable) {ev : Carried}
    (hFind : privnetFindMac s.host ev.mac.val = some nid)
    (hBack : (carry onesCipher s ev).delivered = ev.frame) :
    (ev.frame.split ev.cut).paged = [] := by
  obtain ⟨dirIn, f, cut, base, last⟩ := ev
  obtain ⟨c, i, dir, st, hEnds⟩ := h.ends (f.mac dirIn) nid dirIn hFind
  have hHead : ETH_HLEN ≤ max cut ETH_HLEN := Nat.le_max_right _ _
  have hTurned := @drop_cryptFrame_ones st false f.val f.2 _ hHead
  by_contra hNe
  have hLong : max cut ETH_HLEN ≤ f.val.length :=
    Nat.le_of_lt (Nat.not_le.mp fun hLe => hNe (split_paged_iff.mpr hLe))
  have hTake : (f.split cut).linear.length = max cut ETH_HLEN := length_take_of_le hLong
  have hNot : f.val.drop (max cut ETH_HLEN) ≠ (f.val.drop (max cut ETH_HLEN)).map (· ^^^ 0xff) := by
    intro hEq
    refine not_shows_map_xor (f.val.drop (max cut ETH_HLEN)) ?_
    rw [← hEq]
    exact shows_self hNe
  cases dirIn with
  | true =>
    obtain ⟨hBetween, hOut, _⟩ :=
      @carry_receive onesCipher s nid c i dir st f cut base last hFind hEnds
    generalize (carry onesCipher s ⟨true, f, cut, base, last⟩).between = between at hBetween hOut
    -- QEMU's end is undone by encrypting again
    have hAgain := @cryptFrame_cryptFrame onesCipher true st between.val between.2
    rw [← hOut, hBack] at hAgain
    have hFrame : (cryptFrame onesCipher false st f.val).1 = between.val := congrArg Prod.fst hAgain
    rw [hFrame, hBetween, List.drop_left' ((length_cryptFrame (f.split cut).header).trans hTake)]
      at hTurned
    exact hNot hTurned
  | false =>
    obtain ⟨hBetween, hOut, _⟩ :=
      @carry_transmit onesCipher s nid c i dir st f cut base last hFind hEnds
    generalize (carry onesCipher s ⟨false, f, cut, base, last⟩).between = between at hBetween hOut
    have hLen : (between.split cut).linear.length = max cut ETH_HLEN := by
      refine length_take_of_le ?_
      rw [hBetween, length_cryptFrame f.2]
      exact hLong
    have hPages : (between.split cut).paged = f.val.drop (max cut ETH_HLEN) := by
      have hDrop := congrArg (drop (max cut ETH_HLEN)) hOut
      rw [List.drop_left' ((length_cryptFrame (between.split cut).header).trans hLen), hBack] at hDrop
      exact hDrop.symm
    rw [← hBetween] at hTurned
    exact hNot (hPages.symm.trans hTurned)

end Private

/-! ## Sequences of frames -/

def Carried.Whole (host : Privnet) (ev : Carried) : Prop :=
  (privnetFindMac host ev.mac.val).isSome → (ev.frame.split ev.cut).paged = []

theorem macTreeRoot_carry (aes : List UInt8 → BlockStream 128 16) (s : NetEnds) (ev : Carried) :
    (carry aes s ev).ends.host.macTreeRoot = s.host.macTreeRoot := by
  unfold carry
  split
  · exact macTreeRoot_cryptSkb _ true _ _
  · exact macTreeRoot_cryptSkb _ false _ _

theorem whole_carry (aes : List UInt8 → BlockStream 128 16) (s : NetEnds) (ev ev' : Carried) :
    ev'.Whole (carry aes s ev).ends.host ↔ ev'.Whole s.host := by
  unfold Carried.Whole privnetFindMac
  rw [macTreeRoot_carry]

theorem Linked.carry {aes : List UInt8 → BlockStream 128 16} {s : NetEnds}
    (h : Linked s.host s.vm.ndTable) {ev : Carried} (hWhole : ev.Whole s.host) :
    (carry aes s ev).delivered = ev.frame ∧
      (privnetFindMac s.host ev.mac.val = none → (Net.carry aes s ev).between = ev.frame) ∧
      Linked (Net.carry aes s ev).ends.host (Net.carry aes s ev).ends.vm.ndTable := by
  cases hFind : privnetFindMac s.host ev.mac.val with
  | none =>
    obtain ⟨hOut, hBetween, hLinked⟩ := h.carry_foreign hFind
    exact ⟨hOut, fun _ => hBetween, hLinked⟩
  | some nid =>
    obtain ⟨hOut, hLinked⟩ := h.carry_private hFind (hWhole (by rw [hFind]; rfl))
    exact ⟨hOut, fun hNone => (Option.some_ne_none nid hNone).elim, hLinked⟩

/-- **Frames come out as they went in**, whatever AES computes, exactly if no private frame has
bytes in pages. -/
theorem frames_restored_iff {s : NetEnds} (hLinked : Linked s.host s.vm.ndTable)
    (evs : List Carried) :
    (∀ aes, Restores aes s evs) ↔ ∀ ev ∈ evs, ev.Whole s.host := by
  constructor
  · intro h
    have hOnes := h onesCipher
    clear h
    -- the first frame is whole, so the ends are still linked after it
    induction evs generalizing s with
    | nil => exact fun _ hMem => absurd hMem not_mem_nil
    | cons ev evs ih =>
      have hWhole : ev.Whole s.host := by
        intro hSome
        obtain ⟨nid, hFind⟩ := Option.isSome_iff_exists.mp hSome
        exact hLinked.carry_paged hFind hOnes.1
      have hRest := ih (hLinked.carry hWhole).2.2 hOnes.2.2.2
      intro ev' hMem
      rcases List.mem_cons.mp hMem with rfl | hMem
      · exact hWhole
      · exact (whole_carry onesCipher s ev ev').mp (hRest ev' hMem)
  · intro h aes
    induction evs generalizing s with
    | nil => trivial
    | cons ev evs ih =>
      obtain ⟨hOut, hForeign, hNext⟩ := @Linked.carry aes s hLinked ev (h ev mem_cons_self)
      refine ⟨hOut, hForeign, hNext.inStep, ih hNext ?_⟩
      intro ev' hMem
      exact (whole_carry aes s ev ev').mpr (h ev' (mem_cons_of_mem _ hMem))

def linkedHost : Privnet where
  reg :=
    { emptyRegistry with
      heap := fun c =>
        { id := UInt32.ofNat c, allocPid := 7, userLock := true, userRef := some (c + 9),
          activated := true, dir := .enc, key := [7], ctr := 0 }
      ctxList := [1, 2]
      refs := fun ref => if ref = 10 then some 1 else if ref = 11 then some 2 else none }
  macTreeRoot := Trie.set 5 (Trie.empty 5) sampleMac.val (some ⟨1, 10, 2, 11⟩)

def linkedVm : Vm where
  mem := fun _ => 0
  ndTable := [⟨sampleMac, some ⟨.dec, some ⟨[7], 0⟩⟩, some ⟨.enc, some ⟨[7], 0⟩⟩⟩]

theorem linkedHost_linked : Linked linkedHost linkedVm.ndTable := by
  have hFind : ∀ mac : MacAddr, privnetFindMac linkedHost mac.val =
      if mac.val = sampleMac.val then some ⟨1, 10, 2, 11⟩ else none := by
    intro mac
    have hSet := @Trie.find_set UInt8 MacCryptRefs _ 5 (Trie.empty 5) (some ⟨1, 10, 2, 11⟩) _ _
      sampleMac.2 mac.2
    rw [Trie.find_empty] at hSet
    exact hSet
  have hOnly : ∀ (mac : MacAddr) nid, privnetFindMac linkedHost mac.val = some nid →
      mac = sampleMac ∧ nid = ⟨1, 10, 2, 11⟩ := by
    intro mac nid hMac
    rw [hFind] at hMac
    split at hMac
    · exact ⟨Subtype.ext ‹_›, (Option.some.inj hMac).symm⟩
    · cases hMac
  refine ⟨?_, ?_, ?_⟩
  · intro mac dirIn hNone
    rw [hFind] at hNone
    have hNe : sampleMac.val ≠ mac.val := by
      intro hEq
      rw [if_pos hEq.symm] at hNone
      cases hNone
    simp [findCctx, getNicWithMac, linkedVm, hNe]
  · intro mac nid dirIn hMac
    obtain ⟨rfl, rfl⟩ := hOnly mac nid hMac
    cases dirIn with
    | true => exact ⟨1, 0, .dec, ⟨[7], 0⟩, rfl, rfl, rfl, rfl, rfl⟩
    | false => exact ⟨2, 0, .enc, ⟨[7], 0⟩, rfl, rfl, rfl, rfl, rfl⟩
  · intro mac mac' nid nid' dirIn dirIn' c hMac hMac' hRef hRef'
    obtain ⟨rfl, rfl⟩ := hOnly mac nid hMac
    obtain ⟨rfl, rfl⟩ := hOnly mac' nid' hMac'
    refine ⟨rfl, ?_⟩
    have hSame := hRef.trans hRef'.symm
    cases dirIn <;> cases dirIn' <;> first | rfl | cases hSame

theorem header_sampleFrame :
    ETH_HLEN ≤ [2, 0, 0, 0, 0, 1, 9, 9, 9, 9, 9, 9, 8, 0, 5, (6 : UInt8)].length := by
  decide

def sampleFrame : Frame :=
  ⟨[2, 0, 0, 0, 0, 1, 9, 9, 9, 9, 9, 9, 8, 0, 5, 6], header_sampleFrame⟩

/-- With its last byte in a page, the frame does not come back. -/
theorem paged_frame_garbled :
    Linked linkedHost linkedVm.ndTable ∧
      ¬ Restores onesCipher ⟨linkedHost, linkedVm⟩
        [⟨true, sampleFrame, 15, 0, ⟨List.replicate 16 0, rfl⟩⟩] := by
  refine ⟨linkedHost_linked, fun h => ?_⟩
  have hPaged := @Linked.carry_paged ⟨linkedHost, linkedVm⟩ ⟨1, 10, 2, 11⟩ linkedHost_linked
    ⟨true, sampleFrame, 15, 0, ⟨replicate 16 0, rfl⟩⟩ rfl h.1
  exact absurd hPaged (by decide)

theorem linear_frames_restored :
    Restores onesCipher ⟨linkedHost, linkedVm⟩
      [⟨true, sampleFrame, 16, 0, ⟨List.replicate 16 0, rfl⟩⟩,
       ⟨false, ⟨[9, 9, 9, 9, 9, 9, 2, 0, 0, 0, 0, 1, 8, 255, 1], by decide⟩, 15, 0,
        ⟨List.replicate 16 0, rfl⟩⟩,
       ⟨false, sampleFrame, 0, 0, ⟨List.replicate 16 0, rfl⟩⟩] := by
  refine (@frames_restored_iff ⟨linkedHost, linkedVm⟩ linkedHost_linked _).mpr ?_ onesCipher
  intro ev hMem
  rcases List.mem_cons.mp hMem with rfl | hMem
  · exact fun _ => by decide
  rcases List.mem_cons.mp hMem with rfl | hMem
  · exact fun _ => by decide
  rw [List.mem_singleton.mp hMem]
  exact fun hSome => absurd hSome (by decide)

end Lacuna.Net
