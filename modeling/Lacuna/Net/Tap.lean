import Lacuna.Lib.Mem
import Lacuna.Crypt.Aesni

/-!
# The tap device of QEMU

`net/tap.c`: `priv_crypt_packet` and `tap_write_packet`. A frame is looked up by
the MAC in its header, the last byte of its type is moved by one, and its
payload is run through the context of the NIC. `tap_write_packet` does so for
each element of the iovec by itself, before it calls `writev`.

The memory of QEMU is flat: `priv_crypt_packet` reads six bytes for the MAC and
writes the type byte whether or not they belong to the element.
`privCryptPacket_frame` says what becomes of a whole frame.
-/

namespace Lacuna.Net

open Lacuna.Lib Lacuna.Crypt List

/-! ## Network cards -/

abbrev MacAddr := { a : List UInt8 // a.length = 6 }

structure NICInfo where
  macaddr : MacAddr
  cctxIn : Option PrivCctx
  cctxOut : Option PrivCctx
  deriving DecidableEq

namespace NICInfo

def cctx (ni : NICInfo) (dirIn : Bool) : Option PrivCctx := if dirIn then ni.cctxIn else ni.cctxOut

def setCctx (ni : NICInfo) (dirIn : Bool) (cctx : PrivCctx) : NICInfo :=
  if dirIn then { ni with cctxIn := some cctx } else { ni with cctxOut := some cctx }

end NICInfo

def getNicWithMac (ndTable : List NICInfo) (addr : List UInt8) : Option Nat :=
  ndTable.findIdx? fun ni => ni.macaddr.val = addr

/-- The context for frames with the address, and its NIC. -/
def findCctx (ndTable : List NICInfo) (addr : List UInt8) (dirIn : Bool) :
    Option (Nat × PrivCctx) := do
  let i ← getNicWithMac ndTable addr
  let ni ← ndTable[i]?
  let cctx ← ni.cctx dirIn
  return (i, cctx)

structure Vm where
  mem : Mem
  ndTable : List NICInfo

def MAC_LEN : Nat := 6
def TYPE_BYTE_POS : Nat := 13
def DATA_START_POS : Nat := 14

def typeStep (dirIn : Bool) : UInt8 := if dirIn then -1 else 1

def macPos (dirIn : Bool) : Nat := if dirIn then 0 else MAC_LEN

structure Iovec where
  base : Nat
  len : Nat
  deriving DecidableEq

def Iovec.Holds (e : Iovec) (a : Nat) : Prop := e.base ≤ a ∧ a < e.base + e.len

instance (e : Iovec) (a : Nat) : Decidable (e.Holds a) := instDecidableAnd

/-- What the `writev` calls of one packet come to: interrupted so many times, and a result. -/
inductive WritevResult where
  | written
  | eagain
  | error
  deriving DecidableEq

section Tap

variable (aes : List UInt8 → BlockStream 128 16) (last : AesBlock)

def privCryptPacket (len base : Nat) (dirIn : Bool) (s : Vm) : Int × Vm :=
  match findCctx s.ndTable (load s.mem (base + macPos dirIn) MAC_LEN) dirIn with
  | none => (0, s)
  | some (i, cctx) =>
    let typePos := base + TYPE_BYTE_POS
    let mem := store s.mem typePos [s.mem typePos + typeStep dirIn]
    if len < DATA_START_POS then (-1, { s with mem := mem })
    else
      let data := base + DATA_START_POS
      let r := userPrivCrypt aes last cctx (load mem data (len - DATA_START_POS))
      (if r.1 < 0 then -1 else 0,
        { mem := store mem data r.2.1
          ndTable := s.ndTable.modify i (·.setCctx dirIn r.2.2) })

/-- One turn of the first loop of `tap_write_packet`. -/
def cryptElement (s : Vm) (e : Iovec) : Vm :=
  let r := privCryptPacket aes last e.len e.base false s
  if r.1 < 0 then { r.2 with mem := store r.2.mem e.base (List.replicate e.len 0) } else r.2

def cryptIov (s : Vm) (iov : List Iovec) : Vm := iov.foldl (cryptElement aes last) s

def gather (mem : Mem) (iov : List Iovec) : List UInt8 :=
  iov.flatMap fun e => load mem e.base e.len

/-- The second loop of `tap_write_packet`: the return value, if it is not `EAGAIN`, and what has
been written. -/
def writevLoop (out : List UInt8) (result : WritevResult) : Nat → Option Int × Option (List UInt8)
  | 0 =>
    match result with
    | .written => (some out.length, some out)
    | .eagain => (none, none)
    | .error => (some (-1), none)
  -- interrupted, and tried again as it is
  | interrupts + 1 => writevLoop out result interrupts

def tapWritePacket (iov : List Iovec) (interrupts : Nat) (result : WritevResult) (s : Vm) :
    Int × Option (List UInt8) × Vm :=
  let s := cryptIov aes last s iov
  let w := writevLoop (gather s.mem iov) result interrupts
  (w.1.getD 0, w.2, s)

end Tap

/-! ## One frame -/

section Frame

variable (aes : List UInt8 → BlockStream 128 16)

variable {dirIn : Bool} {st : AesniState} {f : List UInt8}

/-- The type byte moved, and the payload through the cipher. -/
def cryptFrame (dirIn : Bool) (st : AesniState) (f : List UInt8) : List UInt8 × AesniState :=
  let r := ctrCrypt (aes st.key) st.iv (f.drop DATA_START_POS)
  (f.take TYPE_BYTE_POS ++ (f.getD TYPE_BYTE_POS 0 + typeStep dirIn) :: r.1,
    { st with iv := r.2 })

def frameMac (dirIn : Bool) (f : List UInt8) : List UInt8 := (f.drop (macPos dirIn)).take MAC_LEN

variable {aes}

theorem length_cryptFrame
    (h : DATA_START_POS ≤ f.length) : (cryptFrame aes dirIn st f).1.length = f.length := by
  simp only [cryptFrame, length_append, length_take, length_cons,
    length_ctrCrypt (by decide : 0 < 16), length_drop, TYPE_BYTE_POS, DATA_START_POS] at h ⊢
  omega

theorem take_cryptFrame (h : DATA_START_POS ≤ f.length) :
    (cryptFrame aes dirIn st f).1.take TYPE_BYTE_POS = f.take TYPE_BYTE_POS :=
  List.take_left' (length_take_of_le (Nat.le_trans (by decide) h))

theorem type_cryptFrame (h : DATA_START_POS ≤ f.length) :
    (cryptFrame aes dirIn st f).1.getD TYPE_BYTE_POS 0 =
      f.getD TYPE_BYTE_POS 0 + typeStep dirIn := by
  have hTake : (f.take TYPE_BYTE_POS).length = TYPE_BYTE_POS :=
    length_take_of_le (Nat.le_trans (by decide) h)
  rw [cryptFrame, List.getD_eq_getElem?_getD, List.getElem?_append_right (by rw [hTake]), hTake,
    Nat.sub_self]
  rfl

theorem drop_cryptFrame (h : DATA_START_POS ≤ f.length) :
    (cryptFrame aes dirIn st f).1.drop DATA_START_POS =
      (ctrCrypt (aes st.key) st.iv (f.drop DATA_START_POS)).1 := by
  rw [show (DATA_START_POS : Nat) = TYPE_BYTE_POS + 1 from rfl] at h ⊢
  rw [← drop_drop, cryptFrame,
    List.drop_left' (length_take_of_le (Nat.le_trans (Nat.le_succ _) h)), drop_one]
  rfl

theorem frameMac_eq_of_take {g : List UInt8} (h : f.take TYPE_BYTE_POS = g.take TYPE_BYTE_POS)
    (dirIn : Bool) : frameMac dirIn f = frameMac dirIn g := by
  have hMac : ∀ x : List UInt8, frameMac dirIn x = frameMac dirIn (x.take TYPE_BYTE_POS) := by
    intro x
    have hMin : min MAC_LEN (TYPE_BYTE_POS - macPos dirIn) = MAC_LEN := by cases dirIn <;> rfl
    rw [frameMac, frameMac, drop_take, take_take, hMin]
  rw [hMac f, h, ← hMac g]

theorem frame_parts (h : DATA_START_POS ≤ f.length) :
    f.take TYPE_BYTE_POS ++ f.getD TYPE_BYTE_POS 0 :: f.drop DATA_START_POS = f := by
  have hAt : TYPE_BYTE_POS < f.length := h
  rw [List.getD_eq_getElem?_getD, List.getElem?_eq_getElem hAt, Option.getD_some,
    show (DATA_START_POS : Nat) = TYPE_BYTE_POS + 1 from rfl, ← drop_eq_getElem_cons hAt,
    take_append_drop]

/-- **There and back.** The two directions undo each other. -/
theorem cryptFrame_cryptFrame (dirIn : Bool) (st : AesniState) {f : List UInt8}
    (h : DATA_START_POS ≤ f.length) :
    cryptFrame aes (!dirIn) st (cryptFrame aes dirIn st f).1 =
      (f, (cryptFrame aes dirIn st f).2) := by
  have hStep : typeStep dirIn + typeStep (!dirIn) = 0 := by cases dirIn <;> rfl
  rw [cryptFrame, take_cryptFrame h, type_cryptFrame h, drop_cryptFrame h,
    ctrCrypt_ctrCrypt (by decide : 0 < 16), UInt8.add_assoc, hStep, UInt8.add_zero, frame_parts h]
  rfl

theorem cryptFrame_inj {g : List UInt8}
    (hf : DATA_START_POS ≤ f.length) (hg : DATA_START_POS ≤ g.length)
    (h : (cryptFrame aes dirIn st f).1 = (cryptFrame aes dirIn st g).1) : f = g := by
  have hBack := congrArg (fun x => (cryptFrame aes (!dirIn) st x).1) h
  simpa only [cryptFrame_cryptFrame _ _ hf, cryptFrame_cryptFrame _ _ hg] using hBack

theorem store_cryptFrame (mem : Mem) (base : Nat) {len : Nat} (hLen : DATA_START_POS ≤ len)
    (dirIn : Bool) (st : AesniState) :
    store mem base (cryptFrame aes dirIn st (load mem base len)).1 =
      store (store mem (base + TYPE_BYTE_POS) [mem (base + TYPE_BYTE_POS) + typeStep dirIn])
        (base + DATA_START_POS)
        (ctrCrypt (aes st.key) st.iv
          (load mem (base + DATA_START_POS) (len - DATA_START_POS))).1 := by
  have hTake : (load mem base len).take TYPE_BYTE_POS = load mem base TYPE_BYTE_POS :=
    take_load mem base (Nat.le_trans (by decide) hLen)
  have hType : (load mem base len).getD TYPE_BYTE_POS 0 = mem (base + TYPE_BYTE_POS) := by
    rw [List.getD_eq_getElem?_getD, getElem?_load mem base (Nat.lt_of_lt_of_le (by decide) hLen),
      Option.getD_some]
  simp only [cryptFrame, hTake, hType, drop_load mem base hLen]
  rw [store_append, length_load, store_load, ← singleton_append, store_append]
  rfl

theorem load_mac (mem : Mem) (base : Nat) {len : Nat} (hLen : DATA_START_POS ≤ len) (dirIn : Bool) :
    load mem (base + macPos dirIn) MAC_LEN = frameMac dirIn (load mem base len) := by
  have hPos : macPos dirIn + MAC_LEN ≤ len := by
    refine Nat.le_trans ?_ hLen
    cases dirIn <;> decide
  rw [frameMac, drop_load _ _ (by omega), take_load _ _ (by omega)]

theorem privCryptPacket_frame {last : AesBlock} {len base : Nat} {dirIn : Bool} {s : Vm}
    {i : Nat} {dir : Dir} {st : AesniState} (hLen : DATA_START_POS ≤ len)
    (hFind : findCctx s.ndTable (frameMac dirIn (load s.mem base len)) dirIn =
      some (i, ⟨dir, some st⟩)) :
    privCryptPacket aes last len base dirIn s = (0,
        { mem := store s.mem base (cryptFrame aes dirIn st (load s.mem base len)).1
          ndTable := s.ndTable.modify i
            (·.setCctx dirIn ⟨dir, some (cryptFrame aes dirIn st (load s.mem base len)).2⟩) }) := by
  have hData : load (store s.mem (base + TYPE_BYTE_POS)
      [s.mem (base + TYPE_BYTE_POS) + typeStep dirIn]) (base + DATA_START_POS)
        (len - DATA_START_POS) = load s.mem (base + DATA_START_POS) (len - DATA_START_POS) :=
    load_store_of_disjoint (.inr (by rw [Nat.add_assoc]; exact Nat.le_refl _))
  rw [privCryptPacket, load_mac _ _ hLen, hFind]
  simp only [if_neg (Nat.not_lt.mpr hLen), hData, userPrivCrypt_eq, store_cryptFrame _ _ hLen]
  simp only [cryptFrame, drop_load s.mem base hLen]
  rfl

theorem cryptElement_frame {last : AesBlock} {e : Iovec} {s : Vm} {i : Nat} {dir : Dir}
    {st : AesniState} (hLen : DATA_START_POS ≤ e.len)
    (hFind : findCctx s.ndTable (frameMac false (load s.mem e.base e.len)) false =
      some (i, ⟨dir, some st⟩)) :
    cryptElement aes last s e =
      { mem := store s.mem e.base (cryptFrame aes false st (load s.mem e.base e.len)).1
        ndTable := s.ndTable.modify i
          (·.setCctx false ⟨dir, some (cryptFrame aes false st (load s.mem e.base e.len)).2⟩) } := by
  rw [cryptElement, privCryptPacket_frame hLen hFind]
  rfl

theorem load_cryptElement {last : AesBlock} {e : Iovec} {s : Vm} {i : Nat} {dir : Dir}
    {st : AesniState} (hLen : DATA_START_POS ≤ e.len)
    (hFind : findCctx s.ndTable (frameMac false (load s.mem e.base e.len)) false =
      some (i, ⟨dir, some st⟩)) :
    load (cryptElement aes last s e).mem e.base e.len =
      (cryptFrame aes false st (load s.mem e.base e.len)).1 := by
  have hOut : (cryptFrame aes false st (load s.mem e.base e.len)).1.length = e.len :=
    (length_cryptFrame (by rwa [length_load])).trans (length_load ..)
  have hSelf := load_store_self s.mem e.base (cryptFrame aes false st (load s.mem e.base e.len)).1
  rw [hOut] at hSelf
  rw [cryptElement_frame hLen hFind]
  exact hSelf

theorem cryptElement_short {last : AesBlock} {e : Iovec} (hLen : e.len < DATA_START_POS) (s : Vm) :
    (cryptElement aes last s e).ndTable = s.ndTable ∧ ∀ a, ¬ e.Holds a →
      ((findCctx s.ndTable (load s.mem (e.base + MAC_LEN) MAC_LEN) false).isSome →
        a ≠ e.base + TYPE_BYTE_POS) →
      (cryptElement aes last s e).mem a = s.mem a := by
  unfold cryptElement privCryptPacket
  cases hFind : findCctx s.ndTable (load s.mem (e.base + macPos false) MAC_LEN) false with
  | none => exact ⟨rfl, fun _ _ _ => rfl⟩
  | some r =>
    simp only [if_pos hLen]
    refine ⟨rfl, fun a hOut hType => ?_⟩
    have hNe : a ≠ e.base + TYPE_BYTE_POS := by
      refine hType ?_
      rw [show e.base + MAC_LEN = e.base + macPos false from rfl, hFind]
      rfl
    have hByte : store s.mem (e.base + TYPE_BYTE_POS)
        [s.mem (e.base + TYPE_BYTE_POS) + typeStep false] a = s.mem a := store_singleton_of_ne hNe
    show store (store s.mem (e.base + TYPE_BYTE_POS) _) e.base (replicate e.len 0) a = s.mem a
    rw [← hByte]
    by_cases hLow : a < e.base
    · exact store_of_lt hLow
    · refine store_of_le ?_
      rw [length_replicate]
      exact Nat.not_lt.mp fun hHigh => hOut ⟨Nat.not_lt.mp hLow, hHigh⟩

theorem cryptElement_short_type {last : AesBlock} {e : Iovec} (hLen : e.len < DATA_START_POS)
    {s : Vm} (hSome : (findCctx s.ndTable (load s.mem (e.base + MAC_LEN) MAC_LEN) false).isSome) :
    (cryptElement aes last s e).mem (e.base + TYPE_BYTE_POS) =
      s.mem (e.base + TYPE_BYTE_POS) + 1 := by
  obtain ⟨r, hFind⟩ := Option.isSome_iff_exists.mp hSome
  have hFind' : findCctx s.ndTable (load s.mem (e.base + macPos false) MAC_LEN) false = some r :=
    hFind
  have hOut : e.base + (replicate e.len (0 : UInt8)).length ≤ e.base + TYPE_BYTE_POS := by
    rw [length_replicate]
    exact Nat.add_le_add_left (Nat.le_of_lt_succ hLen) _
  unfold cryptElement privCryptPacket
  rw [hFind']
  simp only [if_pos hLen]
  show store (store s.mem (e.base + TYPE_BYTE_POS) _) e.base (replicate e.len 0) _ = _
  rw [store_of_le hOut]
  exact store_of_mem (i := 0) (length_pos_of_ne_nil (cons_ne_nil _ _))

theorem writevLoop_eq (out : List UInt8) (result : WritevResult) (interrupts : Nat) :
    writevLoop out result interrupts = writevLoop out result 0 := by
  induction interrupts with
  | zero => rfl
  | succ n ih => exact ih

end Frame

def onesCipher : List UInt8 → BlockStream 128 16 :=
  fun _ => ⟨fun _ => List.replicate 16 0xff, fun _ => rfl⟩

theorem ctrCrypt_onesCipher (key : List UInt8) (ctr : BitVec 128) (data : List UInt8) :
    (ctrCrypt (onesCipher key) ctr data).1 = data.map (· ^^^ 0xff) :=
  ctrCrypt_const (by decide) (fun _ => rfl) data

end Lacuna.Net
