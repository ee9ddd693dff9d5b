import Lacuna.Net.Privnet

/-!
# The Ethernet driver of the host

`drivers/net/e1000e_priv/netdev.c`: `e1000_receive_skb` encrypts a frame for a
private card before the host's network stack sees it, `e1000_tx_queue` decrypts
a frame from one just before it leaves. Both move the last byte of the type and
run the bytes after the header through the context, as far as
`skb_tail_pointer`: what an skb holds in pages is passed as it is.

`privnet_encrypt` has no result, so that `e1000_receive_skb` cannot know that
the context is gone, not activated, or that its cipher has failed.
-/

namespace Lacuna.Net

open Lacuna.Lib Lacuna.Crypt List

variable {st : Privnet}

/-! ## Frames in the kernel -/

def ETH_HLEN : Nat := 14

/-- `struct sk_buff`: the bytes up to `skb_tail_pointer`, with the Ethernet header, and those in
pages. -/
structure Skb where
  linear : List UInt8
  paged : List UInt8
  header : ETH_HLEN ≤ linear.length

namespace Skb

def frame (skb : Skb) : List UInt8 := skb.linear ++ skb.paged

def payload (skb : Skb) : List UInt8 := skb.linear.drop ETH_HLEN ++ skb.paged

end Skb

theorem length_frameMac {f : List UInt8} (h : ETH_HLEN ≤ f.length) (dirIn : Bool) :
    (frameMac dirIn f).length = 6 := by
  have hPos : macPos dirIn + MAC_LEN ≤ f.length := by
    refine Nat.le_trans ?_ h
    cases dirIn <;> decide
  rw [frameMac, length_take, length_drop]
  simp only [MAC_LEN] at hPos ⊢
  omega

def Skb.mac (skb : Skb) (dirIn : Bool) : MacAddr :=
  ⟨frameMac dirIn skb.linear, length_frameMac skb.header dirIn⟩

section Driver

variable (blk : Blkcipher)

/-- What the driver does to a frame. The type byte moves the other way than in QEMU. -/
def cryptSkb (dirIn : Bool) (st : Privnet) (skb : Skb) : Skb × Privnet :=
  match privnetFindMac st (skb.mac dirIn).val with
  | none => (skb, st)
  | some nid =>
    let r := privnetCrypt blk st.reg (nid.ref dirIn) (skb.linear.drop ETH_HLEN)
    ({ linear := skb.linear.take TYPE_BYTE_POS ++
          (skb.linear.getD TYPE_BYTE_POS 0 + typeStep (!dirIn)) :: r.1
       paged := skb.paged
       header := by
        have hTake : (skb.linear.take TYPE_BYTE_POS).length = TYPE_BYTE_POS :=
          List.length_take_of_le (Nat.le_trans (by decide) skb.header)
        rw [List.length_append, List.length_cons, hTake, ETH_HLEN, TYPE_BYTE_POS]
        omega },
      { st with reg := r.2 })

/-- Destination address, `*ch += 1`, `privnet_encrypt`. -/
def e1000ReceiveSkb : Privnet → Skb → Skb × Privnet := cryptSkb blk true

def e1000TxQueue : Privnet → Skb → Skb × Privnet := cryptSkb blk false

end Driver

theorem macTreeRoot_cryptSkb (blk : Blkcipher) (dirIn : Bool) (st : Privnet) (skb : Skb) :
    (cryptSkb blk dirIn st skb).2.macTreeRoot = st.macTreeRoot := by
  unfold cryptSkb
  split <;> rfl

/-! ## Histories -/

/-- What happens to the contexts, the cards and their frames, with the failures of the cipher. -/
inductive PrivnetOp where
  | newCtx (c keySize : Nat) (dir : Dir) (pid : Nat)
  | addMac (mac : MacAddr) (inId outId : UInt32) (mem : Option (Nat × Nat))
  | removeMac (mac : MacAddr)
  | setActivated (c : Nat) (activated : Bool)
  | setKey (c : Nat) (key : List UInt8) (ctr : BitVec 128)
  | destroy (c : Nat)
  | pidDeath (pid : Nat)
  | receive (fails : List UInt8 → BitVec 128 → List UInt8 → Bool) (skb : Skb)
  | transmit (fails : List UInt8 → BitVec 128 → List UInt8 → Bool) (skb : Skb)

inductive PrivnetStep (aes : List UInt8 → BlockStream 128 16) :
    Privnet → PrivnetOp → Privnet → Prop
  | newCtx (st c keySize dir pid) (hFree : st.reg.allocated c = false) :
      PrivnetStep aes st (.newCtx c keySize dir pid)
        { st with reg := doNewCtx st.reg c keySize dir pid }
  | addMac (st mac inId outId mem) (hMem : FreshRefs st mem) :
      PrivnetStep aes st (.addMac mac inId outId mem) (privnetAddMac st mac.val inId outId mem).2
  | removeMac (st mac) : PrivnetStep aes st (.removeMac mac) (privnetRemoveMac st mac.val)
  | setActivated (st c activated) :
      PrivnetStep aes st (.setActivated c activated)
        { st with reg := st.reg.modifyCtx c (privSetActivated · activated) }
  | setKey (st c key ctr) :
      PrivnetStep aes st (.setKey c key ctr)
        { st with reg := st.reg.modifyCtx c fun k => { k with key := key, ctr := ctr } }
  | destroy (st c) : PrivnetStep aes st (.destroy c) { st with reg := destroyCtx st.reg c }
  | pidDeath (st pid) :
      PrivnetStep aes st (.pidDeath pid) { st with reg := privPidDeathAction st.reg pid }
  | receive (st fails skb) :
      PrivnetStep aes st (.receive fails skb) (e1000ReceiveSkb (.faulty fails aes) st skb).2
  | transmit (st fails skb) :
      PrivnetStep aes st (.transmit fails skb) (e1000TxQueue (.faulty fails aes) st skb).2

theorem PrivnetInv.cryptSkb (h : PrivnetInv st) (blk : Blkcipher) (dirIn : Bool)
    (skb : Skb) : PrivnetInv (cryptSkb blk dirIn st skb).2 := by
  unfold Net.cryptSkb
  cases privnetFindMac st (skb.mac dirIn).val with
  | none => exact h
  | some nid => exact h.crypt blk (nid.ref dirIn) (skb.linear.drop ETH_HLEN)

theorem PrivnetStep.inv {aes : List UInt8 → BlockStream 128 16} {st' : Privnet} {op : PrivnetOp}
    (hStep : PrivnetStep aes st op st') (h : PrivnetInv st) : PrivnetInv st' := by
  cases hStep with
  | newCtx c keySize dir pid hFree => exact h.newCtx hFree keySize dir pid
  | addMac mac inId outId mem hMem => exact h.addMac mac inId outId hMem
  | removeMac mac => exact h.removeMac mac
  | setActivated c activated => exact h.modifyCtx c rfl rfl rfl
  | setKey c key ctr => exact h.modifyCtx c rfl rfl rfl
  | destroy c => exact h.destroy c
  | pidDeath pid => exact h.pidDeath pid
  | receive fails skb => exact h.cryptSkb _ true skb
  | transmit fails skb => exact h.cryptSkb _ false skb

/-! ## What a received frame is passed as -/

/-- `out` is what the in-context that the card was registered with makes of the
payload. -/
def EncryptedBy (blk : Blkcipher) (reg : Registry) (nid : MacCryptRefs)
    (payload out : List UInt8) : Prop :=
  ∃ c, Tied reg nid true c ∧ (privCrypt blk (reg.heap c) payload).1 = 0 ∧
    (privCrypt blk (reg.heap c) payload).2.1 = out

/-- The payload of a frame for a card is passed encrypted, or without a byte of it, whatever AES
computes: a keystream of zeros would hide that it has not been encrypted. -/
def PassesNoPlaintext (fails : List UInt8 → BitVec 128 → List UInt8 → Bool) (st : Privnet)
    (skb : Skb) : Prop :=
  ∀ aes nid, privnetFindMac st (skb.mac true).val = some nid →
    EncryptedBy (.faulty fails aes) st.reg nid skb.payload
        (e1000ReceiveSkb (.faulty fails aes) st skb).1.payload ∨
      (∀ out, ¬ EncryptedBy (.faulty fails aes) st.reg nid skb.payload out) ∧
        ¬ Shows skb.payload (e1000ReceiveSkb (.faulty fails aes) st skb).1.payload

/-- There is no payload, or it is not in pages, the in-context is activated, and its cipher does
not fail on it. -/
def InContextWorks (fails : List UInt8 → BitVec 128 → List UInt8 → Bool) (st : Privnet)
    (skb : Skb) : Prop :=
  ∀ nid, privnetFindMac st (skb.mac true).val = some nid → skb.payload = [] ∨
    skb.paged = [] ∧ ∃ c, st.reg.refs nid.inRef = some c ∧ (st.reg.heap c).activated = true ∧
      CipherWorks fails (st.reg.heap c) skb.payload

section Receive

variable {fails : List UInt8 → BitVec 128 → List UInt8 → Bool}
variable {aes : List UInt8 → BlockStream 128 16} {st : Privnet} {skb : Skb} {nid : MacCryptRefs}

theorem payload_cryptSkb {blk : Blkcipher} {dirIn : Bool}
    (hFind : privnetFindMac st (skb.mac dirIn).val = some nid) :
    (cryptSkb blk dirIn st skb).1.payload =
      (privnetCrypt blk st.reg (nid.ref dirIn) (skb.linear.drop ETH_HLEN)).1 ++ skb.paged := by
  have hTake : (skb.linear.take TYPE_BYTE_POS).length = TYPE_BYTE_POS :=
    length_take_of_le (Nat.le_trans (by decide) skb.header)
  simp only [cryptSkb, hFind, Skb.payload]
  rw [show ETH_HLEN = TYPE_BYTE_POS + 1 from rfl, ← drop_drop, List.drop_left' hTake,
    drop_one, tail_cons]

theorem length_privnetCrypt (reg : Registry) (ref : Nat) (data : List UInt8) :
    (privnetCrypt (.faulty fails aes) reg ref data).1.length = data.length := by
  unfold privnetCrypt
  cases reg.refs ref with
  | none => rfl
  | some c => exact length_privCrypt Blkcipher.keepsLength_faulty _ _

theorem privCrypt_of_works {cctx : PrivCryptCtx} {buf : List UInt8}
    (hActive : cctx.activated = true) (hWorks : CipherWorks fails cctx buf) :
    privCrypt (.faulty fails aes) cctx buf = (0, (ctrCrypt (aes cctx.key) cctx.ctr buf).1,
        { cctx with ctr := (ctrCrypt (aes cctx.key) cctx.ctr buf).2 }) := by
  rw [privCrypt, if_pos hActive, privCryptLoop_of_works hWorks, privCryptLoop_ctr]

theorem shows_privnetCrypt {reg : Registry} {ref : Nat} {data : List UInt8} (hNe : data ≠ [])
    (h : ∀ c, reg.refs ref = some c → (reg.heap c).activated = true →
      ¬ CipherWorks fails (reg.heap c) data) :
    Shows data (privnetCrypt (.faulty fails aes) reg ref data).1 := by
  unfold privnetCrypt
  cases hRef : reg.refs ref with
  | none => exact shows_self hNe
  | some c =>
    dsimp only
    cases hActive : (reg.heap c).activated with
    | false =>
      rw [privCrypt, hActive, if_neg Bool.false_ne_true]
      exact shows_self hNe
    | true =>
      rw [privCrypt, if_pos hActive]
      exact (privCryptLoop_of_not_works (h c hRef hActive)).2

theorem shows_receive (hFind : privnetFindMac st (skb.mac true).val = some nid)
    (hNe : skb.payload ≠ [])
    (h : skb.paged = [] → ∀ c, st.reg.refs nid.inRef = some c →
      (st.reg.heap c).activated = true → ¬ CipherWorks fails (st.reg.heap c) skb.payload) :
    Shows skb.payload (e1000ReceiveSkb (.faulty fails aes) st skb).1.payload := by
  rw [e1000ReceiveSkb, payload_cryptSkb hFind]
  by_cases hPaged : skb.paged = []
  · have hLinear : skb.payload = skb.linear.drop ETH_HLEN := by
      rw [Skb.payload, hPaged, append_nil]
    rw [hPaged, append_nil, hLinear]
    rw [hLinear] at hNe h
    exact shows_privnetCrypt hNe (h hPaged)
  · exact (shows_self hPaged).append_left (length_privnetCrypt _ _ _)

/-- Under a keystream of ones nothing shows that has been encrypted. -/
theorem EncryptedBy.not_shows {payload out : List UInt8}
    (h : EncryptedBy (.faulty fails onesCipher) st.reg nid payload out) : ¬ Shows payload out := by
  obtain ⟨c, _, hRc, rfl⟩ := h
  cases hActive : (st.reg.heap c).activated with
  | false =>
    rw [privCrypt, hActive, if_neg Bool.false_ne_true] at hRc
    cases hRc
  | true =>
    by_cases hWorks : CipherWorks fails (st.reg.heap c) payload
    · rw [privCrypt_of_works hActive hWorks, ctrCrypt_onesCipher]
      exact not_shows_map_xor payload
    · rw [privCrypt, if_pos hActive] at hRc
      exact absurd hRc (Int.ne_of_lt (privCryptLoop_of_not_works hWorks).1)

theorem passesNoPlaintext_iff (hInv : PrivnetInv st) :
    PassesNoPlaintext fails st skb ↔ InContextWorks fails st skb := by
  constructor
  · intro h nid hFind
    refine or_iff_not_imp_left.mpr fun hNe => ?_
    have hHidden : ¬ Shows skb.payload
        (e1000ReceiveSkb (.faulty fails onesCipher) st skb).1.payload := by
      rcases h onesCipher nid hFind with hEnc | hNone
      · exact hEnc.not_shows
      · exact hNone.2
    by_contra hMiss
    refine hHidden (shows_receive hFind hNe fun hPaged c hRef hActive hWorks => hMiss ?_)
    exact ⟨hPaged, c, hRef, hActive, hWorks⟩
  · intro h aes nid hFind
    rw [e1000ReceiveSkb, payload_cryptSkb hFind]
    rcases h nid hFind with hNil | ⟨hPaged, c, hRef, hActive, hWorks⟩
    · -- nothing to encrypt, and nothing to show
      have hOut : ((privnetCrypt (.faulty fails aes) st.reg (nid.ref true)
          (skb.linear.drop ETH_HLEN)).1 ++ skb.paged) = [] := by
        rw [← length_eq_zero_iff, length_append, length_privnetCrypt,
          ← length_append, ← Skb.payload, hNil, length_nil]
      rw [hOut, hNil]
      refine or_iff_not_imp_left.mpr fun hNot => ⟨?_, ?_⟩
      · rintro out ⟨c, hTied, hRc, _⟩
        refine hNot ⟨c, hTied, hRc, ?_⟩
        rw [← length_eq_zero_iff, length_privCrypt Blkcipher.keepsLength_faulty, length_nil]
      · rintro ⟨i, hi, _⟩
        exact absurd hi (Nat.not_lt_zero i)
    · have hPayload : skb.payload = skb.linear.drop ETH_HLEN := by
        rw [Skb.payload, hPaged, append_nil]
      have hRun := @privCrypt_of_works fails aes _ _ hActive hWorks
      refine .inl ⟨c, hInv.tied (skb.mac true) nid true c hFind hRef, by rw [hRun], ?_⟩
      rw [hPaged, append_nil, ← hPayload]
      simp only [privnetCrypt, MacCryptRefs.ref, if_true, hRef]

end Receive

/-! ## Along a history -/

def PrivnetOp.Safe (st : Privnet) : PrivnetOp → Prop
  | .receive fails skb => PassesNoPlaintext fails st skb
  | _ => True

def PrivnetOp.Works (st : Privnet) : PrivnetOp → Prop
  | .receive fails skb => InContextWorks fails st skb
  | _ => True

/-- **No plaintext goes up the stack** in a history exactly if every frame for a card finds its
context activated and the cipher working, and holds nothing in pages. -/
theorem no_plaintext_iff {aes : List UInt8 → BlockStream 128 16} {st : Privnet}
    {tr : Trace Privnet PrivnetOp} (hFresh : FreshPrivnet st)
    (hTr : IsTrace (PrivnetStep aes) st tr) :
    EachStep (fun st op => op.Safe st) st tr ↔ EachStep (fun st op => op.Works st) st tr := by
  have hIff : ∀ st op, PrivnetInv st → (PrivnetOp.Safe st op ↔ PrivnetOp.Works st op) := by
    intro st op hInv
    cases op with
    | receive fails skb => exact passesNoPlaintext_iff hInv
    | _ => exact Iff.rfl
  refine eachStep_iff_of_inv (fun st op st' hInv hStep hWorks => ?_)
    (fun st op st' hInv _ hSafe => (hIff st op hInv).mp hSafe) hFresh.inv hTr
  exact ⟨(hIff st op hInv).mpr hWorks, hStep.inv hInv⟩

def emptyPrivnet : Privnet := ⟨emptyRegistry, Trie.empty 5⟩

theorem emptyPrivnet_fresh : FreshPrivnet emptyPrivnet :=
  ⟨rfl, fun mac => Trie.find_empty 5 mac.val⟩

theorem freshRefs_of_empty (h : st.macTreeRoot = Trie.empty 5) {inRef outRef : Nat}
    (hNe : inRef ≠ outRef) : FreshRefs st (some (inRef, outRef)) := by
  have hNone : ∀ ref, Unrecorded st ref := by
    intro ref mac nid dirIn hFind
    rw [privnetFindMac, h, Trie.find_empty] at hFind
    cases hFind
  rintro _ _ ⟨⟩
  exact ⟨hNe, hNone _, hNone _⟩

theorem length_sampleMac : [2, 0, 0, 0, 0, (1 : UInt8)].length = 6 := rfl

def sampleMac : MacAddr := ⟨[2, 0, 0, 0, 0, 1], length_sampleMac⟩

def sampleSkb : Skb where
  linear := [2, 0, 0, 0, 0, 1, 9, 9, 9, 9, 9, 9, 8, 0, 5, 6]
  paged := []
  header := by decide

/-- A frame that arrives between `priv_nic_register` and `priv_activate` is passed as it came. -/
theorem frame_before_activation :
    ∃ tr : Trace Privnet PrivnetOp, tr.map Prod.fst =
        [.newCtx 1 16 .enc 7, .newCtx 2 16 .dec 7, .addMac sampleMac 1 2 (some (10, 11)),
          .receive (fun _ _ _ => false) sampleSkb] ∧
      IsTrace (PrivnetStep onesCipher) emptyPrivnet tr ∧
      ¬ EachStep (fun st op => op.Safe st) emptyPrivnet tr := by
  have hTr : IsTrace (PrivnetStep onesCipher) emptyPrivnet
      [(.newCtx 1 16 .enc 7, _), (.newCtx 2 16 .dec 7, _),
        (.addMac sampleMac 1 2 (some (10, 11)), _),
        (.receive (fun _ _ _ => false) sampleSkb, _)] :=
    ⟨.newCtx _ _ _ _ _ rfl, .newCtx _ _ _ _ _ rfl,
      .addMac _ _ _ _ _ (freshRefs_of_empty rfl (by decide)), .receive _ _ _, trivial⟩
  refine ⟨_, rfl, hTr, fun h => ?_⟩
  have hSafe := h.2.2.2.1 onesCipher ⟨1, 10, 2, 11⟩ rfl
  have hShows : Shows sampleSkb.payload sampleSkb.payload := shows_self (by decide)
  rcases hSafe with hEnc | hNone
  · exact hEnc.not_shows hShows
  · exact hNone.2 hShows

theorem frame_after_activation :
    ∃ tr : Trace Privnet PrivnetOp, tr.map Prod.fst =
        [.newCtx 1 16 .enc 7, .newCtx 2 16 .dec 7, .addMac sampleMac 1 2 (some (10, 11)),
          .setActivated 1 true, .receive (fun _ _ _ => false) sampleSkb] ∧
      EachStep (fun st op => op.Safe st) emptyPrivnet tr := by
  have hTr : IsTrace (PrivnetStep onesCipher) emptyPrivnet
      [(.newCtx 1 16 .enc 7, _), (.newCtx 2 16 .dec 7, _),
        (.addMac sampleMac 1 2 (some (10, 11)), _), (.setActivated 1 true, _),
        (.receive (fun _ _ _ => false) sampleSkb, _)] :=
    ⟨.newCtx _ _ _ _ _ rfl, .newCtx _ _ _ _ _ rfl,
      .addMac _ _ _ _ _ (freshRefs_of_empty rfl (by decide)), .setActivated _ _ _,
      .receive _ _ _, trivial⟩
  refine ⟨_, rfl, (no_plaintext_iff emptyPrivnet_fresh hTr).mpr ?_⟩
  refine ⟨trivial, trivial, trivial, trivial, ?_, trivial⟩
  intro nid hFind
  have hNid : nid = ⟨1, 10, 2, 11⟩ := (Option.some.inj hFind).symm
  subst hNid
  exact .inr ⟨rfl, 1, rfl, rfl, fun _ _ => rfl⟩

end Lacuna.Net
