import Lacuna.Lib.Shorts
import Lacuna.Sound.Playback

/-!
# Mixing the private streams

`privsound_buf_to_hw` of `drivers/priv_sysfs/privsound/privsound.c` goes over
the list of buffers and adds the frames it fetches from each to the hardware
buffer. What it fetches from a buffer is `plainFrame`: decrypted where the
buffer has a context that is activated, and as it is in the ring where not.
-/

namespace Lacuna.Sound

open Lacuna.Lib Lacuna.Crypt List

/-! ## One stream -/

def framePos (b : PsndBuf) (k : Nat) : Nat := (b.ofptr + 4 * k) % PSND_OBUF_SIZE

/-- The address is in one of the first `n` frames to be fetched. -/
def InFrames (b : PsndBuf) (n a : Nat) : Prop :=
  ∃ k < n, framePos b k ≤ a ∧ a < framePos b k + 4

instance (b : PsndBuf) (n a : Nat) : Decidable (InFrames b n a) :=
  inferInstanceAs (Decidable (∃ k < n, framePos b k ≤ a ∧ a < framePos b k + 4))

/-- The frames that are taken from a stream when `frames` are asked for. -/
def consumed (frames : Nat) (b : PsndBuf) : Nat := min frames (outputHeld b / 4)

def advanced (n : Nat) (ref : Option PrivCryptCtx) : Option PrivCryptCtx :=
  ref.map fun cctx => if cctx.activated then moved cctx n else cctx

/-- A buffer after `n` frames: zeros where they were. -/
def drained (n : Nat) (b : PsndBuf) : PsndBuf :=
  { b with
    obuffer := fun a => if InFrames b n a then 0 else b.obuffer a
    ofptr := framePos b n
    outRef := advanced n b.outRef }

section Stream

variable (aes : List UInt8 → BlockStream 128 16)

def plainFrame (b : PsndBuf) (k : Nat) : List UInt8 :=
  let frame := load b.obuffer (framePos b k) 4
  match b.outRef with
  | some cctx =>
    if cctx.activated then (ctrCrypt (aes cctx.key) (cctx.ctr + BitVec.ofNat 128 k) frame).1
    else frame
  | none => frame

/-- The sample of channel `c`, 0 or 1, in the `k`-th frame. -/
def sample (k c : Nat) (b : PsndBuf) : BitVec 16 :=
  short ((plainFrame aes b k).getD (2 * c) 0) ((plainFrame aes b k).getD (2 * c + 1) 0)

/-- What `n` frames of a stream add to each number of the hardware buffer. -/
def contribution (n : Nat) (b : PsndBuf) : Nat → BitVec 16 := fun j =>
  if j / 2 < n then sample aes (j / 2) (j % 2) b else 0

variable {aes} {b : PsndBuf} {n k : Nat}

theorem privsoundCrypt_plain (hf : b.ofptr < PSND_OBUF_SIZE) :
    privsoundCrypt (.ctr aes) (load b.obuffer b.ofptr 4) b.outRef =
      (plainFrame aes b 0, advanced 1 b.outRef) := by
  have hPos : framePos b 0 = b.ofptr := Nat.mod_eq_of_lt hf
  rw [plainFrame, hPos, advanced]
  cases b.outRef with
  | none => rfl
  | some cctx =>
    cases hAct : cctx.activated with
    | true =>
      rw [privsoundCrypt_frame hAct (length_load ..)]
      simp [hAct]
    | false => simp [privsoundCrypt, privCrypt, hAct]

theorem length_plainFrame : (plainFrame aes b k).length = 4 := by
  unfold plainFrame
  simp only
  split
  · split
    · rw [length_ctrCrypt (by decide), length_load]
    · exact length_load ..
  · exact length_load ..

theorem advanced_advanced (m n : Nat) (ref : Option PrivCryptCtx) :
    advanced n (advanced m ref) = advanced (m + n) ref := by
  cases ref with
  | none => rfl
  | some cctx =>
    cases hAct : cctx.activated with
    | true =>
      have hAct' : (moved cctx m).activated = true := hAct
      simp [advanced, hAct, hAct', moved_moved]
    | false => simp [advanced, hAct]

theorem framePos_drained (b : PsndBuf) (m k : Nat) :
    framePos (drained m b) k = framePos b (m + k) := by
  show ((b.ofptr + 4 * m) % PSND_OBUF_SIZE + 4 * k) % PSND_OBUF_SIZE = _
  rw [Nat.mod_add_mod, framePos, Nat.mul_add, Nat.add_assoc]

theorem drained_zero (hf : b.ofptr < PSND_OBUF_SIZE) : drained 0 b = b := by
  have hRef : advanced 0 b.outRef = b.outRef := by
    cases hCtx : b.outRef with
    | none => rfl
    | some cctx => simp [advanced, moved_zero]
  have hPos : framePos b 0 = b.ofptr := Nat.mod_eq_of_lt hf
  have hNone : ∀ a, ¬ InFrames b 0 a := fun a ⟨k, hk, _⟩ => Nat.not_lt_zero k hk
  simp [drained, hRef, hPos, hNone]

theorem inFrames_succ (b : PsndBuf) (n a : Nat) :
    InFrames b (n + 1) a ↔ InFrames b 1 a ∨ InFrames (drained 1 b) n a := by
  constructor
  · rintro ⟨k, hk, hIn⟩
    cases k with
    | zero => exact .inl ⟨0, by decide, hIn⟩
    | succ k =>
      refine .inr ⟨k, by omega, ?_⟩
      rwa [framePos_drained, Nat.add_comm 1 k]
  · rintro (⟨k, hk, hIn⟩ | ⟨k, hk, hIn⟩)
    · exact ⟨k, by omega, hIn⟩
    · rw [framePos_drained] at hIn
      exact ⟨1 + k, by omega, hIn⟩

theorem drained_drained (n : Nat) (b : PsndBuf) : drained n (drained 1 b) = drained (n + 1) b := by
  have hMem : (drained n (drained 1 b)).obuffer = (drained (n + 1) b).obuffer := by
    funext a
    show (if InFrames (drained 1 b) n a then 0 else if InFrames b 1 a then 0 else b.obuffer a) =
      if InFrames b (n + 1) a then 0 else b.obuffer a
    by_cases hLater : InFrames (drained 1 b) n a
    · rw [if_pos hLater, if_pos ((inFrames_succ b n a).mpr (.inr hLater))]
    · have hIff : InFrames b (n + 1) a ↔ InFrames b 1 a := by
        rw [inFrames_succ, or_iff_left hLater]
      rw [if_neg hLater]
      simp only [hIff]
  have hPos : framePos (drained 1 b) n = framePos b (n + 1) := by
    rw [framePos_drained, Nat.add_comm]
  have hRef : advanced n (advanced 1 b.outRef) = advanced (n + 1) b.outRef := by
    rw [advanced_advanced, Nat.add_comm]
  show PsndBuf.mk _ (drained n (drained 1 b)).obuffer _ _ _ _ _ _ _ = _
  rw [hMem, hPos]
  exact congrArg (fun ref => PsndBuf.mk b.ibuffer (drained (n + 1) b).obuffer ref b.inRef b.owptr
    (framePos b (n + 1)) b.iwptr b.ifptr b.inputEnabled) hRef

/-- Zeros are written where frames have been, not where frames are. -/
theorem plainFrame_drained (hk : k + 1 < PSND_OBUF_SIZE / 4) :
    plainFrame aes (drained 1 b) k = plainFrame aes b (k + 1) := by
  have hLoad : load (drained 1 b).obuffer (framePos b (k + 1)) 4 =
      load b.obuffer (framePos b (k + 1)) 4 := by
    refine load_congr fun i hi => if_neg ?_
    rintro ⟨k', hk', hIn⟩
    obtain rfl : k' = 0 := by omega
    simp only [framePos, PSND_OBUF_SIZE] at hk hIn
    omega
  rw [plainFrame, framePos_drained, Nat.add_comm 1 k, hLoad, plainFrame]
  show (match advanced 1 b.outRef with | some cctx => _ | none => _) = _
  cases hRef : b.outRef with
  | none => rfl
  | some cctx =>
    cases hAct : cctx.activated with
    | true =>
      have hAct' : (moved cctx 1).activated = true := hAct
      have hCtr : (moved cctx 1).ctr + BitVec.ofNat 128 k = cctx.ctr + BitVec.ofNat 128 (k + 1) := by
        rw [Nat.add_comm k 1, BitVec.ofNat_add, ← BitVec.add_assoc]
        rfl
      simp only [advanced, Option.map_some, hAct, hAct', if_true, hCtr]
      rfl
    | false => simp [advanced, hAct]

/-! ## The loops -/

theorem addShort_eq (mem : Mem) (ptr j : Nat) (lo hi : UInt8) :
    addShort mem (ptr + 2 * j) lo hi = addShorts mem ptr (Pi.single j (short lo hi)) := by
  refine @mem_ext_shorts _ _ ptr (fun a ha => ?_) fun i => ?_
  · rw [addShorts_of_lt ha, addShort, store_of_lt (by omega)]
  · rw [shortAt_addShorts]
    by_cases hEq : i = j
    · subst hEq
      rw [Pi.single_eq_same, addShort, shortAt_store, short_ofNat, shortAt, short, short,
        ← BitVec.ofNat_add]
      exact congrArg _ (Nat.add_assoc ..)
    · rw [Pi.single_eq_of_ne hEq, add_zero, addShort, shortAt_store_of_disjoint _ _ _ (by omega)]

theorem contribution_succ (hn : n + 1 ≤ PSND_OBUF_SIZE / 4) : contribution aes (n + 1) b =
      Pi.single 0 (sample aes 0 0 b) + Pi.single 1 (sample aes 0 1 b) +
        fun j => if j < 2 then 0 else contribution aes n (drained 1 b) (j - 2) := by
  funext j
  match j with
  | 0 => simp [contribution]
  | 1 => simp [contribution]
  | j + 2 =>
    have hDiv : (j + 2) / 2 = j / 2 + 1 := by omega
    have hMod : (j + 2) % 2 = j % 2 := by omega
    have hLt : j / 2 + 1 < n + 1 ↔ j / 2 < n := by omega
    have hLater : j / 2 < n → sample aes (j / 2 + 1) (j % 2) b =
        sample aes (j / 2) (j % 2) (drained 1 b) := by
      intro hj
      rw [sample, sample, plainFrame_drained (by omega)]
    have hZero : (Pi.single 0 (sample aes 0 0 b) : Nat → BitVec 16) (j + 2) = 0 :=
      Pi.single_eq_of_ne (show j + 2 ≠ 0 by omega) _
    have hOne : (Pi.single 1 (sample aes 0 1 b) : Nat → BitVec 16) (j + 2) = 0 :=
      Pi.single_eq_of_ne (show j + 2 ≠ 1 by omega) _
    simp only [contribution, Pi.add_apply, hDiv, hMod, hLt, hZero, hOne, zero_add,
      Nat.add_sub_cancel, if_neg (show ¬ j + 2 < 2 by omega)]
    split
    next hj => exact hLater hj
    next => rfl

theorem drained_one (hf : b.ofptr < PSND_OBUF_SIZE) (hAligned : 4 ∣ b.ofptr) : { b with
      obuffer := store (store b.obuffer b.ofptr (plainFrame aes b 0)) b.ofptr (replicate 4 0)
      outRef := advanced 1 b.outRef
      ofptr := if b.ofptr + 4 ≥ PSND_OBUF_SIZE then b.ofptr + 4 - PSND_OBUF_SIZE
        else b.ofptr + 4 } = drained 1 b := by
  have hPos : framePos b 0 = b.ofptr := Nat.mod_eq_of_lt hf
  have hNext : (if b.ofptr + 4 ≥ PSND_OBUF_SIZE then b.ofptr + 4 - PSND_OBUF_SIZE
      else b.ofptr + 4) = framePos b 1 := by
    rw [framePos]
    split
    next hGe =>
      simp only [PSND_OBUF_SIZE] at hf hGe ⊢
      omega
    next hLt => rw [Nat.mod_eq_of_lt (by omega)]
  have hMem : store (store b.obuffer b.ofptr (plainFrame aes b 0)) b.ofptr (replicate 4 0) =
      fun a => if InFrames b 1 a then 0 else b.obuffer a := by
    funext a
    have hIff : InFrames b 1 a ↔ b.ofptr ≤ a ∧ a < b.ofptr + 4 := by
      constructor
      · rintro ⟨k, hk, hIn⟩
        obtain rfl : k = 0 := by omega
        rwa [hPos] at hIn
      · exact fun hIn => ⟨0, by decide, by rwa [hPos]⟩
    rw [store_store _ _ (by rw [length_plainFrame]; rfl)]
    by_cases hIn : b.ofptr ≤ a ∧ a < b.ofptr + 4
    · obtain ⟨i, rfl⟩ := Nat.exists_eq_add_of_le hIn.1
      have hi : i < (replicate 4 (0 : UInt8)).length := by
        rw [length_replicate]
        omega
      rw [if_pos (hIff.mpr hIn), store_of_mem hi, getElem_replicate]
    · rw [if_neg (mt hIff.mp hIn)]
      rcases Nat.lt_or_ge a b.ofptr with hLt | hGe
      · exact store_of_lt hLt
      · exact store_of_le (by rw [length_replicate]; omega)
  rw [hMem, hNext]
  rfl

/-- **One stream**: what it adds, and how it is left. -/
theorem toHwLoop_eq (n : Nat) {hw : Mem} {ptr : Nat} (hf : b.ofptr < PSND_OBUF_SIZE)
    (hAligned : 4 ∣ b.ofptr) (hn : n ≤ PSND_OBUF_SIZE / 4) :
    (toHwLoop (.ctr aes) 4 n hw ptr b).2 = (addShorts hw ptr (contribution aes n b), drained n b) := by
  induction n generalizing hw ptr b with
  | zero =>
    have hNone : contribution aes 0 b = 0 := rfl
    rw [hNone, addShorts_zero, drained_zero hf]
    rfl
  | succ n ih =>
    have hNext : framePos b 1 < PSND_OBUF_SIZE := Nat.mod_lt _ (by decide)
    have hAligned' : 4 ∣ framePos b 1 := by
      simp only [framePos, PSND_OBUF_SIZE]
      omega
    have hByte : ∀ i, i < 4 → store b.obuffer b.ofptr (plainFrame aes b 0) (b.ofptr + i) =
        (plainFrame aes b 0).getD i 0 := by
      intro i hi
      have hLen : i < (plainFrame aes b 0).length := by rwa [length_plainFrame]
      rw [store_of_mem hLen, List.getD_eq_getElem?_getD, List.getElem?_eq_getElem hLen, Option.getD_some]
    have hLeft : ∀ mem, addShort mem ptr (store b.obuffer b.ofptr (plainFrame aes b 0) b.ofptr)
        (store b.obuffer b.ofptr (plainFrame aes b 0) (b.ofptr + 1)) =
          addShorts mem ptr (Pi.single 0 (sample aes 0 0 b)) := by
      intro mem
      have hFirst : store b.obuffer b.ofptr (plainFrame aes b 0) b.ofptr =
          (plainFrame aes b 0).getD 0 0 := hByte 0 (by decide)
      rw [hByte 1 (by decide), hFirst]
      exact addShort_eq mem ptr 0 _ _
    have hRight : ∀ mem, addShort mem (ptr + 4 / 2)
        (store b.obuffer b.ofptr (plainFrame aes b 0) (b.ofptr + 4 / 2))
        (store b.obuffer b.ofptr (plainFrame aes b 0) (b.ofptr + 4 / 2 + 1)) =
          addShorts mem ptr (Pi.single 1 (sample aes 0 1 b)) := by
      intro mem
      rw [hByte (4 / 2) (by decide), Nat.add_assoc b.ofptr, hByte (4 / 2 + 1) (by decide)]
      exact addShort_eq mem ptr 1 _ _
    rw [toHwLoop, privsoundCrypt_plain hf]
    simp only [drained_one hf hAligned]
    rw [@ih (drained 1 b) _ _ hNext hAligned' (by omega), hLeft, hRight, drained_drained,
      contribution_succ hn, ← addShorts_addShorts, ← addShorts_addShorts,
      ← addShorts_shift _ ptr 2]

theorem consumed_le (hf : b.ofptr < PSND_OBUF_SIZE) (hw : b.owptr < PSND_OBUF_SIZE) (frames : Nat) :
    consumed frames b ≤ PSND_OBUF_SIZE / 4 := by
  refine Nat.le_trans (Nat.min_le_right _ _) (Nat.div_le_div_right ?_)
  rw [outputHeld]
  split <;> omega

theorem bufToHw_eq (frames : Nat) {hw : Mem} {ptr : Nat} (hf : b.ofptr < PSND_OBUF_SIZE)
    (hw' : b.owptr < PSND_OBUF_SIZE) (hAligned : 4 ∣ b.ofptr) :
    (bufToHw (.ctr aes) hw ptr 4 frames b).2 =
      (addShorts hw ptr (contribution aes (consumed frames b) b),
        drained (consumed frames b) b) := by
  have hTurns : bufToHw (.ctr aes) hw ptr 4 frames b =
      toHwLoop (.ctr aes) 4 (consumed frames b) hw ptr b := by
    have hMin : (if frames > outputHeld b / 4 then outputHeld b / 4 else frames) =
        consumed frames b := by
      rw [consumed]
      split <;> omega
    rw [← hMin]
    rfl
  rw [hTurns]
  exact toHwLoop_eq _ hf hAligned (consumed_le hf hw' frames)

end Stream

/-! ## All streams -/

/-- The pointers are in the ring, and whole frames have been fetched. -/
def RingOk (b : PsndBuf) : Prop :=
  b.ofptr < PSND_OBUF_SIZE ∧ b.owptr < PSND_OBUF_SIZE ∧ 4 ∣ b.ofptr

section Streams

variable {aes : List UInt8 → BlockStream 128 16} {bufs : List PsndBuf} {hw : Mem} {ptr frames : Nat}

/-- **All streams** add up, and each is left as it would be by itself. -/
theorem privsoundBufToHw_eq (hRing : ∀ b ∈ bufs, RingOk b) :
    privsoundBufToHw (.ctr aes) hw ptr 4 frames bufs =
      (addShorts hw ptr (bufs.map fun b => contribution aes (consumed frames b) b).sum,
        bufs.map fun b => drained (consumed frames b) b) := by
  induction bufs generalizing hw with
  | nil =>
    rw [map_nil, sum_nil, addShorts_zero]
    rfl
  | cons b bufs ih =>
    obtain ⟨hf, hw', hAligned⟩ := hRing b mem_cons_self
    rw [privsoundBufToHw, bufToHw_eq frames hf hw' hAligned,
      ih fun b' hb' => hRing b' (mem_cons_of_mem b hb'), addShorts_addShorts]
    rfl

theorem sum_contribution (bufs : List PsndBuf) (k : Nat) {c : Nat} (hc : c < 2) :
    (bufs.map fun b => contribution aes (consumed frames b) b).sum (2 * k + c) =
      ((bufs.filter fun b => k < consumed frames b).map (sample aes k c)).sum := by
  have hDiv : (2 * k + c) / 2 = k := by omega
  have hMod : (2 * k + c) % 2 = c := by omega
  induction bufs with
  | nil => rfl
  | cons b bufs ih =>
    rw [map_cons, sum_cons, Pi.add_apply, ih, contribution, hDiv, hMod]
    by_cases hk : k < consumed frames b
    · rw [if_pos hk, filter_cons_of_pos (by simpa using hk), map_cons, sum_cons]
    · rw [if_neg hk, filter_cons_of_neg (by simpa using hk), zero_add]

/-- **Mixing.** -/
theorem mixing (hRing : ∀ b ∈ bufs, RingOk b) :
    let r := privsoundBufToHw (.ctr aes) hw ptr 4 frames bufs
    (∀ k c, c < 2 → shortAt r.1 (ptr + 4 * k + 2 * c) = shortAt hw (ptr + 4 * k + 2 * c) +
      ((bufs.filter fun b => k < consumed frames b).map (sample aes k c)).sum) ∧
    (∀ a, (a < ptr ∨ ∀ b ∈ bufs, ptr + 4 * consumed frames b ≤ a) → r.1 a = hw a) ∧
    r.2 = bufs.map (fun b => drained (consumed frames b) b) ∧
    ∀ bufs', bufs'.Perm bufs →
      (privsoundBufToHw (.ctr aes) hw ptr 4 frames bufs').1 = r.1 ∧
        (privsoundBufToHw (.ctr aes) hw ptr 4 frames bufs').2.Perm r.2 := by
  simp only [privsoundBufToHw_eq hRing]
  refine ⟨fun k c hc => ?_, fun a ha => ?_, trivial, fun bufs' hPerm => ?_⟩
  · rw [show ptr + 4 * k + 2 * c = ptr + 2 * (2 * k + c) by omega, shortAt_addShorts,
      sum_contribution bufs k hc]
  · rcases ha with hLt | hGe
    · exact addShorts_of_lt hLt
    · -- no stream has that many frames
      have hNone : (bufs.filter fun b => (a - ptr) / 2 / 2 < consumed frames b) = [] := by
        refine List.filter_eq_nil_iff.mpr fun b hb => ?_
        have hLe := hGe b hb
        simp only [decide_eq_true_eq]
        omega
      refine addShorts_of_zero ?_
      have hSum := @sum_contribution aes frames bufs ((a - ptr) / 2 / 2) ((a - ptr) / 2 % 2)
        (Nat.mod_lt _ (by decide))
      rwa [Nat.div_add_mod, hNone] at hSum
  · rw [privsoundBufToHw_eq fun b hb => hRing b (hPerm.mem_iff.mp hb), (hPerm.map _).sum_eq]
    exact ⟨rfl, hPerm.map _⟩

def onesAes (_ : List UInt8) : BlockStream 128 16 where
  block _ := List.replicate 16 1
  length_block _ := List.length_replicate

/-- One frame of zeros in the ring, and a context that may be activated. -/
def oneFrame (activated : Bool) : PsndBuf where
  ibuffer _ := 0
  obuffer _ := 0
  outRef := some
    { id := 1, allocPid := 0, userLock := true, userRef := none, activated := activated,
      dir := .dec, key := [], ctr := 0 }
  inRef := none
  owptr := 4
  ofptr := 0
  iwptr := 0
  ifptr := 0
  inputEnabled := false

theorem mixing_oneFrame :
    shortAt (privsoundBufToHw (.ctr onesAes) (fun _ => 0) 0 4 1 [oneFrame true]).1 0 = 0x101 := by
  have hMix := @mixing onesAes [oneFrame true] (fun _ => 0) 0 1
    (List.forall_mem_singleton.mpr ⟨by decide, by decide, by decide⟩)
  refine (hMix.1 0 0 (by decide)).trans ?_
  decide +kernel

/-- Without activation the frame is added as it is in the ring, and the counter stays. -/
theorem mixing_not_activated :
    let r := privsoundBufToHw (.ctr onesAes) (fun _ => 0) 0 4 1 [oneFrame false]
    shortAt r.1 0 = 0 ∧ (ctrCrypt (onesAes []) 0 [0, 0, 0, 0]).1 = [1, 1, 1, 1] ∧
      r.2.map (fun b => b.outRef.map PrivCryptCtx.ctr) = [some 0] := by
  decide +kernel

end Streams

end Lacuna.Sound
