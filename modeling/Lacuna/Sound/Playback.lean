import Lacuna.Lib.Trace
import Lacuna.Sound.Buffer

/-!
# Playback

The output ring is a queue: what QEMU writes to it, in pieces of any length, is
fetched from it in frames of four bytes, in order (`playback_fifo`). At least four
bytes of the ring stay free, so that a full ring is told from an empty one.
-/

namespace Lacuna.Sound

open Lacuna.Lib Lacuna.Crypt List

/-! ## One write -/

def outputHeld (b : PsndBuf) : Nat :=
  if b.ofptr ≤ b.owptr then b.owptr - b.ofptr else PSND_OBUF_SIZE - b.ofptr + b.owptr

def outputTaken (b : PsndBuf) (len : Nat) : Nat := min (PSND_OBUF_SIZE - 4 - outputHeld b) len

def Copy.bytes (data : List UInt8) (c : Copy) : List UInt8 :=
  (data.drop c.src.toNat).take c.len.toNat

structure Copy.Inside (len : Nat) (c : Copy) : Prop where
  len_nonneg : 0 ≤ c.len
  dst_nonneg : 0 ≤ c.dst
  dst_end : c.dst + c.len ≤ PSND_OBUF_SIZE
  src_nonneg : 0 ≤ c.src
  src_end : c.src + c.len ≤ len

theorem Copy.inside {dst src len size : Nat} (hDst : dst + len ≤ PSND_OBUF_SIZE)
    (hSrc : src + len ≤ size) : (Copy.mk dst src len).Inside size where
  len_nonneg := Int.natCast_nonneg len
  dst_nonneg := Int.natCast_nonneg dst
  dst_end := show (dst : Int) + len ≤ PSND_OBUF_SIZE by omega
  src_nonneg := Int.natCast_nonneg src
  src_end := show (src : Int) + len ≤ size by omega

section Write

variable {b : PsndBuf} {data : List UInt8}

theorem owptr_add {w n : Nat} (h : w + n ≤ PSND_OBUF_SIZE) :
    (((w : Int) + n) % 2 ^ 32 % PSND_OBUF_SIZE).toNat = (w + n) % PSND_OBUF_SIZE := by
  have hSmall : ((w : Int) + n) % 2 ^ 32 = ((w + n : Nat) : Int) := by
    rw [Int.emod_eq_of_lt (by omega) (by simp only [PSND_OBUF_SIZE] at h; omega), Int.natCast_add]
  rw [hSmall, ← Int.natCast_mod, Int.toNat_natCast]

theorem binWrite_eq (hw : b.owptr < PSND_OBUF_SIZE) (hf : b.ofptr < PSND_OBUF_SIZE)
    (hFree : outputHeld b + 4 ≤ PSND_OBUF_SIZE) :
    binWrite data b =
      let n := outputTaken b data.length
      let e := PSND_OBUF_SIZE - b.owptr
      if b.owptr < b.ofptr ∨ n ≤ e then
        ((n : Int), [⟨b.owptr, 0, n⟩],
          { b with
            obuffer := store b.obuffer b.owptr (data.take n)
            owptr := (b.owptr + n) % PSND_OBUF_SIZE })
      else
        ((n : Int), [⟨b.owptr, 0, e⟩, ⟨0, e, (n - e : Nat)⟩],
          { b with
            obuffer := store (store b.obuffer b.owptr (data.take e)) 0 ((data.drop e).take (n - e))
            owptr := n - e }) := by
  simp only [binWrite, privsoundWriteToBuf]
  have hTaken : outputTaken b data.length =
      min (PSND_OBUF_SIZE - 4 - outputHeld b) data.length := rfl
  generalize outputTaken b data.length = n at hTaken
  by_cases hLt : b.owptr < b.ofptr
  · -- one copy, before the fetch pointer
    have hLt' : (b.owptr : Int) < b.ofptr := Int.ofNat_lt.mpr hLt
    have hAvail : (if (b.ofptr : Int) - b.owptr - 4 > data.length then (data.length : Int)
        else (b.ofptr : Int) - b.owptr - 4) = n := by
      simp only [outputHeld, if_neg (Nat.not_le.mpr hLt)] at hFree hTaken
      split <;> omega
    have hEnd : b.owptr + n ≤ PSND_OBUF_SIZE := by
      simp only [outputHeld, if_neg (Nat.not_le.mpr hLt)] at hTaken
      omega
    rw [if_pos hLt', if_pos (Or.inl hLt), hAvail, owptr_add hEnd]
    rfl
  · have hLt' : ¬ (b.owptr : Int) < b.ofptr := fun h => hLt (Int.ofNat_lt.mp h)
    have hAvail : (if (PSND_OBUF_SIZE : Int) - b.owptr + b.ofptr - 4 > data.length then
        (data.length : Int) else (PSND_OBUF_SIZE : Int) - b.owptr + b.ofptr - 4) = n := by
      simp only [outputHeld, if_pos (Nat.not_lt.mp hLt)] at hFree hTaken
      split <;> omega
    rw [if_neg hLt', hAvail]
    by_cases hEnd : n ≤ PSND_OBUF_SIZE - b.owptr
    · -- one copy, up to the end of the ring at most
      have hFirst : (if (PSND_OBUF_SIZE : Int) - b.owptr > n then (n : Int)
          else (PSND_OBUF_SIZE : Int) - b.owptr) = n := by
        split <;> omega
      rw [if_pos (Or.inr hEnd), hFirst, owptr_add (by omega), Int.sub_self, if_neg (by decide),
        Int.add_zero]
      rfl
    · -- and a second one from its start
      have hFirst : (if (PSND_OBUF_SIZE : Int) - b.owptr > n then (n : Int)
          else (PSND_OBUF_SIZE : Int) - b.owptr) = (PSND_OBUF_SIZE - b.owptr : Nat) := by
        split <;> omega
      have hRest : (n : Int) - (PSND_OBUF_SIZE - b.owptr : Nat) =
          (n - (PSND_OBUF_SIZE - b.owptr) : Nat) := by omega
      have hAll : ((PSND_OBUF_SIZE - b.owptr : Nat) : Int) +
          (n - (PSND_OBUF_SIZE - b.owptr) : Nat) = n := by omega
      have hMore : ((n - (PSND_OBUF_SIZE - b.owptr) : Nat) : Int) > 0 := by omega
      have hTwice : ¬ (b.owptr < b.ofptr ∨ n ≤ PSND_OBUF_SIZE - b.owptr) := not_or.mpr ⟨hLt, hEnd⟩
      rw [if_neg hTwice, hFirst, owptr_add (by omega), Nat.add_sub_cancel' hw.le, Nat.mod_self, hRest,
        hAll, if_pos hMore, Nat.zero_add]
      rfl

theorem binWrite_holds {q : List UInt8}
    (h : RingHolds b.obuffer PSND_OBUF_SIZE b.ofptr b.owptr q) (hFree : q.length + 4 ≤ PSND_OBUF_SIZE) :
    let r := binWrite data b
    let n := min (PSND_OBUF_SIZE - 4 - q.length) data.length
    r.1 = n ∧ r.2.1.flatMap (Copy.bytes data) = data.take n ∧
      (∀ c ∈ r.2.1, c.Inside data.length) ∧
      RingHolds r.2.2.obuffer PSND_OBUF_SIZE b.ofptr r.2.2.owptr (q ++ data.take n) ∧
      r.2.2.ofptr = b.ofptr ∧ r.2.2.outRef = b.outRef := by
  have hHeld : outputHeld b = q.length := h.length_eq.symm
  have hw := h.write_lt
  have hTaken : outputTaken b data.length =
      min (PSND_OBUF_SIZE - 4 - q.length) data.length := by rw [outputTaken, hHeld]
  rw [binWrite_eq hw h.fetch_lt (by rwa [hHeld]), hTaken]
  have hRoom : min (PSND_OBUF_SIZE - 4 - q.length) data.length + q.length + 4 ≤ PSND_OBUF_SIZE := by
    omega
  have hLe : min (PSND_OBUF_SIZE - 4 - q.length) data.length ≤ data.length := Nat.min_le_right _ _
  generalize min (PSND_OBUF_SIZE - 4 - q.length) data.length = n at *
  have hLen : (data.take n).length = n := length_take_of_le hLe
  simp only
  split_ifs with hOnce
  · have hEnd : b.owptr + n ≤ PSND_OBUF_SIZE := by
      have hq := h.length_eq
      split_ifs at hq <;> omega
    have hPush := h.push (show b.owptr + (data.take n).length ≤ _ by omega) (by omega)
    rw [hLen] at hPush
    refine ⟨rfl, append_nil _, ?_, hPush, rfl, rfl⟩
    intro c hc
    rw [List.mem_singleton.mp hc]
    exact Copy.inside hEnd (show 0 + n ≤ _ by omega)
  · obtain ⟨hWrap, hOver⟩ := not_or.mp hOnce
    generalize he : PSND_OBUF_SIZE - b.owptr = e at *
    have hLen₁ : (data.take e).length = e := length_take_of_le (by omega)
    have hLen₂ : ((data.drop e).take (n - e)).length = n - e :=
      length_take_of_le (by rw [length_drop]; omega)
    have hPush₁ := h.push (show b.owptr + (data.take e).length ≤ _ by omega) (by omega)
    have hStart : (b.owptr + (data.take e).length) % PSND_OBUF_SIZE = 0 := by
      rw [hLen₁, show b.owptr + e = PSND_OBUF_SIZE by omega, Nat.mod_self]
    rw [hStart] at hPush₁
    have hPush₂ := hPush₁.push (show 0 + ((data.drop e).take (n - e)).length ≤ _ by omega)
      (by rw [length_append]; omega)
    rw [hLen₂, Nat.zero_add, Nat.mod_eq_of_lt (by omega), append_assoc, ← take_add,
      Nat.add_sub_cancel' (by omega)] at hPush₂
    refine ⟨rfl, ?_, ?_, hPush₂, rfl, rfl⟩
    · show data.take e ++ ((data.drop e).take (n - e) ++ []) = _
      rw [append_nil, ← take_add, Nat.add_sub_cancel' (by omega)]
    · intro c hc
      rcases List.mem_cons.mp hc with rfl | hc
      · exact Copy.inside (show b.owptr + e ≤ _ by omega) (show 0 + e ≤ _ by omega)
      · rw [List.mem_singleton.mp hc]
        exact Copy.inside (show 0 + (n - e) ≤ _ by omega) (show e + (n - e) ≤ _ by omega)

end Write

/-! ## One fetch -/

section Fetch

variable {blk : Blkcipher} (hBlk : blk.KeepsLength)

include hBlk in
theorem length_privsoundCrypt (data : List UInt8) (ref : Option PrivCryptCtx) :
    (privsoundCrypt blk data ref).1.length = data.length := by
  cases ref with
  | none => rfl
  | some cctx => exact length_privCrypt hBlk cctx data

def frames (fetched : List Fetch) : List UInt8 := (fetched.map Fetch.frame).flatten

include hBlk in
theorem toHwLoop_holds (n : Nat) {hw : Mem} {ptr : Nat} {b : PsndBuf} {q : List UInt8}
    (h : RingHolds b.obuffer PSND_OBUF_SIZE b.ofptr b.owptr q) (hAligned : 4 ∣ b.ofptr)
    (hn : 4 * n ≤ q.length) :
    let r := toHwLoop blk 4 n hw ptr b
    frames r.1 = q.take (4 * n) ∧ (∀ f ∈ r.1, f.frame.length = 4) ∧ r.1.length = n ∧
      RingHolds r.2.2.obuffer PSND_OBUF_SIZE r.2.2.ofptr r.2.2.owptr (q.drop (4 * n)) ∧
      4 ∣ r.2.2.ofptr := by
  induction n generalizing hw ptr b q with
  | zero => exact ⟨rfl, (fun _ hf => nomatch hf), rfl, h, hAligned⟩
  | succ n ih =>
    have hf := h.fetch_lt
    -- a frame does not go across the end of the ring
    have hEnd : b.ofptr + 4 ≤ PSND_OBUF_SIZE := by
      simp only [PSND_OBUF_SIZE] at *
      omega
    have hFrame : load b.obuffer b.ofptr 4 = q.take 4 := h.load_front (by omega) hEnd
    have hOut := length_privsoundCrypt hBlk (load b.obuffer b.ofptr 4) b.outRef
    have hWipe : store (store b.obuffer b.ofptr (privsoundCrypt blk (load b.obuffer b.ofptr 4)
        b.outRef).1) b.ofptr (replicate 4 0) = store b.obuffer b.ofptr (replicate 4 0) :=
      store_store _ _ (by rw [hOut, length_load, length_replicate])
    have hMoved : (if b.ofptr + 4 ≥ PSND_OBUF_SIZE then b.ofptr + 4 - PSND_OBUF_SIZE
        else b.ofptr + 4) = (b.ofptr + 4) % PSND_OBUF_SIZE := by
      split
      · rw [show b.ofptr + 4 = PSND_OBUF_SIZE by omega, Nat.mod_self, Nat.sub_self]
      · rw [Nat.mod_eq_of_lt (by omega)]
    have hFour : (replicate 4 (0 : UInt8)).length = 4 := length_replicate
    have hNext := h.store_front (show b.ofptr + (replicate 4 (0 : UInt8)).length ≤ _ by
      rwa [hFour]) (by rw [hFour]; omega)
    rw [hFour] at hNext
    have hAligned' : 4 ∣ (b.ofptr + 4) % PSND_OBUF_SIZE :=
      (Nat.dvd_mod_iff (by decide)).mpr (Nat.dvd_add hAligned (Nat.dvd_refl 4))
    simp only [toHwLoop, hWipe, hMoved]
    obtain ⟨hFrames, hEach, hCount, hHolds, hAl⟩ := ih (b := { b with
        obuffer := store b.obuffer b.ofptr (replicate 4 0)
        outRef := (privsoundCrypt blk (load b.obuffer b.ofptr 4) b.outRef).2
        ofptr := (b.ofptr + 4) % PSND_OBUF_SIZE }) hNext hAligned'
      (by rw [length_drop]; omega)
    refine ⟨?_, ?_, ?_, ?_, hAl⟩
    · show load b.obuffer b.ofptr 4 ++ frames _ = _
      rw [hFrames, hFrame, ← take_add]
      congr 1
      omega
    · intro f hf
      rcases List.mem_cons.mp hf with rfl | hf
      · exact length_load ..
      · exact hEach f hf
    · rw [length_cons, hCount]
    · rw [drop_drop, show 4 + 4 * n = 4 * (n + 1) by omega] at hHolds
      exact hHolds

end Fetch

def heard (fetched : List Fetch) : List UInt8 := (fetched.map Fetch.plain).flatten

theorem toHwLoop_heard {aes : List UInt8 → BlockStream 128 16} (n : Nat) (hw : Mem) (ptr : Nat)
    {b : PsndBuf} {cctx : PrivCryptCtx} (hRef : b.outRef = some cctx)
    (hAct : cctx.activated = true) :
    let r := toHwLoop (.ctr aes) 4 n hw ptr b
    heard r.1 = cryptFrames (aes cctx.key) cctx.ctr (frames r.1) ∧
      r.2.2.outRef = some (moved cctx n) := by
  induction n generalizing hw ptr b cctx with
  | zero => exact ⟨rfl, by rw [moved_zero]; exact hRef⟩
  | succ n ih =>
    have hFrame : (load b.obuffer b.ofptr 4).length = 4 := length_load ..
    simp only [toHwLoop, hRef, privsoundCrypt_frame hAct hFrame]
    have hAct' : (moved cctx 1).activated = true := hAct
    refine ⟨?_, ?_⟩
    · show (ctrCrypt (aes cctx.key) cctx.ctr (load b.obuffer b.ofptr 4)).1 ++ heard _ =
        cryptFrames _ _ (load b.obuffer b.ofptr 4 ++ frames _)
      rw [cryptFrames_cons hFrame]
      exact congrArg _ (ih _ _ rfl hAct').1
    · rw [Nat.add_comm n 1, ← moved_moved]
      exact (ih _ _ rfl hAct').2

/-- A buffer, with the bytes that have been stored in it and the frames fetched from it. -/
structure Playback where
  buf : PsndBuf
  hw : Mem
  stored : List UInt8
  fetched : List Fetch

inductive PlaybackOp where
  | write (data : List UInt8)
  | toHw (ptr frames : Nat)
  deriving DecidableEq, Repr

section Runs

variable (blk : Blkcipher)

variable {s : Playback}

def PlaybackOp.run : PlaybackOp → Playback → Playback
  | write data, s =>
    let r := binWrite data s.buf
    { s with buf := r.2.2, stored := s.stored ++ r.2.1.flatMap (Copy.bytes data) }
  | toHw ptr frames, s =>
    let r := bufToHw blk s.hw ptr 4 frames s.buf
    { s with buf := r.2.2, hw := r.2.1, fetched := s.fetched ++ r.1 }

def PlaybackOp.Step (s : Playback) (op : PlaybackOp) (t : Playback) : Prop := t = op.run blk s

/-- The copies of a write are inside, and it returns the number of bytes that
they store. -/
def PlaybackOp.Inside (s : Playback) : PlaybackOp → Prop
  | write data =>
    (∀ c ∈ (binWrite data s.buf).2.1, c.Inside data.length) ∧
      (binWrite data s.buf).1 = ((binWrite data s.buf).2.1.flatMap (Copy.bytes data)).length
  | toHw _ _ => True

/-- The pointers are in the ring, four bytes are free, and the frames fetched are
the groups of four of the bytes stored. -/
structure Queue (s : Playback) : Prop where
  write_lt : s.buf.owptr < PSND_OBUF_SIZE
  fetch_lt : s.buf.ofptr < PSND_OBUF_SIZE
  aligned : 4 ∣ s.buf.ofptr
  free : outputHeld s.buf + 4 ≤ PSND_OBUF_SIZE
  four : ∀ f ∈ s.fetched, f.frame.length = 4
  in_order : frames s.fetched = s.stored.take (4 * s.fetched.length)

/-- The ring holds what has been stored and not been fetched. -/
structure PlaybackInv (s : Playback) : Prop where
  aligned : 4 ∣ s.buf.ofptr
  four : ∀ f ∈ s.fetched, f.frame.length = 4
  held : ∃ q, RingHolds s.buf.obuffer PSND_OBUF_SIZE s.buf.ofptr s.buf.owptr q ∧
    q.length + 4 ≤ PSND_OBUF_SIZE ∧ frames s.fetched ++ q = s.stored

variable {blk}

theorem length_frames {fetched : List Fetch} (h : ∀ f ∈ fetched, f.frame.length = 4) :
    (frames fetched).length = 4 * fetched.length := by
  induction fetched with
  | nil => rfl
  | cons f fs ih =>
    show (f.frame ++ frames fs).length = _
    rw [length_append, h f mem_cons_self, ih fun g hg => h g (mem_cons_of_mem _ hg),
      length_cons]
    omega

theorem PlaybackInv.queue (h : PlaybackInv s) : Queue s := by
  obtain ⟨q, hHolds, hFree, hSplit⟩ := h.held
  refine ⟨hHolds.write_lt, hHolds.fetch_lt, h.aligned, ?_, h.four, ?_⟩
  · have hLen := hHolds.length_eq
    rwa [outputHeld, ← hLen]
  · rw [← hSplit, List.take_left' (length_frames h.four)]

theorem PlaybackInv.write (h : PlaybackInv s) (data : List UInt8) :
    (PlaybackOp.write data).Inside s ∧ PlaybackInv ((PlaybackOp.write data).run blk s) := by
  obtain ⟨q, hHolds, hFree, hSplit⟩ := h.held
  obtain ⟨hRet, hBytes, hInside, hHolds', hFetch, -⟩ := @binWrite_holds s.buf data q hHolds hFree
  refine ⟨⟨hInside, ?_⟩, ?_, h.four, q ++ data.take (min (PSND_OBUF_SIZE - 4 - q.length) data.length),
    ?_, ?_, ?_⟩
  · rw [hRet, hBytes, length_take_of_le (Nat.min_le_right _ _)]
  · show 4 ∣ (binWrite data s.buf).2.2.ofptr
    rw [hFetch]
    exact h.aligned
  · show RingHolds _ _ (binWrite data s.buf).2.2.ofptr _ _
    rw [hFetch]
    exact hHolds'
  · rw [length_append, length_take_of_le (Nat.min_le_right _ _)]
    omega
  · show _ = s.stored ++ (binWrite data s.buf).2.1.flatMap (Copy.bytes data)
    rw [hBytes, ← hSplit, append_assoc]
    rfl

theorem PlaybackInv.toHw (hBlk : blk.KeepsLength) (h : PlaybackInv s)
    (ptr count : Nat) : PlaybackInv ((PlaybackOp.toHw ptr count).run blk s) := by
  obtain ⟨q, hHolds, hFree, hSplit⟩ := h.held
  have hNum := hHolds.length_eq
  simp only [PlaybackOp.run, bufToHw, ge_iff_le, ← hNum]
  have hn : 4 * (if count > q.length / 4 then q.length / 4 else count) ≤ q.length := by
    split <;> omega
  generalize (if count > q.length / 4 then q.length / 4 else count) = n at hn
  obtain ⟨hFrames, hFour, -, hHolds', hAl⟩ := @toHwLoop_holds blk hBlk n s.hw ptr s.buf q hHolds
    h.aligned hn
  refine ⟨hAl, ?_, q.drop (4 * n), hHolds', ?_, ?_⟩
  · intro f hf
    rcases List.mem_append.mp hf with hf | hf
    · exact h.four f hf
    · exact hFour f hf
  · rw [length_drop]
    omega
  · rw [frames, map_append, flatten_append]
    show frames s.fetched ++ frames _ ++ _ = _
    rw [hFrames, append_assoc, take_append_drop]
    exact hSplit

/-- **The output ring is a queue**, starting empty, for writes and fetches of any lengths. -/
theorem playback_fifo (hBlk : blk.KeepsLength) {s : Playback} {tr : Trace Playback PlaybackOp}
    (hEmpty : s.buf.ofptr = s.buf.owptr) (hIn : s.buf.ofptr < PSND_OBUF_SIZE)
    (hAligned : 4 ∣ s.buf.ofptr) (hStored : s.stored = []) (hFetched : s.fetched = [])
    (hTr : IsTrace (PlaybackOp.Step blk) s tr) :
    EachState Queue s tr ∧ EachStep PlaybackOp.Inside s tr := by
  have hInv : PlaybackInv s := by
    refine ⟨hAligned, ?_, [], ?_, by decide, ?_⟩
    · rw [hFetched]
      exact fun _ hf => nomatch hf
    · rw [← hEmpty]
      exact RingHolds.empty _ hIn
    · rw [hFetched, hStored]
      rfl
  have hStep : ∀ s op t, PlaybackInv s → PlaybackOp.Step blk s op t →
      op.Inside s ∧ PlaybackInv t := by
    rintro s op t hInv rfl
    cases op with
    | write data => exact hInv.write data
    | toHw ptr count => exact ⟨trivial, hInv.toHw hBlk ptr count⟩
  have hGuard : EachStep (fun _ _ => True) s tr := eachStep_trivial tr
  exact ⟨eachState_of_inv (fun _ hInv => PlaybackInv.queue hInv)
      (fun s op t hInv hS _ => (hStep s op t hInv hS).2) hInv hTr hGuard,
    eachStep_of_inv (fun s op t hInv hS _ => hStep s op t hInv hS) hInv hTr hGuard⟩

end Runs

def samplePlayback : Playback where
  buf :=
    { ibuffer := fun _ => 0
      obuffer := fun _ => 0
      outRef := none
      inRef := none
      owptr := 63996
      ofptr := 63996
      iwptr := 0
      ifptr := 0
      inputEnabled := false }
  hw := fun _ => 0
  stored := []
  fetched := []

theorem playback_sample :
    let t₁ := (PlaybackOp.write [1, 2, 3, 4, 5, 6, 7]).run (.ctr plainAes) samplePlayback
    let t₂ := (PlaybackOp.toHw 0 5).run (.ctr plainAes) t₁
    let tr : Trace Playback PlaybackOp := [(.write [1, 2, 3, 4, 5, 6, 7], t₁), (.toHw 0 5, t₂)]
    (EachState Queue samplePlayback tr ∧ EachStep PlaybackOp.Inside samplePlayback tr) ∧
      t₂.fetched.map Fetch.frame = [[1, 2, 3, 4]] :=
  ⟨@playback_fifo (.ctr plainAes) (Blkcipher.keepsLength_ctr _) samplePlayback _ rfl (by decide)
    ⟨15999, rfl⟩ rfl rfl ⟨rfl, rfl, trivial⟩, by decide +kernel⟩

end Lacuna.Sound
