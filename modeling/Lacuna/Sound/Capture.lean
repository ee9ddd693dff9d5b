import Lacuna.Lib.Trace
import Lacuna.Sound.Buffer

/-!
# Recording

What QEMU reads from the input ring is what the sound driver has written to it,
encrypted frame by frame, in order. The exception is a write that comes to the end of
the ring and goes on at its start: `privsound_encrypt_input` copies the rest from the
start of the data again.
-/

namespace Lacuna.Sound

open Lacuna.Lib Lacuna.Crypt List

/-! ## One call -/

/-- The bytes that fit in the input ring: four always stay free. -/
def inputRoom (b : PsndBuf) : Nat :=
  if b.iwptr < b.ifptr then b.ifptr - b.iwptr - 4 else PSND_IBUF_SIZE - b.iwptr + b.ifptr - 4

/-- The bytes that are taken of a text: as many whole frames as fit. -/
def inputTaken (b : PsndBuf) (len : Nat) : Nat := min (inputRoom b) len / 4 * 4

section Call

variable {blk : Blkcipher} {b : PsndBuf} {data : List UInt8}

/-- How much is taken where there is room for `room` bytes. -/
theorem avail_cases (room : Int) {len n : Nat} (hn : min room.toNat len / 4 * 4 = n) :
    let avail := if room > len then (len : Int) else room
    avail - avail.tmod 4 ≤ 0 ∧ n = 0 ∨ avail - avail.tmod 4 = n ∧ 0 < n := by
  intro avail
  have hMin : min room.toNat len = avail.toNat := by
    simp only [avail]
    split <;> omega
  rw [hMin] at hn
  subst hn
  rcases lt_or_ge avail 0 with hNeg | hNonneg
  · have hDiv : 0 ≤ (-avail).tdiv 4 := Int.tdiv_nonneg (by omega) (by decide)
    rw [Int.neg_tdiv] at hDiv
    have hSplit := Int.mul_tdiv_add_tmod avail 4
    left
    omega
  · rw [Int.tmod_eq_emod_of_nonneg hNonneg]
    omega

theorem encryptInput_eq (hEnabled : b.inputEnabled = true) (hw : b.iwptr < PSND_IBUF_SIZE) :
    encryptInput blk data b = if inputTaken b data.length = 0 then b
      else if b.iwptr < b.ifptr ∨ inputTaken b data.length ≤ PSND_IBUF_SIZE - b.iwptr then
        putInput blk (data.take (inputTaken b data.length)) b
      else
        putInput blk (data.take (inputTaken b data.length - (PSND_IBUF_SIZE - b.iwptr)))
          (putInput blk (data.take (PSND_IBUF_SIZE - b.iwptr)) b) := by
  have hOn : ¬ b.inputEnabled = false := by rw [hEnabled]; decide
  generalize hn : inputTaken b data.length = n
  rw [inputTaken, inputRoom] at hn
  rw [encryptInput, if_neg hOn]
  by_cases hLt : b.iwptr < b.ifptr
  · -- one copy at most, before the fetch pointer
    rw [if_pos hLt] at hn
    have hAvail := @avail_cases ((b.ifptr : Int) - b.iwptr - 4) data.length n (by omega)
    simp only [if_pos (Int.ofNat_lt.mpr hLt), if_pos (.inl hLt : b.iwptr < b.ifptr ∨ _)]
    rcases hAvail with ⟨hLe, hZero⟩ | ⟨hEq, hPos⟩
    · rw [if_pos hLe, if_pos hZero]
    · rw [hEq, if_neg (by omega), if_neg (by omega), Int.toNat_natCast]
  · -- up to the end of the ring, and on from its start
    rw [if_neg hLt] at hn
    have hAvail := @avail_cases ((PSND_IBUF_SIZE : Int) - b.iwptr + b.ifptr - 4) data.length n
      (by omega)
    simp only [if_neg (fun h => hLt (Int.ofNat_lt.mp h) : ¬ (b.iwptr : Int) < b.ifptr)]
    rcases hAvail with ⟨hLe, hZero⟩ | ⟨hEq, hPos⟩
    · rw [if_pos hZero, if_pos (by omega)]
    · rw [hEq, if_neg (by omega : ¬ n = 0)]
      by_cases hEnd : n ≤ PSND_IBUF_SIZE - b.iwptr
      · have hFirst : (if (PSND_IBUF_SIZE : Int) - b.iwptr > n then (n : Int)
            else (PSND_IBUF_SIZE : Int) - b.iwptr) = n := by
          split <;> omega
        have hSecond : (if (PSND_IBUF_SIZE : Int) - b.iwptr > n then (0 : Int)
            else n - ((PSND_IBUF_SIZE : Int) - b.iwptr)) ≤ 0 := by
          split <;> omega
        rw [hFirst, if_neg (by omega), if_pos hSecond, if_pos (.inr hEnd), Int.toNat_natCast]
      · have hMore : ¬ (PSND_IBUF_SIZE : Int) - b.iwptr > n := by omega
        have hFirst : ((PSND_IBUF_SIZE : Int) - b.iwptr).toNat = PSND_IBUF_SIZE - b.iwptr := by omega
        have hSecond : ((n : Int) - ((PSND_IBUF_SIZE : Int) - b.iwptr)).toNat =
            n - (PSND_IBUF_SIZE - b.iwptr) := by omega
        rw [if_neg hMore, if_neg hMore, if_neg (by omega), if_neg (by omega), hFirst, hSecond,
          if_neg (by rintro (h | h) <;> contradiction)]

variable {aes : List UInt8 → BlockStream 128 16} {cctx : PrivCryptCtx}

theorem putInput_eq (hRef : b.inRef = some cctx) (hAct : cctx.activated = true)
    {piece : List UInt8} (h : 4 ∣ piece.length) :
    putInput (.ctr aes) piece b = { b with
        ibuffer := store b.ibuffer b.iwptr (cryptFrames (aes cctx.key) cctx.ctr piece)
        inRef := some (moved cctx (piece.length / 4))
        iwptr := (b.iwptr + piece.length) % PSND_IBUF_SIZE } := by
  have hTurns : (piece.length + 3) / 4 = piece.length / 4 := by omega
  have hLoad : load (store b.ibuffer b.iwptr piece) b.iwptr (4 * (piece.length / 4)) = piece := by
    rw [Nat.mul_div_cancel' h, load_store_self]
  rw [putInput, hRef, cryptRange_eq _ _ _ hAct, hTurns, hLoad,
    store_store _ _ (length_cryptFrames h _).symm]

theorem binRead_holds {q : List UInt8}
    (h : RingHolds b.ibuffer PSND_IBUF_SIZE b.ifptr b.iwptr q) (count : Nat) :
    ∃ m ≤ q.length, (binRead count b).1 = q.take m ∧
      RingHolds b.ibuffer PSND_IBUF_SIZE (binRead count b).2.ifptr b.iwptr (q.drop m) := by
  have hf := h.fetch_lt
  have hw := h.write_lt
  have hLen := h.length_eq
  simp only [binRead]
  -- the bytes up to the end of the ring, and those from its start
  generalize hn₁ : (if (if b.iwptr ≥ b.ifptr then b.iwptr - b.ifptr else PSND_IBUF_SIZE - b.ifptr) >
    count then count else if b.iwptr ≥ b.ifptr then b.iwptr - b.ifptr
      else PSND_IBUF_SIZE - b.ifptr) = n₁
  generalize hn₂ : (if (if b.iwptr ≥ b.ifptr then 0 else b.iwptr) > count - n₁ then count - n₁
    else if b.iwptr ≥ b.ifptr then 0 else b.iwptr) = n₂
  have hEnd : b.ifptr + n₁ ≤ PSND_IBUF_SIZE ∧ n₁ ≤ q.length := by
    rw [← hn₁, hLen]
    split_ifs <;> omega
  have hRest : n₂ = 0 ∨ b.ifptr + n₁ = PSND_IBUF_SIZE ∧ n₂ ≤ b.iwptr ∧ b.iwptr < b.ifptr := by
    rw [← hn₂]
    rw [← hn₁]
    split_ifs <;> omega
  have hPop := h.pop hEnd.2
  have hStart : (b.ifptr + n₁) % PSND_IBUF_SIZE + n₂ < PSND_IBUF_SIZE ∧ n₂ ≤ (q.drop n₁).length := by
    rw [length_drop, hLen]
    rcases hRest with hZero | ⟨hWrap, hLe, hLt⟩
    · rw [hZero, Nat.add_zero]
      exact ⟨Nat.mod_lt _ (Nat.zero_lt_of_lt hf), Nat.zero_le _⟩
    · rw [hWrap, Nat.mod_self, if_neg (by omega)]
      omega
  have hPop₂ := hPop.pop hStart.2
  rw [Nat.mod_eq_of_lt hStart.1, drop_drop] at hPop₂
  refine ⟨n₁ + n₂, ?_, ?_, hPop₂⟩
  · have h₂ := hStart.2
    rw [length_drop] at h₂
    omega
  · rw [h.load_front hEnd.2 hEnd.1, hPop.load_front hStart.2 hStart.1.le, take_add]

end Call

/-- A buffer, with the data that it has taken and what has been read from it. -/
structure Capture where
  buf : PsndBuf
  accepted : List UInt8
  returned : List UInt8

inductive CaptureOp where
  | input (data : List UInt8)
  | read (count : Nat)
  deriving DecidableEq

section Runs

variable (blk : Blkcipher)

variable {s : Capture}

/-- What a call takes of its data is told by the write pointer. -/
def CaptureOp.run : CaptureOp → Capture → Capture
  | input data, s =>
    let b := encryptInput blk data s.buf
    { s with
      buf := b
      accepted := s.accepted ++
        data.take ((b.iwptr + PSND_IBUF_SIZE - s.buf.iwptr) % PSND_IBUF_SIZE) }
  | read count, s =>
    let r := binRead count s.buf
    { s with buf := r.2, returned := s.returned ++ r.1 }

def CaptureOp.Step (s : Capture) (op : CaptureOp) (t : Capture) : Prop :=
  (∀ data, op = input data → 4 ∣ data.length) ∧ t = op.run blk s

/-- No write across the end of the ring, or what comes after the end is what the data begin with. -/
def CaptureOp.Fits (s : Capture) : CaptureOp → Prop
  | input data =>
    let n := inputTaken s.buf data.length
    let end₁ := PSND_IBUF_SIZE - s.buf.iwptr
    s.buf.iwptr < s.buf.ifptr ∨ n ≤ end₁ ∨ (data.take n).drop end₁ = data.take (n - end₁)
  | read _ => True

/-! ## Lossless -/

variable (aes : List UInt8 → BlockStream 128 16)

/-- What has been read is the beginning of the encryption of what was taken. -/
def ReadsEncrypted (cctx : PrivCryptCtx) (s : Capture) : Prop :=
  s.returned <+: cryptFrames (aes cctx.key) cctx.ctr s.accepted

structure CaptureInv (cctx : PrivCryptCtx) (s : Capture) : Prop where
  enabled : s.buf.inputEnabled = true
  frames : 4 ∣ s.accepted.length
  ref : s.buf.inRef = some (moved cctx (s.accepted.length / 4))
  write_frames : 4 ∣ s.buf.iwptr
  held : ∃ q, RingHolds s.buf.ibuffer PSND_IBUF_SIZE s.buf.ifptr s.buf.iwptr q ∧
    q.length + 4 ≤ PSND_IBUF_SIZE ∧
    s.returned ++ q = cryptFrames (aes cctx.key) cctx.ctr s.accepted

variable {aes} {cctx : PrivCryptCtx} (hAct : cctx.activated = true)

include hAct in
theorem CaptureInv.put (h : CaptureInv aes cctx s) {piece : List UInt8}
    (hFrames : 4 ∣ piece.length) (hEnd : s.buf.iwptr + piece.length ≤ PSND_IBUF_SIZE)
    (hRoom : piece.length ≤ inputRoom s.buf) :
    CaptureInv aes cctx
      { s with buf := putInput (.ctr aes) piece s.buf, accepted := s.accepted ++ piece } := by
  obtain ⟨q, hHolds, hFree, hSplit⟩ := h.held
  have hLen : (cryptFrames (aes cctx.key) (moved cctx (s.accepted.length / 4)).ctr piece).length =
      piece.length := length_cryptFrames hFrames _
  have hFit : q.length + piece.length + 4 ≤ PSND_IBUF_SIZE := by
    have hq := hHolds.length_eq
    have hf := hHolds.fetch_lt
    have hw := hHolds.write_lt
    simp only [inputRoom] at hRoom
    split_ifs at hRoom hq <;> omega
  have hEnd' : s.buf.iwptr + (cryptFrames (aes cctx.key) (moved cctx (s.accepted.length / 4)).ctr
      piece).length ≤ PSND_IBUF_SIZE := by rwa [hLen]
  have hPush := hHolds.push hEnd' (by omega)
  rw [putInput_eq h.ref (show (moved cctx _).activated = true from hAct) hFrames]
  refine ⟨h.enabled, ?_, ?_, ?_,
    q ++ cryptFrames (aes cctx.key) (moved cctx (s.accepted.length / 4)).ctr piece, ?_, ?_, ?_⟩
  · rw [length_append]
    exact Nat.dvd_add h.frames hFrames
  · rw [moved_moved, length_append, Nat.add_div_of_dvd_right h.frames]
  · exact (Nat.dvd_mod_iff (by decide)).mpr (Nat.dvd_add h.write_frames hFrames)
  · rw [hLen] at hPush
    exact hPush
  · rw [length_append, hLen]
    exact hFit
  · rw [← append_assoc, hSplit, cryptFrames_append h.frames]
    rfl

theorem moved_by {w n : Nat} (hw : w < PSND_IBUF_SIZE) (hn : n < PSND_IBUF_SIZE) :
    ((w + n) % PSND_IBUF_SIZE + PSND_IBUF_SIZE - w) % PSND_IBUF_SIZE = n := by
  simp only [PSND_IBUF_SIZE] at *
  omega

theorem inputTaken_lt {b : PsndBuf} (hw : b.iwptr < PSND_IBUF_SIZE) (hf : b.ifptr < PSND_IBUF_SIZE)
    (len : Nat) : inputTaken b len + 4 ≤ PSND_IBUF_SIZE ∧ inputTaken b len ≤ inputRoom b ∧
      inputTaken b len ≤ len := by
  simp only [inputTaken, inputRoom, PSND_IBUF_SIZE] at *
  split <;> omega

include hAct in
theorem CaptureInv.input (h : CaptureInv aes cctx s) {data : List UInt8}
    (hFits : (CaptureOp.input data).Fits s) :
    CaptureInv aes cctx ((CaptureOp.input data).run (.ctr aes) s) := by
  obtain ⟨q, hHolds, -, -⟩ := h.held
  have hw := hHolds.write_lt
  have hf := hHolds.fetch_lt
  obtain ⟨hLt, hRoom, hLe⟩ := inputTaken_lt hw hf data.length
  have hFrames : 4 ∣ inputTaken s.buf data.length := Nat.dvd_mul_left 4 _
  have hTake : (data.take (inputTaken s.buf data.length)).length = inputTaken s.buf data.length :=
    length_take_of_le hLe
  rw [CaptureOp.run, encryptInput_eq h.enabled hw]
  simp only [CaptureOp.Fits] at hFits
  generalize inputTaken s.buf data.length = n at *
  split_ifs with hZero hOnce
  · rw [Nat.add_sub_cancel_left, Nat.mod_self, take_zero, append_nil]
    exact h
  · -- one copy
    have hEnd : s.buf.iwptr + n ≤ PSND_IBUF_SIZE := by
      simp only [inputRoom] at hRoom
      split_ifs at hRoom <;> omega
    rw [← hTake] at hFrames hEnd hRoom
    have hPut := h.put hAct hFrames hEnd hRoom
    have hMoved : ((putInput (.ctr aes) (data.take n) s.buf).iwptr + PSND_IBUF_SIZE - s.buf.iwptr) %
        PSND_IBUF_SIZE = n := by
      show ((s.buf.iwptr + (data.take n).length) % PSND_IBUF_SIZE + PSND_IBUF_SIZE - s.buf.iwptr) %
        PSND_IBUF_SIZE = n
      rw [hTake]
      exact moved_by hw (by omega)
    rw [hMoved]
    exact hPut
  · -- two copies, of which the second continues the first
    obtain ⟨hWrap, hOver⟩ := not_or.mp hOnce
    have hRest : (data.take n).drop (PSND_IBUF_SIZE - s.buf.iwptr) =
        data.take (n - (PSND_IBUF_SIZE - s.buf.iwptr)) :=
      (hFits.resolve_left hWrap).resolve_left hOver
    have hEndFrames : 4 ∣ PSND_IBUF_SIZE - s.buf.iwptr := Nat.dvd_sub (by decide) h.write_frames
    rw [inputRoom, if_neg hWrap] at hRoom
    generalize he : PSND_IBUF_SIZE - s.buf.iwptr = e at *
    have hTake₁ : (data.take e).length = e := length_take_of_le (by omega)
    have hTake₂ : (data.take (n - e)).length = n - e := length_take_of_le (by omega)
    have hStart : (s.buf.iwptr + (data.take e).length) % PSND_IBUF_SIZE = 0 := by
      rw [hTake₁, show s.buf.iwptr + e = PSND_IBUF_SIZE by omega, Nat.mod_self]
    have hPut₁ := h.put hAct (by rwa [hTake₁]) (show s.buf.iwptr + (data.take e).length ≤ _ by omega)
      (by rw [inputRoom, if_neg hWrap]; omega)
    have hRoom₂ : n - e ≤ inputRoom (putInput (.ctr aes) (data.take e) s.buf) := by
      show _ ≤ if (s.buf.iwptr + (data.take e).length) % PSND_IBUF_SIZE < s.buf.ifptr then _ else _
      rw [hStart, if_pos (by omega)]
      show _ ≤ s.buf.ifptr - (s.buf.iwptr + (data.take e).length) % PSND_IBUF_SIZE - 4
      omega
    have hPut₂ := hPut₁.put hAct (by rw [hTake₂]; exact Nat.dvd_sub hFrames hEndFrames)
      (show (s.buf.iwptr + (data.take e).length) % PSND_IBUF_SIZE + (data.take (n - e)).length ≤ _ by
        omega)
      (by rwa [hTake₂])
    have hMoved : ((putInput (.ctr aes) (data.take (n - e))
        (putInput (.ctr aes) (data.take e) s.buf)).iwptr + PSND_IBUF_SIZE - s.buf.iwptr) %
        PSND_IBUF_SIZE = n := by
      show (((s.buf.iwptr + (data.take e).length) % PSND_IBUF_SIZE + (data.take (n - e)).length) %
        PSND_IBUF_SIZE + PSND_IBUF_SIZE - s.buf.iwptr) % PSND_IBUF_SIZE = n
      rw [Nat.mod_add_mod, Nat.add_assoc, hTake₁, hTake₂, Nat.add_sub_cancel' (by omega)]
      exact moved_by hw (by omega)
    have hAll : s.accepted ++ data.take e ++ data.take (n - e) = s.accepted ++ data.take n := by
      rw [append_assoc, ← hRest, drop_take, ← take_add, Nat.add_sub_cancel' (by omega)]
    rw [hMoved, ← hAll]
    exact hPut₂

theorem CaptureInv.read (h : CaptureInv aes cctx s) (count : Nat) :
    CaptureInv aes cctx ((CaptureOp.read count).run (.ctr aes) s) := by
  obtain ⟨q, hHolds, hFree, hSplit⟩ := h.held
  obtain ⟨m, hm, hOut, hHolds'⟩ := binRead_holds hHolds count
  refine ⟨h.enabled, h.frames, h.ref, h.write_frames, q.drop m, hHolds', ?_, ?_⟩
  · rw [length_drop]
    omega
  · show s.returned ++ (binRead count s.buf).1 ++ q.drop m = _
    rw [hOut, append_assoc, take_append_drop]
    exact hSplit

include hAct in
/-- **Lossless recording.** As long as no call writes across the end of the ring,
what has been read is the beginning of the encryption of what has been taken,
frame by frame. -/
theorem capture_lossless {s : Capture} {tr : Trace Capture CaptureOp}
    (hEnabled : s.buf.inputEnabled = true) (hRef : s.buf.inRef = some cctx)
    (hEmpty : s.buf.ifptr = s.buf.iwptr) (hIn : s.buf.iwptr < PSND_IBUF_SIZE)
    (hFrames : 4 ∣ s.buf.iwptr) (hAccepted : s.accepted = []) (hReturned : s.returned = [])
    (hTr : IsTrace (CaptureOp.Step (.ctr aes)) s tr) (hFits : EachStep CaptureOp.Fits s tr) :
    EachState (ReadsEncrypted aes cctx) s tr := by
  have hInv : CaptureInv aes cctx s := by
    refine ⟨hEnabled, ?_, ?_, hFrames, [], ?_, by decide, ?_⟩
    · rw [hAccepted]
      exact Nat.dvd_zero 4
    · rw [hRef, hAccepted, List.length_nil, Nat.zero_div, moved_zero]
    · rw [hEmpty]
      exact RingHolds.empty _ hIn
    · rw [hAccepted, hReturned]
      rfl
  have hStep : ∀ s op t, CaptureInv aes cctx s → CaptureOp.Step (.ctr aes) s op t →
      CaptureOp.Fits s op → CaptureInv aes cctx t := by
    rintro s op t hInv ⟨-, rfl⟩ hFits
    cases op with
    | input data => exact hInv.input hAct hFits
    | read count => exact hInv.read count
  have hReads : ∀ s, CaptureInv aes cctx s → ReadsEncrypted aes cctx s := by
    intro s hInv
    obtain ⟨q, -, -, hSplit⟩ := hInv.held
    exact ⟨q, hSplit⟩
  exact eachState_of_inv hReads hStep hInv hTr hFits

end Runs

def sampleCctx : PrivCryptCtx where
  id := 1
  allocPid := 1
  userLock := false
  userRef := none
  activated := true
  dir := .enc
  key := []
  ctr := 0

/-- A buffer from which everything has been read, with both pointers at `pos`. -/
def sampleCapture (pos : Nat) : Capture where
  buf :=
    { ibuffer := fun _ => 0
      obuffer := fun _ => 0
      outRef := none
      inRef := some sampleCctx
      owptr := 0
      ofptr := 0
      iwptr := pos
      ifptr := pos
      inputEnabled := true }
  accepted := []
  returned := []

/-- Three frames, two of which fit before the end of the ring. The first is read
again in the place of the third. -/
theorem straddling_repeats :
    ∃ tr : Trace Capture CaptureOp,
      IsTrace (CaptureOp.Step (.ctr plainAes)) (sampleCapture 6392) tr ∧
      (lastState (sampleCapture 6392) tr).accepted = [1, 2, 3, 4, 5, 6, 7, 8, 9, 10, 11, 12] ∧
      (lastState (sampleCapture 6392) tr).returned = [1, 2, 3, 4, 5, 6, 7, 8, 1, 2, 3, 4] ∧
      ¬ ReadsEncrypted plainAes sampleCctx (lastState (sampleCapture 6392) tr) := by
  let t₁ := (CaptureOp.input [1, 2, 3, 4, 5, 6, 7, 8, 9, 10, 11, 12]).run (.ctr plainAes)
    (sampleCapture 6392)
  let t₂ := (CaptureOp.read 12).run (.ctr plainAes) t₁
  have hRun : t₂.accepted = [1, 2, 3, 4, 5, 6, 7, 8, 9, 10, 11, 12] ∧
      t₂.returned = [1, 2, 3, 4, 5, 6, 7, 8, 1, 2, 3, 4] := by
    decide +kernel
  refine ⟨[(.input [1, 2, 3, 4, 5, 6, 7, 8, 9, 10, 11, 12], t₁), (.read 12, t₂)],
    ⟨⟨?_, rfl⟩, ⟨?_, rfl⟩, trivial⟩, hRun.1, hRun.2, ?_⟩
  · rintro data ⟨⟩
    exact ⟨3, rfl⟩
  · rintro data ⟨⟩
  · show ¬ (t₂.returned <+: cryptFrames (plainAes sampleCctx.key) sampleCctx.ctr t₂.accepted)
    rw [hRun.1, hRun.2]
    decide +kernel

theorem fitting_lossless :
    EachState (ReadsEncrypted plainAes sampleCctx) (sampleCapture 6392)
      [(CaptureOp.input [1, 2, 3, 4, 5, 6, 7, 8],
        (CaptureOp.input [1, 2, 3, 4, 5, 6, 7, 8]).run (.ctr plainAes) (sampleCapture 6392))] := by
  refine capture_lossless rfl rfl rfl rfl (by decide) ⟨1598, rfl⟩ rfl rfl ⟨⟨?_, rfl⟩, trivial⟩
    ⟨Or.inr (Or.inl (by decide)), trivial⟩
  rintro data ⟨⟩
  exact ⟨2, rfl⟩

end Lacuna.Sound
