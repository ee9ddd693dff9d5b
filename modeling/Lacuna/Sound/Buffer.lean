import Lacuna.Lib.Ring
import Lacuna.Crypt.Channel

/-!
# The buffers of private sound

`drivers/priv_sysfs/privsound/privsound.c`. A virtual machine has a ring for
what it plays, which QEMU writes to and the sound driver fetches from, and one
for what it records, which the sound driver writes to and QEMU reads from. Both
hold encrypted frames of four bytes, each of them a message of its own
(`cryptFrames`).

The functions compute with `int` and `ssize_t`; the model does with `Int` where
a difference may be negative. A buffer that is handed over is a list of its
bytes, so its length is a length that an object can have.
-/

namespace Lacuna.Sound

open Lacuna.Lib Lacuna.Crypt List

def PSND_IBUF_SIZE : Nat := 6400
def PSND_OBUF_SIZE : Nat := 64000

structure PsndBuf where
  ibuffer : Mem
  obuffer : Mem
  outRef : Option PrivCryptCtx
  inRef : Option PrivCryptCtx
  owptr : Nat
  ofptr : Nat
  iwptr : Nat
  ifptr : Nat
  inputEnabled : Bool

/-- A loop over frames in memory, with the function that is called for each. -/
def frameLoop {σ : Type} (crypt : List UInt8 → σ → List UInt8 × σ) : Nat → Mem → Nat → σ → Mem × σ
  | 0, mem, _, s => (mem, s)
  | n + 1, mem, pos, s =>
    let r := crypt (load mem pos 4) s
    frameLoop crypt n (store mem pos r.1) (pos + 4) r.2

section Buffer

variable (blk : Blkcipher)

variable {data : List UInt8}

def privsoundCrypt (data : List UInt8) (ref : Option PrivCryptCtx) :
    List UInt8 × Option PrivCryptCtx :=
  match ref with
  | none => (data, none)
  | some cctx =>
    let r := privCrypt blk cctx data
    (r.2.1, some r.2.2)

/-! ## Recording -/

/-- `for (i = 0; i < avail; i += 4)`, with the number of its turns. -/
def cryptRange (n : Nat) (mem : Mem) (pos : Nat) (ref : Option PrivCryptCtx) :
    Mem × Option PrivCryptCtx :=
  frameLoop (privsoundCrypt blk) n mem pos ref

/-- A `memcpy` to the input ring, the loop that encrypts it, and the new write pointer. -/
def putInput (piece : List UInt8) (b : PsndBuf) : PsndBuf :=
  let r := cryptRange blk ((piece.length + 3) / 4) (store b.ibuffer b.iwptr piece) b.iwptr b.inRef
  { b with
    ibuffer := r.1
    inRef := r.2
    iwptr := (b.iwptr + piece.length) % PSND_IBUF_SIZE }

/-- The loop of `privsound_encrypt_input`, for one buffer. -/
def encryptInput (data : List UInt8) (b : PsndBuf) : PsndBuf :=
  if b.inputEnabled = false then b
  else
    let len : Int := data.length
    let wp : Int := b.iwptr
    let fp : Int := b.ifptr
    if wp < fp then
      let avail := fp - wp - 4
      let avail := if avail > len then len else avail
      let avail := avail - avail.tmod 4
      if avail ≤ 0 then b else putInput blk (data.take avail.toNat) b
    else
      let avail1 := PSND_IBUF_SIZE - wp
      let avail := avail1 + fp - 4
      let avail := if avail > len then len else avail
      let avail := avail - avail.tmod 4
      let avail2 := if avail1 > avail then 0 else avail - avail1
      let avail1 := if avail1 > avail then avail else avail1
      if avail1 ≤ 0 then b
      else
        let b := putInput blk (data.take avail1.toNat) b
        if avail2 ≤ 0 then b
        -- `memcpy(pbuf->ibuffer + wp, data, avail2)`: from the start of the data
        else putInput blk (data.take avail2.toNat) b

def privsoundEncryptInput (data : List UInt8) (bufs : List PsndBuf) : List PsndBuf × List UInt8 :=
  (bufs.map (encryptInput blk data), List.replicate data.length 0)

def binRead (count : Nat) (b : PsndBuf) : List UInt8 × PsndBuf :=
  let avail1 := if b.iwptr ≥ b.ifptr then b.iwptr - b.ifptr else PSND_IBUF_SIZE - b.ifptr
  let avail2 := if b.iwptr ≥ b.ifptr then 0 else b.iwptr
  let avail1 := if avail1 > count then count else avail1
  let count := count - avail1
  let fp := (b.ifptr + avail1) % PSND_IBUF_SIZE
  let avail2 := if avail2 > count then count else avail2
  (load b.ibuffer b.ifptr avail1 ++ load b.ibuffer fp avail2, { b with ifptr := fp + avail2 })

/-! ## Playback -/

/-- One call of `memcpy` from the data handed over to the output ring. -/
structure Copy where
  dst : Int
  src : Int
  len : Int
  deriving DecidableEq

def Copy.run (data : List UInt8) (obuffer : Mem) (c : Copy) : Mem :=
  store obuffer c.dst.toNat ((data.drop c.src.toNat).take c.len.toNat)

/-- The return value, the copies made and the buffer. -/
def privsoundWriteToBuf (data : List UInt8) (b : PsndBuf) : Int × List Copy × PsndBuf :=
  let size : Int := data.length
  let fp : Int := b.ofptr
  let wp : Int := b.owptr
  if wp < fp then
    let avail1 := fp - wp - 4
    let avail1 := if avail1 > size then size else avail1
    let copy : Copy := ⟨wp, 0, avail1⟩
    (avail1, [copy],
      { b with
        obuffer := copy.run data b.obuffer
        owptr := ((wp + avail1) % 2 ^ 32 % PSND_OBUF_SIZE).toNat })
  else
    let avail1 := PSND_OBUF_SIZE - wp
    let avail2 := fp
    let avail := avail1 + avail2 - 4
    let avail := if avail > size then size else avail
    let avail1 := if avail1 > avail then avail else avail1
    let copy1 : Copy := ⟨wp, 0, avail1⟩
    let b :=
      { b with
        obuffer := copy1.run data b.obuffer
        owptr := ((wp + avail1) % 2 ^ 32 % PSND_OBUF_SIZE).toNat }
    let avail2 := avail - avail1
    if avail2 > 0 then
      let copy2 : Copy := ⟨0, avail1, avail2⟩
      (avail1 + avail2, [copy1, copy2],
        { b with obuffer := copy2.run data b.obuffer, owptr := b.owptr + avail2.toNat })
    else (avail1 + avail2, [copy1], b)

def binWrite (data : List UInt8) (b : PsndBuf) : Int × List Copy × PsndBuf :=
  privsoundWriteToBuf data b

def binGetOutAvail (b : PsndBuf) : Int :=
  let size : Int :=
    if b.owptr ≥ b.ofptr then PSND_OBUF_SIZE - b.owptr + b.ofptr else b.ofptr - b.owptr
  (size - 4) / 4

/-- `*(signed short *)(mem + p) += *(signed short *)(src)`. -/
def addShort (mem : Mem) (p : Nat) (lo hi : UInt8) : Mem :=
  let x := (mem p).toNat + 256 * (mem (p + 1)).toNat + lo.toNat + 256 * hi.toNat
  store mem p [UInt8.ofNat x, UInt8.ofNat (x / 256)]

/-- What one turn of the inner loop of `privsound_buf_to_hw` fetches: the frame as it is in the
ring, and decrypted. -/
structure Fetch where
  frame : List UInt8
  plain : List UInt8
  deriving DecidableEq

/-- The inner loop of `privsound_buf_to_hw`, with the number of its turns. -/
def toHwLoop (frameSize : Nat) : Nat → Mem → Nat → PsndBuf → List Fetch × Mem × PsndBuf
  | 0, hw, _, b => ([], hw, b)
  | n + 1, hw, ptr, b =>
    let frame := load b.obuffer b.ofptr 4
    let r := privsoundCrypt blk frame b.outRef
    let mem := store b.obuffer b.ofptr r.1
    let hw := addShort hw ptr (mem b.ofptr) (mem (b.ofptr + 1))
    let half := b.ofptr + frameSize / 2
    let hw := addShort hw (ptr + frameSize / 2) (mem half) (mem (half + 1))
    let ofptr := b.ofptr + frameSize
    let b :=
      { b with
        obuffer := store mem b.ofptr (List.replicate 4 0)
        outRef := r.2
        ofptr := if ofptr ≥ PSND_OBUF_SIZE then ofptr - PSND_OBUF_SIZE else ofptr }
    let rest := toHwLoop frameSize n hw (ptr + frameSize) b
    (⟨frame, r.1⟩ :: rest.1, rest.2)

/-- The outer loop of `privsound_buf_to_hw`, for one buffer: what is fetched, and both buffers
afterwards. -/
def bufToHw (hw : Mem) (ptr frameSize frames : Nat) (b : PsndBuf) : List Fetch × Mem × PsndBuf :=
  let num := if b.owptr ≥ b.ofptr then b.owptr - b.ofptr else PSND_OBUF_SIZE - b.ofptr + b.owptr
  let frms := num / frameSize
  let frms := if frames > frms then frms else frames
  toHwLoop blk frameSize frms hw ptr b

def privsoundBufToHw (hw : Mem) (ptr frameSize frames : Nat) : List PsndBuf → Mem × List PsndBuf
  | [] => (hw, [])
  | b :: bufs =>
    let r := bufToHw blk hw ptr frameSize frames b
    let rest := privsoundBufToHw r.2.1 ptr frameSize frames bufs
    (rest.1, r.2.2 :: rest.2)

/-! ## Frames as messages -/

/-- Each frame of four bytes by itself, with the next block of the keystream. -/
def cryptFrames (K : BlockStream 128 16) : BitVec 128 → List UInt8 → List UInt8
  | ctr, a :: b :: c :: d :: rest => (ctrCrypt K ctr [a, b, c, d]).1 ++ cryptFrames K (ctr + 1) rest
  | _, _ => []

variable {K : BlockStream 128 16} {aes : List UInt8 → BlockStream 128 16}

theorem ctrCrypt_frame_snd {frame : List UInt8} (h : frame.length = 4) (ctr : BitVec 128) :
    (ctrCrypt K ctr frame).2 = ctr + 1 := by
  rw [ctrCrypt, h]
  rfl

theorem cryptFrames_cons {frame : List UInt8} (h : frame.length = 4) (ctr : BitVec 128)
    (rest : List UInt8) :
    cryptFrames K ctr (frame ++ rest) = (ctrCrypt K ctr frame).1 ++ cryptFrames K (ctr + 1) rest := by
  match frame, h with
  | [a, b, c, d], _ => rfl

theorem frames_induction {P : List UInt8 → Prop} (hNil : P [])
    (hCons : ∀ frame rest, frame.length = 4 → 4 ∣ rest.length → P rest → P (frame ++ rest)) (h : 4 ∣ data.length) : P data := by
  obtain ⟨n, hn⟩ := h
  induction n generalizing data with
  | zero => rwa [List.length_eq_zero_iff.mp hn]
  | succ n ih =>
    have hRest : (data.drop 4).length = 4 * n := by
      rw [length_drop, hn]
      omega
    rw [← take_append_drop 4 data]
    exact hCons _ _ (length_take_of_le (by omega)) ⟨n, hRest⟩ (ih hRest)

theorem length_cryptFrames (h : 4 ∣ data.length) (ctr : BitVec 128) :
    (cryptFrames K ctr data).length = data.length := by
  refine frames_induction (P := fun data => ∀ ctr, (cryptFrames K ctr data).length = data.length)
    (fun _ => rfl) (fun frame rest hFrame _ ih ctr => ?_) h ctr
  rw [cryptFrames_cons hFrame, length_append, length_append, ih, length_ctrCrypt (by decide)]

theorem cryptFrames_append {xs : List UInt8} (h : 4 ∣ xs.length) (ctr : BitVec 128)
    (ys : List UInt8) :
    cryptFrames K ctr (xs ++ ys) =
      cryptFrames K ctr xs ++ cryptFrames K (ctr + BitVec.ofNat 128 (xs.length / 4)) ys := by
  refine frames_induction (P := fun xs => ∀ ctr, cryptFrames K ctr (xs ++ ys) =
      cryptFrames K ctr xs ++ cryptFrames K (ctr + BitVec.ofNat 128 (xs.length / 4)) ys)
    (fun ctr => ?_) (fun frame rest hFrame _ ih ctr => ?_) h ctr
  · show cryptFrames K ctr ys = cryptFrames K (ctr + 0#128) ys
    rw [BitVec.add_zero]
  · have hCtr : ctr + 1 + BitVec.ofNat 128 (rest.length / 4) =
        ctr + BitVec.ofNat 128 ((frame ++ rest).length / 4) := by
      have hLen : (frame ++ rest).length / 4 = 1 + rest.length / 4 := by
        rw [length_append, hFrame]
        omega
      rw [hLen, BitVec.ofNat_add, BitVec.add_assoc]
      rfl
    rw [append_assoc, cryptFrames_cons hFrame, cryptFrames_cons hFrame, ih, hCtr, append_assoc]

theorem cryptFrames_split {n : Nat} (h : 4 * n ≤ data.length) (ctr : BitVec 128) :
    cryptFrames K ctr data = cryptFrames K ctr (data.take (4 * n)) ++
        cryptFrames K (ctr + BitVec.ofNat 128 n) (data.drop (4 * n)) := by
  have hLen : (data.take (4 * n)).length = 4 * n := length_take_of_le h
  have hAppend := @cryptFrames_append K (data.take (4 * n)) (by rw [hLen]; exact Nat.dvd_mul_right 4 n)
    ctr (data.drop (4 * n))
  rwa [take_append_drop, hLen, Nat.mul_div_cancel_left _ (by decide)] at hAppend

theorem cryptFrames_cryptFrames (h : 4 ∣ data.length) (ctr : BitVec 128) :
    cryptFrames K ctr (cryptFrames K ctr data) = data := by
  refine frames_induction (P := fun data => ∀ ctr, cryptFrames K ctr (cryptFrames K ctr data) = data)
    (fun _ => rfl) (fun frame rest hFrame _ ih ctr => ?_) h ctr
  have hLen : (ctrCrypt K ctr frame).1.length = 4 := by
    rw [length_ctrCrypt (by decide), hFrame]
  rw [cryptFrames_cons hFrame, cryptFrames_cons hLen, ih, ctrCrypt_ctrCrypt (by decide)]

def moved (cctx : PrivCryptCtx) (n : Nat) : PrivCryptCtx :=
  { cctx with ctr := cctx.ctr + BitVec.ofNat 128 n }

theorem moved_zero (cctx : PrivCryptCtx) : moved cctx 0 = cctx := by
  rw [moved, BitVec.add_zero]

theorem moved_moved (cctx : PrivCryptCtx) (m n : Nat) :
    moved (moved cctx m) n = moved cctx (m + n) := by
  simp only [moved, BitVec.ofNat_add, BitVec.add_assoc]

theorem privsoundCrypt_frame {cctx : PrivCryptCtx} (hAct : cctx.activated = true)
    {frame : List UInt8} (h : frame.length = 4) :
    privsoundCrypt (.ctr aes) frame (some cctx) =
      ((ctrCrypt (aes cctx.key) cctx.ctr frame).1, some (moved cctx 1)) := by
  simp only [privsoundCrypt, privCrypt_ctr hAct, ctrCrypt_frame_snd h]
  rfl

theorem frameLoop_eq {σ : Type} {crypt : List UInt8 → σ → List UInt8 × σ} {state : Nat → σ}
    {ctr : BitVec 128}
    (h : ∀ k frame, frame.length = 4 → crypt frame (state k) =
      ((ctrCrypt K (ctr + BitVec.ofNat 128 k) frame).1, state (k + 1)))
    (n k : Nat) (mem : Mem) (pos : Nat) :
    frameLoop crypt n mem pos (state k) =
      (store mem pos (cryptFrames K (ctr + BitVec.ofNat 128 k) (load mem pos (4 * n))),
        state (k + n)) := by
  induction n generalizing k mem pos with
  | zero =>
    show (mem, state k) = (store mem pos [], state k)
    rw [store_nil]
  | succ n ih =>
    have hFrame : (load mem pos 4).length = 4 := length_load ..
    have hOut : (ctrCrypt K (ctr + BitVec.ofNat 128 k) (load mem pos 4)).1.length = 4 := by
      rw [length_ctrCrypt (by decide), hFrame]
    have hRest : load (store mem pos (ctrCrypt K (ctr + BitVec.ofNat 128 k) (load mem pos 4)).1)
        (pos + 4) (4 * n) = load mem (pos + 4) (4 * n) :=
      load_store_of_disjoint (.inr (by rw [hOut]))
    have hCtr : ctr + BitVec.ofNat 128 (k + 1) = ctr + BitVec.ofNat 128 k + 1 := by
      rw [BitVec.ofNat_add, ← BitVec.add_assoc]
      rfl
    rw [frameLoop, h k _ hFrame]
    simp only
    rw [ih, hRest, hCtr, show 4 * (n + 1) = 4 + 4 * n by omega, load_add, cryptFrames_cons hFrame,
      store_append, hOut, Nat.add_assoc, Nat.add_comm 1 n]

theorem cryptRange_eq (n : Nat) (mem : Mem) (pos : Nat) {cctx : PrivCryptCtx}
    (hAct : cctx.activated = true) :
    cryptRange (.ctr aes) n mem pos (some cctx) =
      (store mem pos (cryptFrames (aes cctx.key) cctx.ctr (load mem pos (4 * n))),
        some (moved cctx n)) := by
  have h : ∀ k frame, frame.length = 4 → privsoundCrypt (.ctr aes) frame (some (moved cctx k)) =
      ((ctrCrypt (aes cctx.key) (cctx.ctr + BitVec.ofNat 128 k) frame).1,
        some (moved cctx (k + 1))) := by
    intro k frame hFrame
    rw [privsoundCrypt_frame (show (moved cctx k).activated = true from hAct) hFrame, moved_moved]
    rfl
  have hLoop := @frameLoop_eq (aes cctx.key) _ _ (fun k => some (moved cctx k)) _ h n 0 mem pos
  rw [moved_zero, BitVec.add_zero, Nat.zero_add] at hLoop
  exact hLoop

end Buffer

def plainAes (_ : List UInt8) : BlockStream 128 16 where
  block _ := List.replicate 16 0
  length_block _ := List.length_replicate

end Lacuna.Sound
