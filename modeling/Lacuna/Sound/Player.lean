import Lacuna.Sound.Playback

/-!
# From QEMU to the sound card

`alsa_write_pending` of `audio/alsaaudio.c` and the output ring. QEMU reads how
many frames fit in the ring, encrypts as many in place, and writes them in chunks
of 4096 bytes; the sound driver may fetch frames before any of these steps. The
counters of the two ends differ by the frames that are in the ring and by those that
QEMU has encrypted and not written yet.
-/

namespace Lacuna.Sound

open Lacuna.Lib Lacuna.Crypt List

def ESTRPIPE : Int := 86

def CHUNK : Nat := 4096

/-- Where `alsa_write_pending` is: before its loops, before `snd_pcm_writei`, or before a write
to the ring. -/
inductive Pc where
  | idle
  | outer
  | inner (len : Nat)
  | avail (len : Nat) (availb : Int)
  | chunks (len : Nat) (toWrite privWritten : Nat)
  deriving DecidableEq

/-- QEMU and the buffer of its virtual machine, with the samples that QEMU has encrypted, and
what the sound driver has fetched. -/
structure Player where
  pcmBuf : Mem
  samples : Nat
  wpos : Nat
  pending : Nat
  cctxOut : Option PrivCctx
  pc : Pc
  buf : PsndBuf
  hw : Mem
  plain : List UInt8
  fetched : List Fetch

inductive PlayerOp where
  /-- `alsa_run_out`, with new samples. -/
  | call (pcm : Mem) (pending : Nat)
  /-- The conditions of the two loops. -/
  | next
  /-- The read of the number of frames that fit, if it succeeds. -/
  | readAvail (ok : Bool)
  /-- `snd_pcm_writei`, and whether the stream can be recovered from an error. -/
  | writei (written : Int) (recovered : Bool)
  /-- One turn of the loop that writes chunks. -/
  | chunk
  /-- `privsound_buf_to_hw`. -/
  | toHw (ptr frames : Nat)

section Player

variable (blk : Blkcipher) (aes : List UInt8 → BlockStream 128 16) (last : AesBlock)

/-- `priv_sound_crypt` for playback. A failure is only printed. -/
def privSoundCrypt (len : Nat) (mem : Mem) (pos : Nat) (cctx : Option PrivCctx) :
    Mem × Option PrivCctx :=
  match cctx with
  | none => (mem, none)
  | some cctx =>
    let r := frameLoop (fun data cctx => (userPrivCrypt aes last cctx data).2) ((len + 3) / 4) mem pos
      cctx
    (r.1, some r.2)

/-- The end of the inner loop of `alsa_write_pending`. -/
def finish (len : Nat) (written : Int) (recovered : Bool) (s : Player) : Player :=
  if written ≤ 0 then
    if (written = -EPIPE ∨ written = -ESTRPIPE) ∧ recovered then { s with pc := .inner len }
    else { s with pc := .idle }
  else
    { s with
      wpos := (s.wpos + written.toNat) % s.samples
      pending := s.pending - written.toNat
      pc := .inner (len - written.toNat) }

def Player.src (s : Player) : Nat := s.wpos * 4

namespace PlayerOp

def run : PlayerOp → Player → Player
  | call pcm pending, s => { s with pcmBuf := pcm, pending := pending, pc := .outer }
  | next, s =>
    match s.pc with
    | .outer =>
      if s.pending = 0 then { s with pc := .idle }
      else { s with pc := .inner (min s.pending (s.samples - s.wpos)) }
    | .inner 0 => { s with pc := .outer }
    | _ => s
  | readAvail ok, s =>
    match s.pc with
    | .inner (len + 1) =>
      if ok then { s with pc := .avail (len + 1) (binGetOutAvail s.buf) } else { s with pc := .idle }
    | _ => s
  | writei written recovered, s =>
    match s.pc with
    | .avail len availb =>
      let availb := if availb > written then written else availb
      if availb > 0 then
        let toWrite := availb.toNat * 4
        let r := privSoundCrypt aes last toWrite s.pcmBuf s.src s.cctxOut
        { s with
          pcmBuf := r.1
          cctxOut := r.2
          plain := s.plain ++ load s.pcmBuf s.src toWrite
          pc := .chunks len toWrite 0 }
      else finish len written recovered s
    | _ => s
  | chunk, s =>
    match s.pc with
    | .chunks len 0 privWritten => finish len (privWritten / 4 : Nat) false s
    | .chunks len (toWrite + 1) privWritten =>
      let chunk := min (toWrite + 1) CHUNK
      let r := binWrite (load s.pcmBuf (s.src + privWritten) chunk) s.buf
      let s := { s with buf := r.2.2 }
      if r.1 ≠ chunk then
        finish len ((privWritten + r.1.toNat) / 4 : Nat) false s
      else { s with pc := .chunks len (toWrite + 1 - chunk) (privWritten + chunk) }
    | _ => s
  | toHw ptr frames, s =>
    let r := bufToHw blk s.hw ptr 4 frames s.buf
    { s with buf := r.2.2, hw := r.2.1, fetched := s.fetched ++ r.1 }

/-- `alsa_run_out` is not called while it runs, and `snd_pcm_writei` returns no more than it was
given. -/
def Allowed (s : Player) : PlayerOp → Prop
  | call _ _ => s.pc = .idle
  | writei written _ => ∀ len availb, s.pc = .avail len availb → written ≤ len
  | _ => True

def Step (s : Player) (op : PlayerOp) (t : Player) : Prop := op.Allowed s ∧ t = op.run blk aes last s

def StoresChunk (s : Player) : PlayerOp → Prop
  | chunk => ∀ len toWrite privWritten, s.pc = .chunks len toWrite privWritten →
      (binWrite (load s.pcmBuf (s.src + privWritten) (min toWrite CHUNK)) s.buf).1 =
        (min toWrite CHUNK : Nat)
  | _ => True

end PlayerOp

/-- The encrypted frames that are still to be written. -/
def Player.unwritten (s : Player) : List UInt8 :=
  match s.pc with
  | .chunks _ toWrite privWritten => load s.pcmBuf (s.src + privWritten) toWrite
  | _ => []

/-- The samples added to the hardware buffer are QEMU's, in order; when the ring is empty and
nothing is left to be written, they are all of them, and the counters are equal. -/
structure Delivered (s : Player) : Prop where
  in_order : heard s.fetched <+: s.plain
  in_step : s.buf.owptr = s.buf.ofptr → s.unwritten = [] →
    heard s.fetched = s.plain ∧
      (s.buf.outRef.map PrivCryptCtx.ctr) = (s.cctxOut.bind PrivCctx.userCtx).map AesniState.iv

/-! ## The invariant -/

/-- What `alsa_write_pending` knows about the room in the ring. -/
def Pc.Room (held : Nat) : Pc → Prop
  | .avail _ availb => availb * 4 + held + 4 ≤ PSND_OBUF_SIZE
  | .chunks _ toWrite privWritten =>
    4 ∣ toWrite ∧ 4 ∣ privWritten ∧ toWrite + held + 4 ≤ PSND_OBUF_SIZE
  | _ => True

/-- What has been encrypted has been heard, is in the ring or is to be written,
in this order. -/
structure PlayerInv (cctx : PrivCryptCtx) (dir : Dir) (s : Player) : Prop where
  aligned : 4 ∣ s.buf.ofptr
  kern : s.buf.outRef = some (moved cctx s.fetched.length)
  user : s.cctxOut = some
    ⟨dir, some ⟨cctx.key, cctx.ctr + BitVec.ofNat 128 (s.plain.length / 4)⟩⟩
  four : (heard s.fetched).length = 4 * s.fetched.length
  held : ∃ q rest, RingHolds s.buf.obuffer PSND_OBUF_SIZE s.buf.ofptr s.buf.owptr q ∧
    q.length + 4 ≤ PSND_OBUF_SIZE ∧ s.pc.Room q.length ∧
    s.plain = heard s.fetched ++ rest ∧ 4 ∣ rest.length ∧
    q ++ s.unwritten =
      cryptFrames (aes cctx.key) (cctx.ctr + BitVec.ofNat 128 s.fetched.length) rest

variable {blk aes last} {cctx : PrivCryptCtx} {dir : Dir} {s : Player}

theorem PlayerInv.delivered (h : PlayerInv aes cctx dir s) : Delivered s := by
  obtain ⟨q, rest, hHolds, -, -, hPlain, hFrames, hSplit⟩ := h.held
  refine ⟨⟨rest, hPlain.symm⟩, fun hEmpty hNone => ?_⟩
  have hq : q = [] := by
    have hLen := hHolds.length_eq
    rw [if_pos (Nat.le_of_eq hEmpty.symm), hEmpty, Nat.sub_self] at hLen
    exact List.length_eq_zero_iff.mp hLen
  have hRest : rest = [] := by
    have hLen := congrArg length hSplit
    rw [hq, hNone, length_cryptFrames hFrames] at hLen
    exact List.length_eq_zero_iff.mp hLen.symm
  rw [hRest, append_nil] at hPlain
  refine ⟨hPlain.symm, ?_⟩
  rw [h.kern, h.user, hPlain, h.four, Nat.mul_div_cancel_left _ (by decide)]
  rfl

theorem PlayerInv.move {t : Player} (h : PlayerInv aes cctx dir s) (hBuf : t.buf = s.buf)
    (hCctx : t.cctxOut = s.cctxOut) (hPlain : t.plain = s.plain) (hFetched : t.fetched = s.fetched)
    (hNone : s.unwritten = []) (hNone' : t.unwritten = [])
    (hRoom : outputHeld s.buf + 4 ≤ PSND_OBUF_SIZE → t.pc.Room (outputHeld s.buf)) :
    PlayerInv aes cctx dir t := by
  obtain ⟨q, rest, hHolds, hFree, -, hRest⟩ := h.held
  have hLen : outputHeld s.buf = q.length := hHolds.length_eq.symm
  rw [hLen] at hRoom
  rw [hNone] at hRest
  refine ⟨by rw [hBuf]; exact h.aligned, by rw [hBuf, hFetched]; exact h.kern,
    by rw [hCctx, hPlain]; exact h.user, by rw [hFetched]; exact h.four, q, rest, ?_⟩
  rw [hBuf, hPlain, hFetched, hNone']
  exact ⟨hHolds, hFree, hRoom hFree, hRest⟩

theorem PlayerInv.finish (h : PlayerInv aes cctx dir s) (hNone : s.unwritten = []) (len : Nat)
    (written : Int) (recovered : Bool) :
    PlayerInv aes cctx dir (finish len written recovered s) := by
  unfold Sound.finish
  split_ifs
  all_goals exact h.move rfl rfl rfl rfl hNone rfl fun _ => trivial

theorem binGetOutAvail_room {b : PsndBuf} (hf : b.ofptr < PSND_OBUF_SIZE) :
    binGetOutAvail b * 4 + outputHeld b + 4 ≤ PSND_OBUF_SIZE := by
  simp only [binGetOutAvail, outputHeld]
  split <;> omega

theorem privSoundCrypt_eq {key : List UInt8} {iv : BitVec 128} {len : Nat} (hLen : 4 ∣ len)
    (mem : Mem) (pos : Nat) :
    privSoundCrypt aes last len mem pos (some ⟨dir, some ⟨key, iv⟩⟩) =
      (store mem pos (cryptFrames (aes key) iv (load mem pos len)),
        some ⟨dir, some ⟨key, iv + BitVec.ofNat 128 (len / 4)⟩⟩) := by
  have h : ∀ k frame, frame.length = 4 →
      (userPrivCrypt aes last ⟨dir, some ⟨key, iv + BitVec.ofNat 128 k⟩⟩ frame).2 =
        ((ctrCrypt (aes key) (iv + BitVec.ofNat 128 k) frame).1,
          ⟨dir, some ⟨key, iv + BitVec.ofNat 128 (k + 1)⟩⟩) := by
    intro k frame hFrame
    rw [userPrivCrypt_eq]
    simp only [ctrCrypt_frame_snd hFrame, BitVec.ofNat_add, BitVec.add_assoc]
    rfl
  have hLoop := @frameLoop_eq (aes key) _ (fun data cctx => (userPrivCrypt aes last cctx data).2)
    (fun k => (⟨dir, some ⟨key, iv + BitVec.ofNat 128 k⟩⟩ : PrivCctx)) _ h (len / 4) 0 mem pos
  rw [BitVec.add_zero, Nat.zero_add, Nat.mul_div_cancel' hLen] at hLoop
  rw [privSoundCrypt]
  simp only [show (len + 3) / 4 = len / 4 by omega]
  rw [hLoop]

/-! ## The steps -/

theorem unwritten_of_ne {s : Player} (h : ∀ len toWrite privWritten,
    s.pc ≠ .chunks len toWrite privWritten) : s.unwritten = [] := by
  unfold Player.unwritten
  split
  · rename_i len toWrite privWritten hPc
    exact absurd hPc (h len toWrite privWritten)
  · rfl

theorem PlayerInv.writei (h : PlayerInv aes cctx dir s) (written : Int) (recovered : Bool) :
    PlayerInv aes cctx dir ((PlayerOp.writei written recovered).run blk aes last s) := by
  obtain ⟨q, rest, hHolds, hFree, hRoom, hPlain, hFrames, hSplit⟩ := h.held
  cases hPc : s.pc with
  | avail len availb =>
    have hNone : s.unwritten = [] := unwritten_of_ne fun _ _ _ hEq => by rw [hPc] at hEq; cases hEq
    rw [hPc] at hRoom
    have hRoom' : availb * 4 + q.length + 4 ≤ PSND_OBUF_SIZE := hRoom
    simp only [PlayerOp.run, hPc]
    have hMin : (if availb > written then written else availb) ≤ availb := by split <;> omega
    generalize (if availb > written then written else availb) = a at hMin
    split_ifs with ha
    · have hDvd : 4 ∣ a.toNat * 4 := Nat.dvd_mul_left 4 _
      have hLen : (load s.pcmBuf s.src (a.toNat * 4)).length = a.toNat * 4 := length_load ..
      have hEnc : (cryptFrames (aes cctx.key) (cctx.ctr + BitVec.ofNat 128 (s.plain.length / 4))
          (load s.pcmBuf s.src (a.toNat * 4))).length = a.toNat * 4 := by
        rw [length_cryptFrames (by rwa [hLen]), hLen]
      -- the encrypted samples follow those in the ring
      have hCtr : cctx.ctr + BitVec.ofNat 128 s.fetched.length + BitVec.ofNat 128 (rest.length / 4) =
          cctx.ctr + BitVec.ofNat 128 (s.plain.length / 4) := by
        have hSum : s.plain.length / 4 = s.fetched.length + rest.length / 4 := by
          rw [hPlain, length_append, h.four]
          omega
        rw [hSum, BitVec.ofNat_add, BitVec.add_assoc]
      rw [hNone, append_nil] at hSplit
      rw [h.user, privSoundCrypt_eq hDvd]
      refine ⟨h.aligned, h.kern, ?_, h.four, q, rest ++ load s.pcmBuf s.src (a.toNat * 4), hHolds,
        hFree, ⟨hDvd, Nat.dvd_zero 4, by omega⟩, ?_, ?_, ?_⟩
      · rw [length_append, hLen, Nat.add_div_of_dvd_left hDvd, BitVec.ofNat_add, BitVec.add_assoc]
      · rw [hPlain, append_assoc]
      · rw [length_append, hLen]
        exact Nat.dvd_add hFrames hDvd
      · show q ++ load (store s.pcmBuf s.src _) (s.src + 0) (a.toNat * 4) = _
        rw [Nat.add_zero, cryptFrames_append hFrames, hCtr, ← hSplit]
        congr 1
        nth_rewrite 2 [← hEnc]
        rw [load_store_self]
    · exact h.finish hNone len written recovered
  | _ => simp only [PlayerOp.run, hPc]; exact h

theorem PlayerInv.storesChunk (h : PlayerInv aes cctx dir s) : PlayerOp.chunk.StoresChunk s := by
  intro len toWrite privWritten hPc
  obtain ⟨q, rest, hHolds, hFree, hRoom, -⟩ := h.held
  rw [hPc] at hRoom
  have hFit : toWrite + q.length + 4 ≤ PSND_OBUF_SIZE := hRoom.2.2
  rw [(@binWrite_holds s.buf (load s.pcmBuf (s.src + privWritten) (min toWrite CHUNK)) q hHolds
    hFree).1, length_load]
  congr 1
  omega

theorem PlayerInv.chunk (h : PlayerInv aes cctx dir s) :
    PlayerInv aes cctx dir (PlayerOp.chunk.run blk aes last s) := by
  obtain ⟨q, rest, hHolds, hFree, hRoom, hPlain, hFrames, hSplit⟩ := h.held
  cases hPc : s.pc with
  | chunks len toWrite privWritten =>
    have hStores := h.storesChunk len toWrite privWritten hPc
    cases toWrite with
    | zero =>
      have hNone : s.unwritten = [] := by
        rw [Player.unwritten, hPc]
        exact load_zero ..
      simp only [PlayerOp.run, hPc]
      exact h.finish hNone _ _ _
    | succ toWrite =>
      rw [hPc] at hRoom
      obtain ⟨hDvd, hDvd', hFit⟩ := hRoom
      have hk : 4 ∣ min (toWrite + 1) CHUNK := by
        rcases Nat.le_total (toWrite + 1) CHUNK with hLe | hLe
        · rwa [Nat.min_eq_left hLe]
        · rw [Nat.min_eq_right hLe]
          decide
      have hUnwritten : s.unwritten = load s.pcmBuf (s.src + privWritten) (toWrite + 1) := by
        rw [Player.unwritten, hPc]
      obtain ⟨-, -, -, hHolds', hFetch, hRef⟩ := @binWrite_holds s.buf
        (load s.pcmBuf (s.src + privWritten) (min (toWrite + 1) CHUNK)) q hHolds hFree
      simp only [PlayerOp.run, hPc]
      rw [if_neg (not_not.mpr hStores)]
      have hLe : min (toWrite + 1) CHUNK ≤ toWrite + 1 := Nat.min_le_left _ _
      generalize min (toWrite + 1) CHUNK = k at *
      have hAll : (load s.pcmBuf (s.src + privWritten) k).take (min (PSND_OBUF_SIZE - 4 - q.length)
          (load s.pcmBuf (s.src + privWritten) k).length) = load s.pcmBuf (s.src + privWritten) k := by
        refine take_of_length_le ?_
        rw [length_load]
        omega
      rw [hAll] at hHolds'
      refine ⟨?_, ?_, h.user, h.four, q ++ load s.pcmBuf (s.src + privWritten) k, rest, ?_, ?_,
        ⟨Nat.dvd_sub hDvd hk, Nat.dvd_add hDvd' hk, ?_⟩, hPlain, hFrames, ?_⟩
      · show 4 ∣ (binWrite _ s.buf).2.2.ofptr
        rw [hFetch]
        exact h.aligned
      · show (binWrite _ s.buf).2.2.outRef = _
        rw [hRef]
        exact h.kern
      · show RingHolds _ _ (binWrite _ s.buf).2.2.ofptr _ _
        rw [hFetch]
        exact hHolds'
      · rw [length_append, length_load]
        omega
      · rw [length_append, length_load]
        omega
      · rw [hUnwritten] at hSplit
        show q ++ _ ++ load s.pcmBuf (s.src + (privWritten + k)) (toWrite + 1 - k) = _
        rw [append_assoc, ← Nat.add_assoc, ← load_add, Nat.add_sub_cancel' hLe]
        exact hSplit
  | _ => simp only [PlayerOp.run, hPc]; exact h

theorem Pc.Room.mono {pc : Pc} {held held' : Nat} (h : pc.Room held) (hLe : held' ≤ held) :
    pc.Room held' := by
  cases pc with
  | avail len availb =>
    have hRoom : availb * 4 + held + 4 ≤ PSND_OBUF_SIZE := h
    show availb * 4 + held' + 4 ≤ PSND_OBUF_SIZE
    omega
  | chunks len toWrite privWritten => exact ⟨h.1, h.2.1, by have := h.2.2; omega⟩
  | _ => trivial

theorem PlayerInv.toHw (hAct : cctx.activated = true) (h : PlayerInv aes cctx dir s)
    (ptr count : Nat) :
    PlayerInv aes cctx dir ((PlayerOp.toHw ptr count).run (.ctr aes) aes last s) := by
  obtain ⟨q, rest, hHolds, hFree, hRoom, hPlain, hFrames, hSplit⟩ := h.held
  have hNum := hHolds.length_eq
  simp only [PlayerOp.run, bufToHw, ge_iff_le, ← hNum]
  have hn : 4 * (if count > q.length / 4 then q.length / 4 else count) ≤ q.length := by
    split <;> omega
  generalize (if count > q.length / 4 then q.length / 4 else count) = n at hn
  obtain ⟨hFetched, -, hCount, hHolds', hAl⟩ := @toHwLoop_holds (.ctr aes)
    (Blkcipher.keepsLength_ctr aes) n s.hw ptr s.buf q hHolds h.aligned hn
  obtain ⟨hHeard, hRef⟩ := @toHwLoop_heard aes n s.hw ptr s.buf _ h.kern
    (show (moved cctx s.fetched.length).activated = true from hAct)
  -- the frames fetched are the first of those encrypted, and decrypt to the first samples
  have hLenRest : 4 * n ≤ rest.length := by
    have hLen := congrArg length hSplit
    rw [length_append, length_cryptFrames hFrames] at hLen
    omega
  have hDvd : 4 ∣ (rest.take (4 * n)).length := by
    rw [length_take_of_le hLenRest]
    exact Nat.dvd_mul_right 4 n
  have hParts := hSplit.trans (cryptFrames_split hLenRest _)
  rw [BitVec.add_assoc, ← BitVec.ofNat_add] at hParts
  have hLenEnc : (cryptFrames (aes cctx.key) (cctx.ctr + BitVec.ofNat 128 s.fetched.length)
      (rest.take (4 * n))).length = 4 * n := by
    rw [length_cryptFrames hDvd, length_take_of_le hLenRest]
  have hTake : q.take (4 * n) =
      cryptFrames (aes cctx.key) (cctx.ctr + BitVec.ofNat 128 s.fetched.length)
        (rest.take (4 * n)) := by
    have hCut := congrArg (take (4 * n)) hParts
    rwa [take_append_of_le_length hn, List.take_left' hLenEnc] at hCut
  have hDrop : q.drop (4 * n) ++ s.unwritten =
      cryptFrames (aes cctx.key) (cctx.ctr + BitVec.ofNat 128 (s.fetched.length + n))
        (rest.drop (4 * n)) := by
    have hCut := congrArg (drop (4 * n)) hParts
    rwa [drop_append_of_le_length hn, List.drop_left' hLenEnc] at hCut
  have hHeard' : heard (toHwLoop (.ctr aes) 4 n s.hw ptr s.buf).1 = rest.take (4 * n) := by
    rw [hHeard, hFetched, hTake]
    exact cryptFrames_cryptFrames hDvd _
  have hAppend : ∀ xs ys : List Fetch, heard (xs ++ ys) = heard xs ++ heard ys := by
    intro xs ys
    rw [heard, heard, heard, map_append, flatten_append]
  refine ⟨hAl, ?_, h.user, ?_, q.drop (4 * n), rest.drop (4 * n), hHolds', ?_, ?_, ?_, ?_, ?_⟩
  · show (toHwLoop (.ctr aes) 4 n s.hw ptr s.buf).2.2.outRef = _
    rw [hRef, moved_moved, length_append, hCount]
  · rw [hAppend, length_append, length_append, h.four, hHeard', hCount,
      length_take_of_le hLenRest, Nat.mul_add]
  · rw [length_drop]
    omega
  · exact hRoom.mono (by rw [length_drop]; omega)
  · rw [hAppend, hHeard', append_assoc, take_append_drop]
    exact hPlain
  · rw [length_drop]
    exact Nat.dvd_sub hFrames (Nat.dvd_mul_right 4 n)
  · rw [length_append, hCount]
    exact hDrop

theorem PlayerInv.next (h : PlayerInv aes cctx dir s) :
    PlayerInv aes cctx dir (PlayerOp.next.run blk aes last s) := by
  cases hPc : s.pc with
  | outer =>
    have hNone : s.unwritten = [] := unwritten_of_ne fun _ _ _ hEq => by rw [hPc] at hEq; cases hEq
    simp only [PlayerOp.run, hPc]
    split_ifs
    all_goals exact h.move rfl rfl rfl rfl hNone rfl fun _ => trivial
  | inner len =>
    have hNone : s.unwritten = [] := unwritten_of_ne fun _ _ _ hEq => by rw [hPc] at hEq; cases hEq
    cases len with
    | zero =>
      simp only [PlayerOp.run, hPc]
      exact h.move rfl rfl rfl rfl hNone rfl fun _ => trivial
    | succ len => simp only [PlayerOp.run, hPc]; exact h
  | _ => simp only [PlayerOp.run, hPc]; exact h

theorem PlayerInv.readAvail (h : PlayerInv aes cctx dir s) (ok : Bool) :
    PlayerInv aes cctx dir ((PlayerOp.readAvail ok).run blk aes last s) := by
  obtain ⟨q, rest, hHolds, -⟩ := h.held
  cases hPc : s.pc with
  | inner len =>
    have hNone : s.unwritten = [] := unwritten_of_ne fun _ _ _ hEq => by rw [hPc] at hEq; cases hEq
    cases len with
    | zero => simp only [PlayerOp.run, hPc]; exact h
    | succ len =>
      simp only [PlayerOp.run, hPc]
      split_ifs
      · exact h.move rfl rfl rfl rfl hNone rfl fun _ => binGetOutAvail_room hHolds.fetch_lt
      · exact h.move rfl rfl rfl rfl hNone rfl fun _ => trivial
  | _ => simp only [PlayerOp.run, hPc]; exact h

theorem PlayerInv.step (hAct : cctx.activated = true) {t : Player} {op : PlayerOp}
    (h : PlayerInv aes cctx dir s) (hStep : op.Step (.ctr aes) aes last s t) :
    op.StoresChunk s ∧ PlayerInv aes cctx dir t := by
  obtain ⟨hAllowed, rfl⟩ := hStep
  cases op with
  | call pcm pending =>
    have hPc : s.pc = .idle := hAllowed
    have hNone : s.unwritten = [] := unwritten_of_ne fun _ _ _ hEq => by rw [hPc] at hEq; cases hEq
    exact ⟨trivial, h.move rfl rfl rfl rfl hNone rfl fun _ => trivial⟩
  | next => exact ⟨trivial, h.next⟩
  | readAvail ok => exact ⟨trivial, h.readAvail ok⟩
  | writei written recovered => exact ⟨trivial, h.writei written recovered⟩
  | chunk => exact ⟨h.storesChunk, h.chunk⟩
  | toHw ptr count => exact ⟨trivial, h.toHw hAct ptr count⟩

/-- **Playback end to end.** With the same key and counter at both ends, every
chunk is stored as a whole, and what is added to the hardware buffer are the
samples that QEMU has encrypted, in order; all of them, with equal counters, when
the ring is empty and nothing encrypted is left to be written. -/
theorem player_in_step (hAct : cctx.activated = true) {tr : Trace Player PlayerOp}
    (hKern : s.buf.outRef = some cctx) (hUser : s.cctxOut = some ⟨dir, some ⟨cctx.key, cctx.ctr⟩⟩)
    (hPc : s.pc = .idle) (hEmpty : s.buf.ofptr = s.buf.owptr) (hIn : s.buf.ofptr < PSND_OBUF_SIZE)
    (hAligned : 4 ∣ s.buf.ofptr) (hPlain : s.plain = []) (hFetched : s.fetched = [])
    (hTr : IsTrace (PlayerOp.Step (.ctr aes) aes last) s tr) :
    EachStep PlayerOp.StoresChunk s tr ∧ EachState Delivered s tr := by
  have hInv : PlayerInv aes cctx dir s := by
    refine ⟨hAligned, ?_, ?_, ?_, [], [], ?_, by decide, ?_, ?_, Nat.dvd_zero 4, ?_⟩
    · rw [hKern, hFetched, length_nil, moved_zero]
    · rw [hUser, hPlain, length_nil, Nat.zero_div, BitVec.add_zero]
    · rw [hFetched]
      rfl
    · rw [← hEmpty]
      exact RingHolds.empty _ hIn
    · rw [hPc]
      trivial
    · rw [hPlain, hFetched]
      rfl
    · rw [Player.unwritten, hPc]
      rfl
  have hGuard : EachStep (fun _ _ => True) s tr := eachStep_trivial tr
  have hStep : ∀ s op t, PlayerInv aes cctx dir s → PlayerOp.Step (.ctr aes) aes last s op t →
      True → PlayerOp.StoresChunk s op ∧ PlayerInv aes cctx dir t :=
    fun _ _ _ hI hS _ => hI.step hAct hS
  exact ⟨eachStep_of_inv hStep hInv hTr hGuard,
    eachState_of_inv (fun _ hI => hI.delivered) (fun s op t hI hS hC => (hStep s op t hI hS hC).2)
      hInv hTr hGuard⟩

end Player

def samplePlayer : Player where
  pcmBuf := fun _ => 0
  samples := 1024
  wpos := 0
  pending := 0
  cctxOut := some ⟨.dec, some ⟨[], 0⟩⟩
  pc := .idle
  buf :=
    { ibuffer := fun _ => 0
      obuffer := fun _ => 0
      outRef := some ⟨1, 1, false, none, true, .dec, [], 0⟩
      inRef := none
      owptr := 0
      ofptr := 0
      iwptr := 0
      ifptr := 0
      inputEnabled := false }
  hw := fun _ => 0
  plain := []
  fetched := []

/-- The steps up to the encryption of one frame of `1 2 3 4`. -/
def sampleBatch : List PlayerOp :=
  [.call (store (fun _ => 0) 0 [1, 2, 3, 4]) 1, .next, .readAvail true, .writei 1 false]

def runOps (last : AesBlock) : Player → List PlayerOp → Trace Player PlayerOp
  | _, [] => []
  | s, op :: ops =>
    (op, op.run (.ctr plainAes) plainAes last s) ::
      runOps last (op.run (.ctr plainAes) plainAes last s) ops

/-- Between the encryption of the first frames and their first write the ring is
empty, and the counter of QEMU is ahead. -/
theorem batch_ahead :
    ∃ tr : Trace Player PlayerOp,
      IsTrace (PlayerOp.Step (.ctr plainAes) plainAes ⟨List.replicate 16 0, rfl⟩) samplePlayer tr ∧
      (lastState samplePlayer tr).buf.owptr = (lastState samplePlayer tr).buf.ofptr ∧
      (lastState samplePlayer tr).buf.outRef.map PrivCryptCtx.ctr = some 0 ∧
      ((lastState samplePlayer tr).cctxOut.bind PrivCctx.userCtx).map AesniState.iv = some 1 := by
  refine ⟨runOps ⟨replicate 16 0, rfl⟩ samplePlayer sampleBatch,
    ⟨⟨rfl, rfl⟩, ⟨trivial, rfl⟩, ⟨trivial, rfl⟩, ⟨?_, rfl⟩, trivial⟩, ?_⟩
  · rintro len availb hPc
    cases hPc
    decide
  · decide +kernel

theorem batch_delivered :
    let tr := runOps ⟨List.replicate 16 0, rfl⟩ samplePlayer (sampleBatch ++ [.chunk, .toHw 0 1])
    (EachStep PlayerOp.StoresChunk samplePlayer tr ∧ EachState Delivered samplePlayer tr) ∧
      heard (lastState samplePlayer tr).fetched = [1, 2, 3, 4] := by
  refine ⟨@player_in_step plainAes ⟨replicate 16 0, rfl⟩ ⟨1, 1, false, none, true, .dec, [], 0⟩
    .dec samplePlayer rfl _ rfl rfl rfl rfl (by decide) ⟨0, rfl⟩ rfl rfl
    ⟨⟨rfl, rfl⟩, ⟨trivial, rfl⟩, ⟨trivial, rfl⟩, ⟨?_, rfl⟩, ⟨trivial, rfl⟩, ⟨trivial, rfl⟩, trivial⟩, ?_⟩
  · rintro len availb hPc
    cases hPc
    decide
  · decide +kernel

end Lacuna.Sound
