import Lacuna.Sound.RunIn

/-!
# What `alsa_write_pending` does with its frames

`alsa_write_pending` of `audio/alsaaudio.c`, with private sound on. The count
that `snd_pcm_writei` accepts, the room in the output ring and the bytes that
the kernel takes are kept in one variable.

Modelling conventions:

* the results of the calls in one turn of the inner loop are a `Turn`. No call
  takes more than it is given;
* a call of `alsa_write_pending` is followed turn by turn, and need not end;
* the offsets of the frames handed to `priv_crypt` and the ranges of bytes
  taken by the private channel are recorded.
-/

namespace Lacuna.Sound.WritePending

open Lacuna.Lib Lacuna.Sound.RunIn List

def EPIPE : Int := 32

def ESTRPIPE : Int := 86

/-- `ALSAVoiceOut` before the call: its ring has `samples` frames of
`1 << shift` bytes. -/
structure ALSAVoiceOut where
  samples : Nat
  shift : Nat
  wpos : Nat
  pending : Nat
  wpos_lt : wpos < samples
  bytes_lt : 4 * samples < 2 ^ 31

/-- What the calls of one turn return: the read of `priv_out_avail_fd`,
`snd_pcm_writei`, whether `alsa_recover` or `alsa_resume` succeeds, and the
writes to `priv_path_out_fd`, where `none` is a failure. -/
structure Turn where
  avail : Option Int
  written : Int
  recovered : Bool
  writes : Nat → Option Nat

structure State where
  wpos : Nat
  pending : Int
  len : Int
  returned : Bool
  crypt : List Int
  sent : List (Nat × Nat)
  deriving DecidableEq

/-- There are turns enough for every `int` (`alsaEncrypt_eq`). -/
def alsaEncrypt (src len : Nat) : List Int := (RunIn.privSoundCrypt src len (2 ^ 30) 0).getD []

/-- `while (to_write > 0)`, from the `k`-th write on: the ranges taken, and
`priv_written`. -/
def writeChunks (writes : Nat → Option Nat) (src toWrite privWritten k : Nat) :
    List (Nat × Nat) × Nat :=
  if toWrite = 0 then ([], privWritten)
  else
    match writes k with
    | none => ([], privWritten)
    | some n =>
      if n < min toWrite 4096 then ([(src + privWritten, n)], privWritten + n)
      else
        Prod.map ((src + privWritten, min toWrite 4096) :: ·) id
          (writeChunks writes src (toWrite - min toWrite 4096) (privWritten + min toWrite 4096)
            (k + 1))
termination_by toWrite

section Code

variable (alsa : ALSAVoiceOut)

def enter (s : State) : State :=
  if s.returned ∨ s.len ≠ 0 then s
  else if s.pending = 0 then { s with returned := true }
  else { s with len := min s.pending (alsa.samples - s.wpos) }

def finish (written : Int) (recovered : Bool) (s : State) : State :=
  if written ≤ 0 then
    if (written = -EPIPE ∨ written = -ESTRPIPE) ∧ recovered then s
    else { s with returned := true }
  else
    { s with
      wpos := (s.wpos + written.toNat) % alsa.samples
      pending := s.pending - written
      len := s.len - written }

def body (t : Turn) (s : State) : State :=
  match t.avail with
  | none => { s with returned := true }
  | some avail =>
    let written := min t.written s.len
    let availb := min avail written
    if 0 < availb then
      let src := s.wpos * 2 ^ alsa.shift
      let chunks := writeChunks t.writes src (availb.toNat * 4) 0 0
      finish alsa (chunks.2 / 4 : Nat) t.recovered { s with
        crypt := s.crypt ++ alsaEncrypt src (availb.toNat * 4)
        sent := s.sent ++ chunks.1 }
    else finish alsa written t.recovered s

def turn (t : Turn) (s : State) : State :=
  if (enter alsa s).returned then enter alsa s else body alsa t (enter alsa s)

def start : State := ⟨alsa.wpos, alsa.pending, 0, false, [], []⟩

def run (turns : Nat → Turn) : Nat → State
  | 0 => start alsa
  | n + 1 => turn alsa (turns n) (run turns n)

end Code

/-! ## What should hold -/

section Spec

variable (alsa : ALSAVoiceOut)

def framesOf (n : Nat) : List Int :=
  (List.range n).flatMap fun i =>
    bytesOf ((alsa.wpos + i) % alsa.samples * 2 ^ alsa.shift, 2 ^ alsa.shift)

def reduced (s : State) : Nat := (alsa.pending - s.pending).toNat

/-- `wpos` and `pending` are in step, and the bytes encrypted and sent are those of the frames
by which `pending` was reduced, each once. -/
structure Conserved (s : State) : Prop where
  pending_nonneg : 0 ≤ s.pending
  pending_le : s.pending ≤ alsa.pending
  wpos : s.wpos = (alsa.wpos + reduced alsa s) % alsa.samples
  crypt : s.crypt.flatMap frameOf = framesOf alsa (reduced alsa s)
  sent : s.sent.flatMap bytesOf = framesOf alsa (reduced alsa s)

def Taken (writes : Nat → Option Nat) (toWrite k : Nat) : Prop :=
  ∀ j, 4096 * j < toWrite → ∃ n, writes (k + j) = some n ∧ min (toWrite - 4096 * j) 4096 ≤ n

/-- If `snd_pcm_writei` accepts frames, they are of four bytes, there is room in the output
ring, and each write takes its chunk. -/
def Good (t : Turn) (s : State) : Prop :=
  (enter alsa s).returned = false → ∀ avail, t.avail = some avail → 0 < t.written →
    alsa.shift = 2 ∧ 0 < avail ∧
      Taken t.writes ((min avail (min t.written (enter alsa s).len)).toNat * 4) 0

end Spec

/-! ## Ranges of bytes -/

theorem length_bytesOf (range : Nat × Nat) : (bytesOf range).length = range.2 := by
  rw [bytesOf, length_map, length_range]

theorem bytesOf_add (off m n : Nat) :
    bytesOf (off, m + n) = bytesOf (off, m) ++ bytesOf (off + m, n) := by
  simp only [bytesOf, range_add, map_append, map_map, Function.comp_def, Nat.add_assoc]

theorem alsaEncrypt_eq (src : Nat) {len : Nat} (hLen : len < 2 ^ 31) :
    alsaEncrypt src len = calls (src, len) := by
  rw [alsaEncrypt, RunIn.privSoundCrypt_eq _ hLen _ (Nat.zero_le _), if_pos (by omega)]
  rfl

/-! ## The writes of one turn -/

theorem taken_step {writes : Nat → Option Nat} {toWrite k n : Nat} (hPos : toWrite ≠ 0)
    (hn : writes k = some n) :
    Taken writes toWrite k ↔
      min toWrite 4096 ≤ n ∧ Taken writes (toWrite - min toWrite 4096) (k + 1) := by
  constructor
  · intro h
    refine ⟨?_, fun j hj => ?_⟩
    · obtain ⟨m, hm, hLe⟩ := h 0 (by omega)
      rw [Nat.add_zero, hn] at hm
      cases hm
      exact hLe
    · obtain ⟨m, hm, hLe⟩ := h (j + 1) (by omega)
      exact ⟨m, by rw [← hm, Nat.add_right_comm, Nat.add_assoc], by omega⟩
  · rintro ⟨hLe, h⟩ j hj
    cases j with
    | zero => exact ⟨n, hn, hLe⟩
    | succ j =>
      obtain ⟨m, hm, hLe⟩ := h j (by omega)
      exact ⟨m, by rw [← hm, Nat.add_right_comm, Nat.add_assoc], by omega⟩

/-- The bytes taken are the first ones, and all of them exactly if each write
takes its chunk. -/
theorem writeChunks_spec (writes : Nat → Option Nat) (src toWrite privWritten k : Nat) :
    ∃ n ≤ toWrite, (writeChunks writes src toWrite privWritten k).2 = privWritten + n ∧
      (writeChunks writes src toWrite privWritten k).1.flatMap bytesOf =
        bytesOf (src + privWritten, n) ∧
      (n = toWrite ↔ Taken writes toWrite k) := by
  fun_induction writeChunks writes src toWrite privWritten k with
  | case1 privWritten k => exact ⟨0, Nat.le_refl 0, rfl, rfl, by simp [Taken]⟩
  | case2 toWrite privWritten k hPos hNone =>
    refine ⟨0, Nat.zero_le _, rfl, rfl, iff_of_false (by omega) fun h => ?_⟩
    obtain ⟨n, hn, -⟩ := h 0 (by omega)
    rw [Nat.add_zero, hNone] at hn
    cases hn
  | case3 toWrite privWritten k hPos n hn hShort =>
    refine ⟨n, by omega, rfl, by simp, iff_of_false (by omega) fun h => ?_⟩
    have := ((taken_step hPos hn).mp h).1
    omega
  | case4 toWrite privWritten k hPos n hn hFull ih =>
    obtain ⟨m, hm, hWritten, hBytes, hTaken⟩ := ih
    refine ⟨min toWrite 4096 + m, by omega, ?_, ?_, ?_⟩
    · rw [Prod.map_snd, hWritten, id, Nat.add_assoc]
    · rw [Prod.map_fst, flatMap_cons, hBytes, bytesOf_add, Nat.add_assoc]
    · rw [taken_step hPos hn, ← hTaken]
      omega

/-! ## One turn -/

section Turn

variable {alsa : ALSAVoiceOut} {s s' : State} {t : Turn}

/-- What is left of a part of the ring is pending, and before the ring's end. -/
structure Inv (alsa : ALSAVoiceOut) (s : State) : Prop where
  len_nonneg : 0 ≤ s.len
  len_le : s.len ≤ s.pending
  inside : s.wpos + s.len ≤ alsa.samples
  wpos_lt : s.wpos < alsa.samples

/-- In a turn `a` frames are encrypted, `n` bytes sent, and `r` frames taken from
`pending`. -/
structure Turned (alsa : ALSAVoiceOut) (s s' : State) (a n r : Nat) : Prop where
  crypt : s'.crypt.flatMap frameOf =
    s.crypt.flatMap frameOf ++ bytesOf (s.wpos * 2 ^ alsa.shift, 4 * a)
  sent : s'.sent.flatMap bytesOf = s.sent.flatMap bytesOf ++ bytesOf (s.wpos * 2 ^ alsa.shift, n)
  wpos : s'.wpos = (s.wpos + r) % alsa.samples
  pending : s'.pending = s.pending - r
  fits : s.wpos + r ≤ alsa.samples
  inv : Inv alsa s'

theorem enter_frame (alsa : ALSAVoiceOut) (s : State) :
    (enter alsa s).wpos = s.wpos ∧ (enter alsa s).pending = s.pending ∧
      (enter alsa s).crypt = s.crypt ∧ (enter alsa s).sent = s.sent := by
  unfold enter
  split
  · exact ⟨rfl, rfl, rfl, rfl⟩
  · split <;> exact ⟨rfl, rfl, rfl, rfl⟩

theorem Inv.enter (h : Inv alsa s) : Inv alsa (enter alsa s) := by
  obtain ⟨hNonneg, hLe, hInside, hLt⟩ := h
  unfold WritePending.enter
  split
  · exact ⟨hNonneg, hLe, hInside, hLt⟩
  · split
    · exact ⟨hNonneg, hLe, hInside, hLt⟩
    · constructor <;> simp only <;> omega

theorem Inv.len_pos (h : Inv alsa s) (hRun : (WritePending.enter alsa s).returned = false) :
    0 < (WritePending.enter alsa s).len := by
  obtain ⟨hNonneg, hLe, hInside, hLt⟩ := h
  unfold WritePending.enter at hRun ⊢
  split at hRun
  · rename_i hCase
    rw [if_pos hCase]
    have : s.len ≠ 0 := hCase.resolve_left (by simp [hRun])
    omega
  · rename_i hCase
    split at hRun
    · cases hRun
    · rename_i hPending
      rw [if_neg hCase, if_neg hPending]
      simp only
      omega

theorem finish_spec (h : Inv alsa s) {written : Int} (hWritten : written ≤ s.len)
    (recovered : Bool) :
    (finish alsa written recovered s).crypt = s.crypt ∧
      (finish alsa written recovered s).sent = s.sent ∧
      (finish alsa written recovered s).wpos = (s.wpos + written.toNat) % alsa.samples ∧
      (finish alsa written recovered s).pending = s.pending - written.toNat ∧
      Inv alsa (finish alsa written recovered s) := by
  have hLt := h.wpos_lt
  unfold finish
  split
  · have hZero : written.toNat = 0 := by omega
    have hPos : s.wpos = (s.wpos + 0) % alsa.samples := (Nat.mod_eq_of_lt hLt).symm
    rw [hZero]
    split
    · exact ⟨rfl, rfl, hPos, by simp, h⟩
    · exact ⟨rfl, rfl, hPos, by simp, h.1, h.2, h.3, hLt⟩
  · refine ⟨rfl, rfl, rfl, ?_, ?_⟩
    · simp only
      omega
    · have := h.len_le
      have := h.inside
      have := Nat.mod_lt (s.wpos + written.toNat) (Nat.zero_lt_of_lt hLt)
      refine ⟨by simp only; omega, by simp only; omega, ?_, this⟩
      have := Nat.mod_le (s.wpos + written.toNat) alsa.samples
      simp only
      omega

theorem Turned.nothing (hInv : Inv alsa s') (hWpos : s'.wpos = s.wpos) (hPending : s'.pending = s.pending)
    (hCrypt : s'.crypt = s.crypt) (hSent : s'.sent = s.sent) : Turned alsa s s' 0 0 0 := by
  have hLt := hInv.wpos_lt
  refine ⟨by rw [hCrypt]; exact (append_nil _).symm, by rw [hSent]; exact (append_nil _).symm,
    ?_, by rw [hPending]; omega, by omega, hInv⟩
  rw [hWpos, Nat.add_zero, Nat.mod_eq_of_lt (by omega)]

theorem send_spec (h : Inv alsa s) {a : Nat} (hLe : (a : Int) ≤ s.len)
    (writes : Nat → Option Nat) (recovered : Bool) :
    ∃ n, Turned alsa s
        (finish alsa ((writeChunks writes (s.wpos * 2 ^ alsa.shift) (a * 4) 0 0).2 / 4 : Nat) recovered
          { s with
            crypt := s.crypt ++ alsaEncrypt (s.wpos * 2 ^ alsa.shift) (a * 4)
            sent := s.sent ++ (writeChunks writes (s.wpos * 2 ^ alsa.shift) (a * 4) 0 0).1 })
        a n (n / 4) ∧
      (n = 4 * a ↔ Taken writes (a * 4) 0) := by
  have hBytes := alsa.bytes_lt
  have hInside := h.inside
  obtain ⟨n, hn, hWritten, hSent, hTaken⟩ :=
    writeChunks_spec writes (s.wpos * 2 ^ alsa.shift) (a * 4) 0 0
  rw [hWritten, Nat.zero_add, alsaEncrypt_eq _ (by omega), Nat.mul_comm a 4]
  have hInv : Inv alsa { s with
      crypt := s.crypt ++ calls (s.wpos * 2 ^ alsa.shift, 4 * a)
      sent := s.sent ++ (writeChunks writes (s.wpos * 2 ^ alsa.shift) (4 * a) 0 0).1 } :=
    ⟨h.1, h.2, h.3, h.4⟩
  obtain ⟨hCrypt', hSent', hWpos, hPending, hInv'⟩ := finish_spec hInv
    (show ((n / 4 : Nat) : Int) ≤ s.len by omega) recovered
  refine ⟨n, ⟨?_, ?_, hWpos, hPending, by omega, hInv'⟩, by rw [Nat.mul_comm 4 a]; exact hTaken⟩
  · rw [hCrypt', flatMap_append, frames_calls]
  · rw [hSent', flatMap_append, Nat.mul_comm 4 a, hSent, Nat.add_zero]

theorem shift_eq {a shift : Nat} (hPos : 0 < a) (h : 4 * a = a * 2 ^ shift) : shift = 2 := by
  have hPow : 2 ^ shift = 2 ^ 2 := by
    refine Nat.eq_of_mul_eq_mul_left hPos ?_
    rw [← h]
    omega
  exact (Nat.pow_right_inj (by omega)).mp hPow

theorem body_spec (h : Inv alsa s) (hLen : 0 < s.len) (t : Turn) :
    ∃ a n r, Turned alsa s (body alsa t s) a n r ∧
      ((∀ avail, t.avail = some avail → 0 < t.written → alsa.shift = 2 ∧ 0 < avail ∧
          Taken t.writes ((min avail (min t.written s.len)).toNat * 4) 0) ↔
        n = 4 * a ∧ 4 * a = r * 2 ^ alsa.shift) := by
  have hPow := Nat.two_pow_pos alsa.shift
  unfold body
  cases hAvail : t.avail with
  | none =>
    exact ⟨0, 0, 0, .nothing ⟨h.1, h.2, h.3, h.4⟩ rfl rfl rfl rfl, by simp⟩
  | some avail =>
    simp only [Option.some.injEq, forall_eq']
    split
    · rename_i hPos
      obtain ⟨n, hTurned, hTaken⟩ := send_spec h
        (show ((min avail (min t.written s.len)).toNat : Int) ≤ s.len by omega) t.writes t.recovered
      refine ⟨_, n, n / 4, hTurned, ?_⟩
      rw [← hTaken]
      constructor
      · intro hGood
        obtain ⟨hShift, -, hn⟩ := hGood (by omega)
        rw [hShift]
        omega
      · rintro ⟨hn, hFrames⟩ -
        rw [hn, Nat.mul_div_cancel_left _ (by omega)] at hFrames
        exact ⟨shift_eq (by omega) hFrames, by omega, hn⟩
    · rename_i hNone
      obtain ⟨hCrypt, hSent, hWpos, hPending, hInv⟩ :=
        finish_spec h (Int.min_le_right t.written s.len) t.recovered
      refine ⟨0, 0, (min t.written s.len).toNat, ⟨?_, ?_, hWpos, hPending, ?_, hInv⟩, ?_⟩
      · rw [hCrypt]
        exact (append_nil _).symm
      · rw [hSent]
        exact (append_nil _).symm
      · have := h.inside
        omega
      · have hZero : 4 * 0 = (min t.written s.len).toNat * 2 ^ alsa.shift ↔
            (min t.written s.len).toNat = 0 := by
          rw [Nat.mul_zero, eq_comm, Nat.mul_eq_zero]
          omega
        rw [hZero]
        omega

theorem turn_spec (h : Inv alsa s) (t : Turn) : ∃ a n r, Turned alsa s (turn alsa t s) a n r ∧
      (Good alsa t s ↔ n = 4 * a ∧ 4 * a = r * 2 ^ alsa.shift) := by
  obtain ⟨hWpos, hPending, hCrypt, hSent⟩ := enter_frame alsa s
  unfold turn Good
  cases hRun : (enter alsa s).returned with
  | true => exact ⟨0, 0, 0, .nothing h.enter hWpos hPending hCrypt hSent, by simp⟩
  | false =>
    obtain ⟨a, n, r, hTurned, hGood⟩ := body_spec h.enter (h.len_pos hRun) t
    refine ⟨a, n, r, ⟨?_, ?_, ?_, ?_, ?_, hTurned.inv⟩, by rw [← hGood]; simp⟩
    · rw [if_neg Bool.false_ne_true, hTurned.crypt, hCrypt, hWpos]
    · rw [if_neg Bool.false_ne_true, hTurned.sent, hSent, hWpos]
    · rw [if_neg Bool.false_ne_true, hTurned.wpos, hWpos]
    · rw [if_neg Bool.false_ne_true, hTurned.pending, hPending]
    · rw [← hWpos]
      exact hTurned.fits

end Turn

/-! ## The whole call -/

section Call

variable {alsa : ALSAVoiceOut} {turns : Nat → Turn}

variable {r : Nat}

theorem inv_run (alsa : ALSAVoiceOut) (turns : Nat → Turn) (n : Nat) : Inv alsa (run alsa turns n) := by
  induction n with
  | zero =>
    have := alsa.wpos_lt
    exact ⟨Int.le_refl 0, Int.natCast_nonneg _, by simp only [run, start]; omega, this⟩
  | succ n ih =>
    obtain ⟨_, _, _, hTurned, -⟩ := turn_spec ih (turns n)
    exact hTurned.inv

theorem frames_range {p : Nat} (hFits : p + r ≤ alsa.samples) : ((range r).flatMap fun i =>
      bytesOf ((p + i) % alsa.samples * 2 ^ alsa.shift, 2 ^ alsa.shift)) =
      bytesOf (p * 2 ^ alsa.shift, r * 2 ^ alsa.shift) := by
  induction r with
  | zero => simp [bytesOf]
  | succ r ih =>
    rw [range_succ, flatMap_append, ih (by omega), flatMap_singleton,
      Nat.mod_eq_of_lt (by omega), Nat.add_mul, Nat.add_mul, Nat.one_mul, bytesOf_add]

theorem framesOf_add {m p : Nat} (hPos : p = (alsa.wpos + m) % alsa.samples)
    (hFits : p + r ≤ alsa.samples) :
    framesOf alsa (m + r) = framesOf alsa m ++ bytesOf (p * 2 ^ alsa.shift, r * 2 ^ alsa.shift) := by
  rw [framesOf, range_add, flatMap_append, ← frames_range hFits, flatMap_map, hPos]
  simp only [framesOf, Nat.mod_add_mod, Nat.add_assoc]

theorem Turned.move {s s' : State} {a n : Nat} (h : Turned alsa s s' a n r)
    (hLe : s.pending ≤ alsa.pending)
    (hWpos : s.wpos = (alsa.wpos + reduced alsa s) % alsa.samples) :
    0 ≤ s'.pending ∧ s'.pending ≤ alsa.pending ∧ reduced alsa s' = reduced alsa s + r ∧
      s'.wpos = (alsa.wpos + reduced alsa s') % alsa.samples := by
  have hLen := h.inv.len_nonneg
  have hLenLe := h.inv.len_le
  have hPending := h.pending
  have hReduced : reduced alsa s' = reduced alsa s + r := by
    unfold reduced
    omega
  refine ⟨by omega, by omega, hReduced, ?_⟩
  rw [h.wpos, hWpos, hReduced, Nat.mod_add_mod, Nat.add_assoc]

theorem conserved_turn {s : State} (h : Conserved alsa s) (hInv : Inv alsa s) (t : Turn) :
    Conserved alsa (turn alsa t s) ↔ Good alsa t s := by
  obtain ⟨a, n, r, hTurned, hGood⟩ := turn_spec hInv t
  obtain ⟨hNonneg, hLe, hReduced, hWpos⟩ := hTurned.move h.pending_le h.wpos
  have hFrames := framesOf_add h.wpos hTurned.fits
  rw [hGood]
  constructor
  · intro h'
    have hCrypt := congrArg length h'.crypt
    have hSent := congrArg length h'.sent
    rw [hReduced, hFrames, hTurned.crypt, h.crypt, length_append, length_append,
      length_bytesOf, length_bytesOf] at hCrypt
    rw [hReduced, hFrames, hTurned.sent, h.sent, length_append, length_append,
      length_bytesOf, length_bytesOf] at hSent
    simp only at hCrypt hSent
    omega
  · rintro ⟨rfl, hBytes⟩
    refine ⟨hNonneg, hLe, hWpos, ?_, ?_⟩
    · rw [hReduced, hFrames, hTurned.crypt, h.crypt, hBytes]
    · rw [hReduced, hFrames, hTurned.sent, h.sent, hBytes]

theorem conserved_start (alsa : ALSAVoiceOut) : Conserved alsa (start alsa) := by
  have hReduced : reduced alsa (start alsa) = 0 := by simp [reduced, start]
  refine ⟨Int.natCast_nonneg _, Int.le_refl _, ?_, ?_, ?_⟩
  · rw [hReduced]
    exact (Nat.mod_eq_of_lt alsa.wpos_lt).symm
  · rw [hReduced]
    rfl
  · rw [hReduced]
    rfl

/-- **Playback.** `wpos` and `pending` are in step after every turn, and the
frames taken from `pending` are those encrypted and sent, if and only if every
turn in which `snd_pcm_writei` accepts frames is a good one. -/
theorem write_pending_iff (alsa : ALSAVoiceOut) (turns : Nat → Turn) :
    (∀ n, Conserved alsa (run alsa turns n)) ↔ ∀ n, Good alsa (turns n) (run alsa turns n) := by
  constructor
  · intro h n
    exact (conserved_turn (h n) (inv_run alsa turns n) (turns n)).mp (h (n + 1))
  · intro h n
    induction n with
    | zero => exact conserved_start alsa
    | succ n ih => exact (conserved_turn ih (inv_run alsa turns n) (turns n)).mpr (h n)

end Call

def onePending : ALSAVoiceOut := ⟨4, 2, 0, 1, Nat.zero_lt_succ _, by decide⟩

/-- The output ring is full, and `snd_pcm_writei` accepts a frame. -/
def fullRing : Turn := ⟨some 0, 1, true, fun _ => none⟩

def failingWrite : Turn := ⟨some 1, 1, true, fun _ => none⟩

/-- With a full ring the frame is dropped unsent; if the write fails, it is left encrypted and
pending. -/
theorem write_pending_drops :
    run onePending (fun _ => fullRing) 1 = ⟨1, 0, 0, false, [], []⟩ ∧
    ¬ Conserved onePending ⟨1, 0, 0, false, [], []⟩ ∧
    run onePending (fun _ => failingWrite) 1 = ⟨0, 1, 1, true, [0], []⟩ ∧
    ¬ Conserved onePending ⟨0, 1, 1, true, [0], []⟩ := by
  refine ⟨by decide, fun h => absurd h.crypt (by decide), by decide +kernel,
    fun h => absurd h.crypt (by decide)⟩

end Lacuna.Sound.WritePending
