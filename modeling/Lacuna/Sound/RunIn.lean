import Mathlib.Algebra.GroupWithZero.Nat
import Lacuna.Lib.Mem

/-!
# Recording in QEMU

`alsa_run_in` and `alsa_decrypt` of `audio/alsaaudio.c`, with private sound on.
What is recorded is read from the kernel into `pcm_buf`, decrypted there and
converted.

Modelling conventions:

* `reads k` is what the kernel does for the `k`-th `read`: `none` is a failure,
  and otherwise no more is read than is asked for;
* the loop of `priv_sound_crypt` is given a number of turns, and a call that
  runs out of them gives `none`. Its `int i` wraps;
* what is done is recorded: the ranges of bytes read, the offsets of the frames
  handed to `priv_crypt`, the ranges of samples converted.
-/

namespace Lacuna.Sound.RunIn

open Lacuna.Lib List

/-- Its ring of samples, of `1 << shift` bytes each in `pcm_buf`. -/
structure HWVoiceIn where
  samples : Nat
  shift : Nat
  wpos : Nat
  dead : Nat
  wpos_lt : wpos < samples
  dead_le : dead ≤ samples
  bytes_lt : samples * 2 ^ shift < 2 ^ 31

/-- `snd_pcm_state`, and whether `alsa_resume` succeeds. -/
inductive PcmState where
  | prepared
  | suspended (resumed : Bool)
  | other
  deriving DecidableEq

/-- `(offset, bytes)` read, offsets of frames decrypted, `(position, samples)` converted. -/
structure Done where
  read : List (Nat × Nat)
  crypt : List Int
  conv : List (Nat × Nat)
  readSamples : Nat
  deriving DecidableEq

def intOf (n : Nat) : Int :=
  if n % 2 ^ 32 < 2 ^ 31 then (n % 2 ^ 32 : Nat) else (n % 2 ^ 32 : Nat) - 2 ^ 32

/-- `for (; i<len; i+=4)` of `priv_sound_crypt`, from its `j`-th turn on. -/
def privSoundCrypt (buf : Int) (len : Nat) : Nat → Nat → Option (List Int)
  | 0, _ => none
  | turns + 1, j =>
    if sizeT (intOf (4 * j)) < len then
      (privSoundCrypt buf len turns (j + 1)).map ((buf + intOf (4 * j)) :: ·)
    else some []

def readResult (request : Nat) : Option Nat → Int
  | none => -1
  | some n => (min n request : Nat)

section Code

variable (turns : Nat) (hw : HWVoiceIn) (reads : Nat → Option Nat)

/-- What the `k`-th read gives when `len` samples are asked for. -/
def got (len k : Nat) : Int := readResult (len * 2 ^ hw.shift) (reads k)

def nread (len k : Nat) : Int := got hw reads len k / 2 ^ hw.shift

def rangeRead (add len k : Nat) : Nat × Nat := (add * 2 ^ hw.shift, (got hw reads len k).toNat)

def advance (add len n : Nat) : Nat × Nat := (add + n, len - n)

/-- One more turn: a range read, its calls of `priv_crypt` and the samples converted. -/
def addRead (range : Nat × Nat) (calls : List Int) (conv : Nat × Nat) (d : Done) : Done :=
  ⟨range :: d.read, calls ++ d.crypt, conv :: d.conv, conv.2 + d.readSamples⟩

/-- The loop over `bufs` with the loop `while (len)` in it, from the `k`-th
read on. -/
def readLoop : List (Nat × Nat) → Nat → Option Done
  | [], _ => some ⟨[], [], [], 0⟩
  | (add, len) :: bufs, k =>
    if len = 0 then readLoop bufs k
    else
      match privSoundCrypt (add * 2 ^ hw.shift : Nat) (sizeT (got hw reads len k)) turns 0 with
      | none => none
      | some calls =>
        if nread hw reads len k ≤ 0 then some ⟨[rangeRead hw reads add len k], calls, [], 0⟩
        else
          (readLoop (advance add len (nread hw reads len k).toNat :: bufs) (k + 1)).map
            (addRead (rangeRead hw reads add len k) calls (add, (nread hw reads len k).toNat))
termination_by bufs => (bufs.map fun b => b.2 + 1).sum
decreasing_by all_goals simp only [advance, List.map_cons, List.sum_cons]; omega

def decr (avail : Int) (state : PcmState) : Nat :=
  if hw.dead = 0 ∨ avail < 0 then 0
  else if avail = 0 then
    match state with
    | .prepared => min hw.dead hw.samples
    -- resumed or not, there are no samples
    | .suspended _ => 0
    | .other => 0
  else min hw.dead avail.toNat

/-- The parts of the ring to be read into: `add` and `len`. -/
def bufs (n : Nat) : List (Nat × Nat) :=
  if hw.wpos + n > hw.samples then
    [(hw.wpos, hw.samples - hw.wpos), (0, n - (hw.samples - hw.wpos))]
  else [(hw.wpos, n), (0, 0)]

/-- What it returns, `hw->wpos` and what has been done. -/
def alsaRunIn (avail : Int) (state : PcmState) : Option (Nat × Nat × Done) :=
  if decr hw avail state = 0 then some (0, hw.wpos, ⟨[], [], [], 0⟩)
  else
    (readLoop turns hw reads (bufs hw (decr hw avail state)) 0).map fun d =>
      (d.readSamples, (hw.wpos + d.readSamples) % hw.samples, d)

end Code

/-! ## What should hold -/

def bytesOf (range : Nat × Nat) : List Int := (List.range range.2).map fun i => (range.1 + i : Nat)

def frameOf (off : Int) : List Int := [off, off + 1, off + 2, off + 3]

/-- The bytes read are decrypted, each once and no others; the frames are in
`pcm_buf` and no more than there are in what was read; what is converted and
counted are the samples read. -/
structure Right (hw : HWVoiceIn) (d : Done) : Prop where
  crypt : d.crypt.flatMap frameOf = d.read.flatMap bytesOf
  inside : ∀ off ∈ d.crypt, 0 ≤ off ∧ off + 4 ≤ (hw.samples * 2 ^ hw.shift : Nat)
  calls : d.crypt.length ≤ ((d.read.map Prod.snd).sum + 3) / 4
  conv : d.conv = (d.read.map fun r => (r.1 / 2 ^ hw.shift, r.2 / 2 ^ hw.shift)).filter (0 < ·.2)
  counted : d.readSamples = (d.read.map fun r => r.2 / 2 ^ hw.shift).sum

def results (hw : HWVoiceIn) (reads : Nat → Option Nat) : List (Nat × Nat) → Nat → List Int
  | [], _ => []
  | (add, len) :: bufs, k =>
    if len = 0 then results hw reads bufs k
    else if nread hw reads len k ≤ 0 then [got hw reads len k]
    else
      got hw reads len k ::
        results hw reads (advance add len (nread hw reads len k).toNat :: bufs) (k + 1)
termination_by bufs => (bufs.map fun b => b.2 + 1).sum
decreasing_by all_goals simp only [advance, List.map_cons, List.sum_cons]; omega

/-! ## One call of `alsa_decrypt` -/

theorem privSoundCrypt_eq (buf : Int) {len : Nat} (hLen : len < 2 ^ 31) (turns : Nat) {j : Nat}
    (hj : j ≤ (len + 3) / 4) :
    privSoundCrypt buf len turns j = if (len + 3) / 4 - j < turns then
        some ((List.range' j ((len + 3) / 4 - j)).map fun i => buf + (4 * i : Nat))
      else none := by
  induction turns generalizing j with
  | zero => rfl
  | succ turns ih =>
    rw [privSoundCrypt]
    by_cases hLt : 4 * j < len
    · have hInt : intOf (4 * j) = (4 * j : Nat) := by
        rw [intOf, Nat.mod_eq_of_lt (by omega), if_pos (by omega)]
      have hCount : (len + 3) / 4 - j = (len + 3) / 4 - (j + 1) + 1 := by omega
      rw [hInt, sizeT_of_nonneg (by omega) (by omega), if_pos (by omega), ih (by omega), hCount,
        List.range'_succ]
      simp only [Nat.add_lt_add_iff_right]
      split <;> rfl
    · have hDone : ¬ sizeT (intOf (4 * j)) < len := by
        unfold intOf sizeT
        split <;> omega
      rw [if_neg hDone, show (len + 3) / 4 - j = 0 by omega, if_pos (Nat.succ_pos turns)]
      rfl

theorem privSoundCrypt_neg (buf : Int) (turns j : Nat) :
    privSoundCrypt buf (sizeT (-1)) turns j = none := by
  induction turns generalizing j with
  | zero => rfl
  | succ turns ih =>
    have hLt : sizeT (intOf (4 * j)) < sizeT (-1) := by
      unfold intOf sizeT
      split <;> omega
    rw [privSoundCrypt, if_pos hLt, ih]
    rfl

def calls (range : Nat × Nat) : List Int :=
  (List.range' 0 ((range.2 + 3) / 4)).map fun i => (range.1 : Int) + (4 * i : Nat)

theorem length_calls (range : Nat × Nat) : (calls range).length = (range.2 + 3) / 4 := by
  rw [calls, length_map, List.length_range']

theorem frames_calls (off n : Nat) : (calls (off, 4 * n)).flatMap frameOf = bytesOf (off, 4 * n) := by
  have hCount : (4 * n + 3) / 4 = n := by omega
  rw [calls, hCount, bytesOf]
  induction n with
  | zero => rfl
  | succ n ih =>
    rw [List.range'_1_concat, map_append, flatMap_append, ih (by omega),
      show 4 * (n + 1) = 4 * n + 1 + 1 + 1 + 1 by omega]
    simp only [range_succ, map_append, append_assoc]
    simp [frameOf]
    omega

/-! ## The loop -/

section Loop

variable {turns : Nat} {hw : HWVoiceIn} {reads : Nat → Option Nat} {bufs : List (Nat × Nat)}
  {k : Nat} {d : Done}

structure Explicit (hw : HWVoiceIn) (vs : List Int) (d : Done) : Prop where
  results : vs = d.read.map fun r => (r.2 : Int)
  crypt : d.crypt = d.read.flatMap calls
  conv : d.conv = (d.read.map fun r => (r.1 / 2 ^ hw.shift, r.2 / 2 ^ hw.shift)).filter (0 < ·.2)
  counted : d.readSamples = (d.read.map fun r => r.2 / 2 ^ hw.shift).sum
  inside : ∀ r ∈ d.read, r.1 + r.2 ≤ hw.samples * 2 ^ hw.shift

theorem got_cases (hw : HWVoiceIn) (reads : Nat → Option Nat) (len k : Nat) :
    got hw reads len k = -1 ∨ ∃ n ≤ len * 2 ^ hw.shift,
      got hw reads len k = n ∧ nread hw reads len k = (n / 2 ^ hw.shift : Nat) := by
  cases hRead : reads k with
  | none => exact .inl (by rw [got, hRead]; rfl)
  | some n =>
    refine .inr ⟨min n (len * 2 ^ hw.shift), Nat.min_le_right _ _, ?_, ?_⟩
    · rw [got, hRead]
      rfl
    · rw [nread, got, hRead]
      exact (Int.natCast_ediv _ _).symm

theorem bytes_le {add len : Nat} (hBuf : add + len ≤ hw.samples) :
    add * 2 ^ hw.shift + len * 2 ^ hw.shift ≤ hw.samples * 2 ^ hw.shift := by
  rw [← Nat.add_mul]
  exact Nat.mul_le_mul_right _ hBuf

theorem turn_explicit {add len : Nat} (hBuf : add + len ≤ hw.samples) {cs : List Int}
    (h : privSoundCrypt (add * 2 ^ hw.shift : Nat) (sizeT (got hw reads len k)) turns 0 = some cs) :
    ∃ n : Nat, got hw reads len k = n ∧ nread hw reads len k = (n / 2 ^ hw.shift : Nat) ∧
      n / 2 ^ hw.shift ≤ len ∧ cs = calls (add * 2 ^ hw.shift, n) ∧
      add * 2 ^ hw.shift + n ≤ hw.samples * 2 ^ hw.shift := by
  have hBytes := bytes_le hBuf
  have hLt := hw.bytes_lt
  rcases got_cases hw reads len k with hNeg | ⟨n, hn, hGot, hRead⟩
  · rw [hNeg, privSoundCrypt_neg] at h
    cases h
  · rw [hGot, sizeT_of_nonneg (by omega) (by omega), Int.toNat_natCast,
      privSoundCrypt_eq _ (by omega) turns (Nat.zero_le _)] at h
    split at h
    · exact ⟨n, hGot, hRead, Nat.div_le_of_le_mul (by rwa [Nat.mul_comm]),
        (Option.some.inj h).symm, by omega⟩
    · cases h

theorem readLoop_explicit (hBufs : ∀ b ∈ bufs, b.1 + b.2 ≤ hw.samples)
    (h : readLoop turns hw reads bufs k = some d) : Explicit hw (results hw reads bufs k) d := by
  have hPow := Nat.two_pow_pos hw.shift
  fun_induction readLoop turns hw reads bufs k generalizing d with
  | case1 =>
    cases h
    rw [results]
    exact ⟨rfl, rfl, rfl, rfl, fun _ hr => nomatch hr⟩
  | case2 k add bufs ih =>
    rw [results, if_pos rfl]
    exact ih (fun b hb => hBufs b (mem_cons_of_mem _ hb)) h
  | case3 => cases h
  | case4 add len bufs k hLen cs hCalls hExit =>
    cases h
    obtain ⟨n, hGot, hRead, -, rfl, hInside⟩ := turn_explicit (hBufs _ mem_cons_self) hCalls
    have hZero : n / 2 ^ hw.shift = 0 := by
      rw [hRead] at hExit
      exact Int.natCast_nonpos_iff.mp hExit
    rw [results, if_neg hLen, if_pos hExit, rangeRead, hGot, Int.toNat_natCast]
    exact ⟨rfl, by simp, by simp [hZero], by simp [hZero], by simpa using hInside⟩
  | case5 add len bufs k hLen cs hCalls hExit ih =>
    obtain ⟨n, hGot, hRead, hLe, rfl, hInside⟩ := turn_explicit (hBufs _ mem_cons_self) hCalls
    obtain ⟨d, hRest, rfl⟩ := Option.map_eq_some_iff.mp h
    obtain ⟨hBuf, hBufs⟩ := List.forall_mem_cons.mp hBufs
    have hAdvance : (advance add len (n / 2 ^ hw.shift)).1 + (advance add len (n / 2 ^ hw.shift)).2 ≤
        hw.samples := by
      simp only [advance] at hBuf ⊢
      omega
    rw [results, if_neg hLen, if_neg hExit, hGot, hRead, Int.toNat_natCast]
    rw [hRead] at hExit
    rw [hRead, Int.toNat_natCast] at ih hRest
    obtain ⟨hResults, hCrypt, hConv, hCounted, hRanges⟩ := ih
      (List.forall_mem_cons.mpr ⟨hAdvance, hBufs⟩) hRest
    have hAdd : add * 2 ^ hw.shift / 2 ^ hw.shift = add := Nat.mul_div_cancel _ hPow
    have hPos : 0 < n / 2 ^ hw.shift := by omega
    have hRange : rangeRead hw reads add len k = (add * 2 ^ hw.shift, n) := by
      rw [rangeRead, hGot, Int.toNat_natCast]
    rw [hRange]
    refine ⟨?_, ?_, ?_, ?_, List.forall_mem_cons.mpr ⟨hInside, hRanges⟩⟩
    · rw [hResults]
      rfl
    · simp only [addRead, hCrypt, flatMap_cons]
    · simp only [addRead, hConv, map_cons, hAdd, filter_cons, hPos, decide_true, if_true]
    · simp only [addRead, hCounted, map_cons, sum_cons]

theorem readLoop_isSome (hBufs : ∀ b ∈ bufs, b.1 + b.2 ≤ hw.samples)
    (hOk : ∀ v ∈ results hw reads bufs k, 0 ≤ v) :
    (readLoop (2 ^ 30) hw reads bufs k).isSome := by
  have hLt := hw.bytes_lt
  fun_induction readLoop (2 ^ 30) hw reads bufs k with
  | case1 => rfl
  | case2 add bufs k ih =>
    rw [results, if_pos rfl] at hOk
    exact ih (List.forall_mem_cons.mp hBufs).2 hOk
  | case3 add len bufs k hLen hCalls =>
    have hGot : 0 ≤ got hw reads len k := by
      rw [results, if_neg hLen] at hOk
      split at hOk <;> exact hOk _ mem_cons_self
    have hBytes : add * _ + len * _ ≤ _ := bytes_le (hBufs _ mem_cons_self)
    rcases got_cases hw reads len k with hNeg | ⟨n, hn, hn', -⟩
    · omega
    · rw [hn', sizeT_of_nonneg (by omega) (by omega), Int.toNat_natCast,
        privSoundCrypt_eq _ (by omega) _ (Nat.zero_le _), if_pos (by omega)] at hCalls
      cases hCalls
  | case4 => rfl
  | case5 add len bufs k hLen cs hCalls hExit ih =>
    obtain ⟨n, -, hRead, hLe, -, -⟩ := turn_explicit (hBufs _ mem_cons_self) hCalls
    obtain ⟨hBuf, hBufs⟩ := List.forall_mem_cons.mp hBufs
    rw [results, if_neg hLen, if_neg hExit] at hOk
    rw [Option.isSome_map]
    refine ih (List.forall_mem_cons.mpr ⟨?_, hBufs⟩) (List.forall_mem_cons.mp hOk).2
    rw [hRead, Int.toNat_natCast]
    simp only [advance] at hBuf ⊢
    omega

theorem sum_le_padded (l : List (Nat × Nat)) :
    (l.map Prod.snd).sum ≤ 4 * (l.map fun r => (r.2 + 3) / 4).sum := by
  induction l with
  | nil => exact Nat.le_refl 0
  | cons r l ih =>
    simp only [map_cons, sum_cons]
    omega

/-- If no more is decrypted than was read, each read was of whole frames. -/
theorem dvd_of_padded {l : List (Nat × Nat)}
    (h : 4 * (l.map fun r => (r.2 + 3) / 4).sum = (l.map Prod.snd).sum) : ∀ r ∈ l, 4 ∣ r.2 := by
  induction l with
  | nil => exact fun _ hr => nomatch hr
  | cons r l ih =>
    simp only [map_cons, sum_cons] at h
    have := sum_le_padded l
    exact List.forall_mem_cons.mpr ⟨by omega, ih (by omega)⟩

theorem length_frames (l : List Int) : (l.flatMap frameOf).length = 4 * l.length := by
  simp [length_flatMap, frameOf, Nat.mul_comm]

theorem length_bytes (l : List (Nat × Nat)) :
    (l.flatMap bytesOf).length = (l.map Prod.snd).sum := by
  simp only [length_flatMap, bytesOf, length_map, length_range]

theorem right_iff {vs : List Int} (h : Explicit hw vs d) : Right hw d ↔ ∀ v ∈ vs, (4 : Int) ∣ v := by
  have hVs : (∀ v ∈ vs, (4 : Int) ∣ v) ↔ ∀ r ∈ d.read, 4 ∣ r.2 := by
    rw [h.results, forall_mem_map]
    exact forall₂_congr fun r _ => by omega
  rw [hVs]
  constructor
  · intro hRight
    refine dvd_of_padded ?_
    have hLengths := congrArg length hRight.crypt
    rw [length_frames, length_bytes, h.crypt, length_flatMap] at hLengths
    simpa only [length_calls] using hLengths
  · intro hDvd
    have hCrypt : d.crypt.flatMap frameOf = d.read.flatMap bytesOf := by
      rw [h.crypt, flatMap_assoc]
      refine flatMap_congr fun r hr => ?_
      obtain ⟨n, hn⟩ := hDvd r hr
      rw [show r = (r.1, 4 * n) from Prod.ext rfl hn]
      exact frames_calls r.1 n
    have hLengths := congrArg length hCrypt
    rw [length_frames, length_bytes] at hLengths
    refine ⟨hCrypt, fun off hOff => ?_, by omega, h.conv, h.counted⟩
    rw [h.crypt, mem_flatMap] at hOff
    obtain ⟨r, hr, hOff⟩ := hOff
    obtain ⟨i, hi, rfl⟩ := List.mem_map.mp hOff
    have := h.inside r hr
    have := hDvd r hr
    rw [List.mem_range'_1] at hi
    omega

end Loop

/-! ## The whole call -/

theorem decr_le (hw : HWVoiceIn) (avail : Int) (state : PcmState) :
    decr hw avail state ≤ hw.samples := by
  have := hw.dead_le
  unfold decr
  split
  · exact Nat.zero_le _
  · split
    · split <;> omega
    · omega

theorem bufs_inside (hw : HWVoiceIn) {n : Nat} (hn : n ≤ hw.samples) :
    ∀ b ∈ bufs hw n, b.1 + b.2 ≤ hw.samples := by
  have := hw.wpos_lt
  unfold bufs
  split <;> simp <;> omega

/-- **Recording.** The call ends with every byte read decrypted once, no other
byte touched, and the samples read converted, counted and added to `wpos`, if
and only if each `read` it makes succeeds and gives whole frames. -/
theorem run_in_iff (hw : HWVoiceIn) (reads : Nat → Option Nat) (avail : Int) (state : PcmState) :
    (∃ turns ret wpos done, alsaRunIn turns hw reads avail state = some (ret, wpos, done) ∧
      ret = done.readSamples ∧ wpos = (hw.wpos + ret) % hw.samples ∧ Right hw done) ↔
    ∀ v ∈ results hw reads (bufs hw (decr hw avail state)) 0, 0 ≤ v ∧ 4 ∣ v := by
  have hBufs := bufs_inside hw (decr_le hw avail state)
  by_cases hDecr : decr hw avail state = 0
  · have hResults : results hw reads (bufs hw (decr hw avail state)) 0 = [] := by
      have := hw.wpos_lt
      rw [hDecr, bufs, if_neg (by omega)]
      simp [results]
    have hDone : Explicit hw [] ⟨[], [], [], 0⟩ := ⟨rfl, rfl, rfl, rfl, fun _ hr => nomatch hr⟩
    have hPos : hw.wpos = (hw.wpos + 0) % hw.samples := (Nat.mod_eq_of_lt hw.wpos_lt).symm
    rw [hResults]
    refine iff_of_true ⟨0, 0, hw.wpos, ⟨[], [], [], 0⟩, if_pos hDecr, rfl, hPos, ?_⟩
      fun _ hv => nomatch hv
    exact (right_iff hDone).mpr fun _ hv => nomatch hv
  · constructor
    · rintro ⟨turns, ret, wpos, done, hRun, -, -, hRight⟩ v hv
      rw [alsaRunIn, if_neg hDecr] at hRun
      obtain ⟨d, hLoop, hOut⟩ := Option.map_eq_some_iff.mp hRun
      cases hOut
      have hExplicit := readLoop_explicit hBufs hLoop
      refine ⟨?_, (right_iff hExplicit).mp hRight v hv⟩
      rw [hExplicit.results] at hv
      obtain ⟨r, -, rfl⟩ := List.mem_map.mp hv
      exact Int.natCast_nonneg _
    · intro hOk
      obtain ⟨d, hLoop⟩ := Option.isSome_iff_exists.mp
        (readLoop_isSome hBufs fun v hv => (hOk v hv).1)
      refine ⟨2 ^ 30, _, _, d, ?_, rfl, rfl,
        (right_iff (readLoop_explicit hBufs hLoop)).mpr fun v hv => (hOk v hv).2⟩
      rw [alsaRunIn, if_neg hDecr, hLoop]
      rfl

def fourSamples : HWVoiceIn := ⟨4, 2, 0, 4, by decide, by decide, by decide⟩

/-- After a `read` that fails, the call never ends; after one of two bytes, two bytes that were
not read are decrypted as well. -/
theorem run_in_unread :
    (∀ turns, alsaRunIn turns fourSamples (fun _ => none) 4 .other = none) ∧
    alsaRunIn 2 fourSamples (fun _ => some 2) 4 .other = some (0, 0, ⟨[(0, 2)], [0], [], 0⟩) ∧
    ¬ Right fourSamples ⟨[(0, 2)], [0], [], 0⟩ := by
  refine ⟨fun turns => ?_, by decide +kernel, fun hRight => absurd hRight.crypt (by decide)⟩
  have hNeg := privSoundCrypt_neg (0 * 2 ^ fourSamples.shift : Nat) turns 0
  rw [alsaRunIn, if_neg (by decide), show bufs fourSamples _ = [(0, 4), (0, 0)] by decide, readLoop,
    if_neg (by decide), show got fourSamples (fun _ => none) 4 0 = -1 from rfl, hNeg]
  rfl

end Lacuna.Sound.RunIn
