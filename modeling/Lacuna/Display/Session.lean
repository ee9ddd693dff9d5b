import Mathlib.Data.List.Nodup
import Lacuna.Crypt.Aesni
import Lacuna.Display.Counter
import Lacuna.Lib.Trace

/-!
# Sessions of the encrypted display

`exchange_buffer::draw` of `gpu/display/encrypted-display.cpp`: the CPU encrypts a
frame in counter mode (`cpu_encrypt_string_count`), the GPU decrypts it with one
thread for each block (`encrypt_decrypt_counter`), and the counter is advanced by
the number of blocks (`plus`). A frame may be lost when the counter wraps
(`display_iff`), but no counter is used twice (`nodup_usedCounters`).
-/

namespace Lacuna.Display

open Lacuna.Lib Lacuna.Crypt List

def THREADS_PER_BLOCK : Nat := 256
def MAX_BLOCK_SIZE : Nat := 1024 * 1024 * 16

structure Screen where
  w : Nat
  h : Nat
  w_pos : 0 < w
  h_pos : 0 < h
  whole : 4096 ∣ w * h * 4
  small : w * h * 4 ≤ MAX_BLOCK_SIZE

def Screen.size (scr : Screen) : Nat := scr.w * scr.h * 4

def Screen.units (scr : Screen) : Nat := scr.size / 16

def Bigint.counter (x : Bigint) : BitVec 128 := BitVec.ofNat 128 x.toNat

section Functions

variable (aes : List UInt8 → BlockStream 128 16) (key : List UInt8)

def cpuEncryptStringCount (noEncrypt : Bool) (data : List UInt8) (ctr : Bigint) : List UInt8 :=
  if noEncrypt then data else (aesniCtrEnc aes key data ctr.counter).1

def encryptDecryptCounter (blocks threads : Nat) (data : List UInt8) (iv : Bigint) : List UInt8 :=
  (List.range blocks).flatMap fun blockIdx => (List.range threads).flatMap fun threadIdx =>
    let myId := threadIdx + blockIdx * threads
    let myiv := (gpuBigintPlus iv (UInt32.ofNat myId)).counter
    xorBytes ((aes key).block myiv) ((data.drop (16 * myId)).take 16)

def gpuProcessString (noEncrypt : Bool) (data : List UInt8) (iv : Bigint) (out : List UInt8) :
    Int × List UInt8 :=
  if MAX_BLOCK_SIZE < data.length then (-1, out)
  else if data.length % (THREADS_PER_BLOCK * 16) ≠ 0 then (-1, out)
  else
    let units := data.length / 16
    let threads := if THREADS_PER_BLOCK ≤ units then THREADS_PER_BLOCK else units % THREADS_PER_BLOCK
    let blocks := if units / threads = 0 then 1 else units / threads
    if noEncrypt then (0, out) else (0, encryptDecryptCounter aes key blocks threads data iv)

/-- The part of `exchange_buffer` that `draw` uses, and the buffer that is shown. -/
structure ExchangeBuffer where
  iv : Bigint
  shown : List UInt8

/-- `exchange_buffer::draw`, of the frame that is in `bufptr`. -/
def ExchangeBuffer.draw (noEncrypt : Bool) (scr : Screen) (s : ExchangeBuffer)
    (frame : List UInt8) : ExchangeBuffer where
  shown := (gpuProcessString aes key noEncrypt
    (cpuEncryptStringCount aes key noEncrypt frame s.iv) s.iv s.shown).2
  iv := plus s.iv (UInt32.ofNat (scr.size / 16))

end Functions

abbrev Frame (scr : Screen) := { frame : List UInt8 // frame.length = scr.size }

section Sessions

variable (aes : List UInt8 → BlockStream 128 16) (key : List UInt8) (scr : Screen)

def DrawStep (s : ExchangeBuffer) (frame : Frame scr) (t : ExchangeBuffer) : Prop :=
  t = s.draw aes key false scr frame.val

def Restored (s : ExchangeBuffer) (frame : Frame scr) : Prop :=
  (s.draw aes key false scr frame.val).shown = frame.val

/-- The counter does not wrap before the last portion of the last thread's
number. -/
def NoEarlyWrap (s : ExchangeBuffer) : Prop :=
  s.iv.toNat + 255 * ((scr.units - 2) / 255) < 2 ^ 128

instance (s : ExchangeBuffer) : Decidable (NoEarlyWrap scr s) :=
  inferInstanceAs (Decidable (_ < _))

def frameCounters (s : ExchangeBuffer) : List (BitVec 128) :=
  (List.range scr.units).map fun i => s.iv.counter + BitVec.ofNat 128 i

def usedCounters : ExchangeBuffer → Trace ExchangeBuffer (Frame scr) → List (BitVec 128)
  | _, [] => []
  | s, (_, t) :: tr => frameCounters scr s ++ usedCounters t tr

end Sessions

namespace Screen

variable (scr : Screen)

theorem size_eq : scr.size = scr.units * 16 := by
  have hDvd : 16 ∣ scr.size := Nat.dvd_trans (by decide) scr.whole
  rw [units, Nat.div_mul_cancel hDvd]

theorem threads_dvd_units : THREADS_PER_BLOCK ∣ scr.units := by
  obtain ⟨k, hk⟩ := scr.whole
  refine ⟨k, ?_⟩
  rw [units, size, hk, show 4096 = 16 * 256 from rfl, Nat.mul_assoc,
    Nat.mul_div_cancel_left _ (by decide)]
  rfl

theorem units_pos : 0 < scr.units := by
  have hPos : 0 < scr.size := Nat.mul_pos (Nat.mul_pos scr.w_pos scr.h_pos) (by decide)
  rw [size_eq] at hPos
  exact Nat.pos_of_mul_pos_right hPos

theorem threads_le_units : THREADS_PER_BLOCK ≤ scr.units :=
  Nat.le_of_dvd scr.units_pos scr.threads_dvd_units

theorem units_le : scr.units ≤ 2 ^ 20 := by
  have hSize : scr.size ≤ 2 ^ 24 := scr.small
  rw [size_eq] at hSize
  omega

end Screen

/-! ## One frame -/

theorem flatMap_grid {α : Type} (blocks threads : Nat) (f : Nat → List α) :
    ((range blocks).flatMap fun i => (range threads).flatMap fun j => f (j + i * threads)) =
      (range (blocks * threads)).flatMap f := by
  induction blocks with
  | zero => simp
  | succ blocks ih =>
    rw [range_succ, flatMap_append, ih, Nat.succ_mul, range_add, flatMap_append, flatMap_map]
    simp [Nat.add_comm]

section Frame

variable (aes : List UInt8 → BlockStream 128 16) (key : List UInt8) {scr : Screen}
  {s : ExchangeBuffer} {frame : Frame scr}

def gpuStream (iv : Bigint) (units : Nat) : List UInt8 :=
  (List.range units).flatMap fun i =>
    (aes key).block (gpuBigintPlus iv (UInt32.ofNat i)).counter

theorem gpuProcessString_eq {data out : List UInt8} (hData : data.length = scr.size) (iv : Bigint) :
    gpuProcessString aes key false data iv out =
      (0, xorBytes (gpuStream aes key iv scr.units) data) := by
  have hSize := scr.size_eq
  have hWhole : scr.size % (THREADS_PER_BLOCK * 16) = 0 := Nat.mod_eq_zero_of_dvd scr.whole
  have hBlocks : scr.units / THREADS_PER_BLOCK * THREADS_PER_BLOCK = scr.units :=
    Nat.div_mul_cancel scr.threads_dvd_units
  have hPos : scr.units / THREADS_PER_BLOCK ≠ 0 := by
    have hUnits := scr.units_pos
    intro hZero
    rw [hZero, Nat.zero_mul] at hBlocks
    omega
  have hUnits : scr.size / 16 = scr.units := rfl
  unfold gpuProcessString
  rw [hData, if_neg (show ¬ MAX_BLOCK_SIZE < scr.size from Nat.not_lt.mpr scr.small),
    if_neg (not_not.mpr hWhole)]
  dsimp only
  rw [hUnits, if_pos scr.threads_le_units, if_neg hPos, if_neg Bool.false_ne_true,
    encryptDecryptCounter]
  dsimp only
  rw [flatMap_grid _ _ fun myId =>
      xorBytes ((aes key).block (gpuBigintPlus iv (UInt32.ofNat myId)).counter)
        ((data.drop (16 * myId)).take 16),
    hBlocks, flatMap_xorBytes (fun _ => (aes key).length_block _) (hData.trans hSize), gpuStream]

theorem restored_iff_stream : Restored aes key scr s frame ↔
      gpuStream aes key s.iv scr.units = keystream (aes key) s.iv.counter scr.units := by
  have hFrame : frame.val.length = scr.units * 16 := frame.property.trans scr.size_eq
  have hBlocks : blocksOf 16 frame.val.length = scr.units := by
    rw [hFrame, blocksOf_mul (by decide)]
  have hCpu : cpuEncryptStringCount aes key false frame.val s.iv =
      xorBytes frame.val (keystream (aes key) s.iv.counter scr.units) := by
    rw [cpuEncryptStringCount, if_neg Bool.false_ne_true,
      aesniCtrEnc_whole aes ⟨scr.units, by rw [hFrame, Nat.mul_comm]⟩, ctrCrypt, hBlocks]
  have hKey : (keystream (aes key) s.iv.counter scr.units).length = frame.val.length := by
    rw [length_keystream, hFrame]
  have hGpu : (gpuStream aes key s.iv scr.units).length = frame.val.length := by
    rw [gpuStream, length_flatMap_range (fun _ => (aes key).length_block _), hFrame]
  have hCipher : (xorBytes frame.val (keystream (aes key) s.iv.counter scr.units)).length =
      frame.val.length := by
    rw [length_xorBytes, hKey, Nat.min_self]
  unfold Restored ExchangeBuffer.draw
  rw [hCpu, gpuProcessString_eq aes key (hCipher.trans frame.property)]
  dsimp only
  rw [xorBytes_comm]
  constructor
  · intro h
    refine xorBytes_right_inj (hGpu.trans hCipher.symm) (hKey.trans hCipher.symm) (h.trans ?_)
    rw [xorBytes_cancel (Nat.le_of_eq hKey.symm)]
  · intro h
    rw [h, xorBytes_cancel (Nat.le_of_eq hKey.symm)]

theorem thread_counter_iff {n : Nat} (hn : n < 2 ^ 31) (iv : Bigint) :
    (gpuBigintPlus iv (UInt32.ofNat n)).counter = iv.counter + BitVec.ofNat 128 n ↔
      iv.toNat + 255 * ((n - 1) / 255) < 2 ^ 128 := by
  have hNat : (UInt32.ofNat n).toNat = n := by
    rw [UInt32.toNat_ofNat']
    exact Nat.mod_eq_of_lt (by omega)
  have hIff := @bigintPlus_eq_iff iv (UInt32.ofNat n) (by rwa [hNat])
  rw [hNat] at hIff
  rw [← hIff, Bigint.counter, Bigint.counter, ← BitVec.ofNat_add, ← BitVec.toNat_inj,
    BitVec.toNat_ofNat, BitVec.toNat_ofNat, Nat.mod_eq_of_lt (Bigint.toNat_lt _)]
  rfl

/-- **One frame**, for a block cipher that tells its blocks apart. -/
theorem restored_iff (hInj : Function.Injective (aes key).block) :
    Restored aes key scr s frame ↔ NoEarlyWrap scr s := by
  have hUnits := scr.units_le
  have hPos := scr.units_pos
  rw [restored_iff_stream, keystream_eq_flatMap, gpuStream,
    flatMap_range_inj (fun _ => (aes key).length_block _) (fun _ => (aes key).length_block _)]
  constructor
  · intro h
    have hLast := hInj (h (scr.units - 1) (by omega))
    rw [thread_counter_iff (by omega), Nat.sub_sub] at hLast
    exact hLast
  · intro h i hi
    rw [(thread_counter_iff (by omega) s.iv).mpr]
    unfold NoEarlyWrap at h
    have hMono : (i - 1) / 255 ≤ (scr.units - 2) / 255 := Nat.div_le_div_right (by omega)
    omega

end Frame

/-! ## The counters of a session -/

section Counters

variable (aes : List UInt8 → BlockStream 128 16) (key : List UInt8) {scr : Screen}

theorem toNat_next_iv (scr : Screen) (iv : Bigint) : (iv.toNat + scr.units < 2 ^ 128 →
      (plus iv (UInt32.ofNat scr.units)).toNat = iv.toNat + scr.units) ∧
    (2 ^ 128 ≤ iv.toNat + scr.units → ∃ e ≤ 1,
      (plus iv (UInt32.ofNat scr.units)).toNat + 2 ^ 128 = iv.toNat + scr.units + e) := by
  have hUnits := scr.units_le
  have hPos := scr.units_pos
  have hIv := iv.toNat_lt
  have hNat : (UInt32.ofNat scr.units).toNat = scr.units := by
    rw [UInt32.toNat_ofNat']
    exact Nat.mod_eq_of_lt (by omega)
  have hSum := @toNat_bigintPlus iv (UInt32.ofNat scr.units) (by omega) (by omega)
  rw [hNat] at hSum
  have hDiv : 255 * ((scr.units - 1) / 255) ≤ scr.units - 1 := Nat.mul_div_le _ _
  unfold plus
  rw [hSum]
  constructor
  · intro hLt
    have hNone : excess (2 ^ 128) iv.toNat scr.units = 0 :=
      (excess_eq_zero_iff hIv).mpr (by omega)
    rw [hNone, Nat.add_zero, Nat.mod_eq_of_lt hLt]
  · intro hLe
    have hOne : excess (2 ^ 128) iv.toNat scr.units ≤ 1 := by
      unfold excess
      split <;> decide
    refine ⟨_, hOne, ?_⟩
    generalize excess (2 ^ 128) iv.toNat scr.units = e at *
    omega

theorem frameCounters_eq (s : ExchangeBuffer) : frameCounters scr s =
      ((range scr.units).map (s.iv.toNat + ·)).map (BitVec.ofNat 128) := by
  rw [frameCounters, map_map]
  exact map_congr_left fun i _ => (BitVec.ofNat_add ..).symm

/-- As increasing numbers: they go on where the frame before has ended, or one further after a
wrap. -/
theorem usedCounters_positions {s : ExchangeBuffer} {tr : Trace ExchangeBuffer (Frame scr)}
    (hTr : IsTrace (DrawStep aes key scr) s tr) (hTotal : tr.length * scr.units < 2 ^ 128) :
    ∃ ps : List Nat, usedCounters scr s tr = ps.map (BitVec.ofNat 128) ∧ ps.Pairwise (· < ·) ∧
      ∀ p ∈ ps, s.iv.toNat ≤ p ∧ p < s.iv.toNat + tr.length * scr.units +
        (if s.iv.toNat + tr.length * scr.units < 2 ^ 128 then 0 else 1) := by
  induction tr generalizing s with
  | nil => exact ⟨[], rfl, List.Pairwise.nil, fun _ h => nomatch h⟩
  | cons step tr ih =>
    obtain ⟨frame, t⟩ := step
    obtain ⟨rfl, hTr⟩ := hTr
    rw [length_cons, Nat.succ_mul] at hTotal ⊢
    obtain ⟨ps, hUsed, hSorted, hRange⟩ := ih hTr (by omega)
    have hIv := s.iv.toNat_lt
    have hNext : (s.draw aes key false scr frame.val).iv = plus s.iv (UInt32.ofNat scr.units) := rfl
    rw [hNext] at hRange
    obtain ⟨hPlain, hWrap⟩ := toNat_next_iv scr s.iv
    -- the numbers of the later frames, from where this one ends
    obtain ⟨shift, hMod, hAfter⟩ : ∃ shift, (∀ p, BitVec.ofNat 128 (p + shift) = BitVec.ofNat 128 p) ∧
        ∀ p ∈ ps, s.iv.toNat + scr.units ≤ p + shift ∧
          p + shift < s.iv.toNat + (tr.length * scr.units + scr.units) +
            (if s.iv.toNat + (tr.length * scr.units + scr.units) < 2 ^ 128 then 0 else 1) := by
      by_cases hLt : s.iv.toNat + scr.units < 2 ^ 128
      · refine ⟨0, fun p => rfl, fun p hp => ?_⟩
        obtain ⟨hLow, hHigh⟩ := hRange p hp
        rw [hPlain hLt] at hLow hHigh
        rw [show s.iv.toNat + (tr.length * scr.units + scr.units) =
          s.iv.toNat + scr.units + tr.length * scr.units by omega]
        exact ⟨hLow, hHigh⟩
      · obtain ⟨e, he, hEq⟩ := hWrap (Nat.not_lt.mp hLt)
        refine ⟨2 ^ 128, fun p => ?_, fun p hp => ?_⟩
        · rw [← BitVec.toNat_inj, BitVec.toNat_ofNat, BitVec.toNat_ofNat, Nat.add_mod_right]
        · obtain ⟨hLow, hHigh⟩ := hRange p hp
          rw [if_pos (by omega)] at hHigh
          rw [if_neg (by omega)]
          omega
    refine ⟨(range scr.units).map (s.iv.toNat + ·) ++ ps.map (· + shift), ?_, ?_, ?_⟩
    · rw [usedCounters, hUsed, frameCounters_eq, map_append, map_map]
      congr 1
      rw [map_map]
      exact map_congr_left fun p _ => (hMod p).symm
    · refine List.pairwise_append.mpr ⟨?_, ?_, ?_⟩
      · exact List.pairwise_map.mpr (List.pairwise_lt_range.imp fun h => Nat.add_lt_add_left h _)
      · exact List.pairwise_map.mpr (hSorted.imp fun h => Nat.add_lt_add_right h _)
      · intro p hp q hq
        obtain ⟨i, hi, rfl⟩ := List.mem_map.mp hp
        obtain ⟨p', hp', rfl⟩ := List.mem_map.mp hq
        have hLow := (hAfter p' hp').1
        have hIn := List.mem_range.mp hi
        omega
    · intro p hp
      rcases List.mem_append.mp hp with hp | hp
      · obtain ⟨i, hi, rfl⟩ := List.mem_map.mp hp
        have hIn := List.mem_range.mp hi
        exact ⟨by omega, by omega⟩
      · obtain ⟨p', hp', rfl⟩ := List.mem_map.mp hp
        obtain ⟨hLow, hHigh⟩ := hAfter p' hp'
        exact ⟨by omega, hHigh⟩

/-- **No counter twice**, as long as there are enough of them. -/
theorem nodup_usedCounters {s : ExchangeBuffer} {tr : Trace ExchangeBuffer (Frame scr)}
    (hTr : IsTrace (DrawStep aes key scr) s tr) (hTotal : tr.length * scr.units < 2 ^ 128) :
    (usedCounters scr s tr).Nodup := by
  obtain ⟨ps, hUsed, hSorted, hRange⟩ := usedCounters_positions aes key hTr hTotal
  rw [hUsed]
  refine List.Nodup.map_on (fun p hp q hq hEq => ?_) (hSorted.imp fun h => Nat.ne_of_lt h)
  obtain ⟨hLowP, hHighP⟩ := hRange p hp
  obtain ⟨hLowQ, hHighQ⟩ := hRange q hq
  have hMod := congrArg BitVec.toNat hEq
  rw [BitVec.toNat_ofNat, BitVec.toNat_ofNat] at hMod
  split at hHighP <;> split at hHighQ <;> omega

end Counters

/-- **The encrypted display.** Every frame of a session is shown as it was drawn exactly if the
counter never wraps more than a portion before the end of a frame. The counters of less than
`2^128` blocks are all different. -/
theorem display_iff {aes : List UInt8 → BlockStream 128 16} {key : List UInt8} {scr : Screen}
    {s : ExchangeBuffer} {tr : Trace ExchangeBuffer (Frame scr)}
    (hInj : Function.Injective (aes key).block) (hTr : IsTrace (DrawStep aes key scr) s tr) :
    (EachStep (Restored aes key scr) s tr ↔ EachStep (fun s _ => NoEarlyWrap scr s) s tr) ∧
      (tr.length * scr.units < 2 ^ 128 → (usedCounters scr s tr).Nodup) := by
  refine ⟨?_, nodup_usedCounters aes key hTr⟩
  have hStep : ∀ s (frame : Frame scr) t, True → DrawStep aes key scr s frame t →
      NoEarlyWrap scr s → Restored aes key scr s frame ∧ True := by
    intro s frame t _ _ h
    exact ⟨(restored_iff aes key hInj).mpr h, trivial⟩
  refine eachStep_iff_of_inv hStep ?_ trivial hTr
  intro s frame t _ _ h
  exact (restored_iff aes key hInj).mp h

def counterAes (_ : List UInt8) : BlockStream 128 16 where
  block ctr := beBytes 16 ctr.toNat
  length_block _ := length_beBytes ..

theorem counterAes_injective (key : List UInt8) : Function.Injective (counterAes key).block := by
  intro x y h
  have hNat := congrArg ofBeBytes h
  simp only [counterAes, ofBeBytes_beBytes] at hNat
  rw [show (256 : Nat) ^ 16 = 2 ^ 128 by decide, Nat.mod_eq_of_lt x.isLt,
    Nat.mod_eq_of_lt y.isLt] at hNat
  exact BitVec.toNat_inj.mp hNat

def sampleScreen (h : Nat) (hPos : 0 < h) (hWhole : 32 ∣ h) (hSmall : h ≤ 64) : Screen where
  w := 32
  h := h
  w_pos := by decide
  h_pos := hPos
  whole := by
    obtain ⟨k, rfl⟩ := hWhole
    exact ⟨k, by omega⟩
  small := by
    simp only [MAX_BLOCK_SIZE]
    omega

def blackFrame (scr : Screen) : Frame scr := ⟨List.replicate scr.size 0, List.length_replicate⟩

/-- From the last counter on, thread 256 uses counter 256 instead of 255, and the frame is not
restored. -/
theorem wrapped_frame_lost :
    let scr := sampleScreen 64 (by decide) (by decide) (by decide)
    let s : ExchangeBuffer := { iv := lastIv, shown := [] }
    (gpuBigintPlus s.iv 256).toNat = 256 ∧ (s.iv.toNat + 256) % 2 ^ 128 = 255 ∧
      ¬ Restored counterAes [] scr s (blackFrame scr) := by
  intro scr s
  refine ⟨by decide +kernel, by decide +kernel, fun hRestored => ?_⟩
  have hWrap := (restored_iff counterAes [] (counterAes_injective [])).mp hRestored
  exact absurd hWrap (by decide +kernel)

theorem small_frame_restored :
    let scr := sampleScreen 32 (by decide) (by decide) (by decide)
    let s : ExchangeBuffer := { iv := lastIv, shown := [] }
    Restored counterAes [] scr s (blackFrame scr) := by
  intro scr s
  let t := s.draw counterAes [] false scr (blackFrame scr).val
  have hTr : IsTrace (DrawStep counterAes [] scr) s [(blackFrame scr, t)] := ⟨rfl, trivial⟩
  have hWrap : NoEarlyWrap scr s := by decide +kernel
  exact ((display_iff (counterAes_injective []) hTr).1.mpr ⟨hWrap, trivial⟩).1

end Lacuna.Display
