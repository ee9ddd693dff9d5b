import Lacuna.Lib.Trace
import Lacuna.Sound.Buffer

/-!
# The positions of the sound driver

`azx_pcm_pointer` of `sound/pci/hda/hda_intel_priv.c`. On each call for a
substream the driver hands over what the substream has moved over since the last
call: for playback the frames that the application has filled, for capture the
bytes that the hardware has filled. Where the last call was is kept in static
variables, which the two substreams share.
-/

namespace Lacuna.Sound

open Lacuna.Lib List

/-- `SNDRV_PCM_STREAM_PLAYBACK`, `SNDRV_PCM_STREAM_CAPTURE`. -/
inductive Stream where
  | playback
  | capture
  deriving DecidableEq

/-- `old_appl_ofs`, `old_hw_ofs` and `first_ptr_update`. -/
structure Statics where
  oldApplOfs : Nat
  oldHwOfs : Nat
  firstPtrUpdate : Bool
  deriving DecidableEq

inductive Handover where
  | bufToHw (ofs framesize frames : Nat)
  | encryptInput (ofs len : Nat)
  deriving DecidableEq

def azxGetPosition (bufsize pos : Nat) : Nat := if pos ≥ bufsize then 0 else pos

/-- With the position of the application in frames and of the hardware: what is handed over, and
the static variables. -/
def azxPcmPointer (bufsize framesize : Nat) (stream : Stream) (applPtr pos : Nat) (st : Statics) :
    List Handover × Statics :=
  let applOfs := framesize * applPtr % bufsize
  let hwOfs := azxGetPosition bufsize pos % bufsize
  let calls :=
    match stream with
    | .playback =>
      if st.firstPtrUpdate ∨ st.oldApplOfs = applOfs then []
      else if st.oldApplOfs < applOfs then
        [.bufToHw st.oldApplOfs framesize ((applOfs - st.oldApplOfs) / framesize)]
      else
        [.bufToHw st.oldApplOfs framesize ((bufsize - st.oldApplOfs) / framesize),
          .bufToHw 0 framesize (applOfs / framesize)]
    | .capture =>
      if st.firstPtrUpdate ∨ st.oldHwOfs = hwOfs then []
      else if st.oldHwOfs < hwOfs then [.encryptInput st.oldHwOfs (hwOfs - st.oldHwOfs)]
      else [.encryptInput st.oldHwOfs (bufsize - st.oldHwOfs), .encryptInput 0 hwOfs]
  (calls, { oldApplOfs := applOfs, oldHwOfs := hwOfs, firstPtrUpdate := false })

/-- The offsets of the frames, or of the bytes, that a call hands over. -/
def Handover.offsets : Handover → List Nat
  | bufToHw ofs framesize frames => (List.range frames).map fun j => ofs + framesize * j
  | encryptInput ofs len => (List.range len).map fun j => ofs + 1 * j

/-- The DMA buffers of the two substreams, and the sizes of their frames. -/
structure Pcm where
  bufsize : Nat
  framesize : Stream → Nat
  bufsize_pos : 0 < bufsize
  framesize_pos : ∀ stream, 0 < framesize stream
  whole_frames : ∀ stream, framesize stream ∣ bufsize

/-- The application in frames, the hardware in bytes, both counted from the start of the stream. -/
structure Position where
  appl : Nat
  hw : Nat
  deriving DecidableEq

/-- The static variables, and each substream's position when the driver was last called for it. -/
structure PcmState where
  statics : Statics
  last : Stream → Option Position

structure PointerCall where
  stream : Stream
  position : Position
  deriving DecidableEq

namespace PointerCall

variable (pcm : Pcm)

def handovers (s : PcmState) (c : PointerCall) : List Handover :=
  (azxPcmPointer pcm.bufsize (pcm.framesize c.stream) c.stream c.position.appl
    (c.position.hw % pcm.bufsize) s.statics).1

def run (s : PcmState) (c : PointerCall) : PcmState where
  statics := (azxPcmPointer pcm.bufsize (pcm.framesize c.stream) c.stream c.position.appl
    (c.position.hw % pcm.bufsize) s.statics).2
  last := Function.update s.last c.stream (some c.position)

/-- Between two calls for a substream its positions move by less than the
buffer. -/
def Allowed (s : PcmState) (c : PointerCall) : Prop :=
  ∀ p, s.last c.stream = some p →
    p.appl ≤ c.position.appl ∧
      pcm.framesize c.stream * (c.position.appl - p.appl) < pcm.bufsize ∧
    p.hw ≤ c.position.hw ∧ c.position.hw - p.hw < pcm.bufsize

def Step (s : PcmState) (c : PointerCall) (t : PcmState) : Prop := c.Allowed pcm s ∧ t = c.run pcm s

/-- What a substream has moved over: its unit, the offset it was at, and the
number of units. -/
def due (c : PointerCall) (p : Position) : Nat × Nat × Nat :=
  match c.stream with
  | .playback =>
    (pcm.framesize .playback, pcm.framesize .playback * p.appl, c.position.appl - p.appl)
  | .capture => (1, p.hw, c.position.hw - p.hw)

/-- After the first call for the substream, what is handed over is what it has
moved over. -/
def Covers (s : PcmState) (c : PointerCall) : Prop :=
  ∀ p, s.last c.stream = some p →
    (c.handovers pcm s).flatMap Handover.offsets =
      (List.range (c.due pcm p).2.2).map fun j =>
        ((c.due pcm p).2.1 + (c.due pcm p).1 * j) % pcm.bufsize

/-- The static variable holds the position of this substream. -/
def InPlace (s : PcmState) (c : PointerCall) : Prop :=
  ∀ p, s.last c.stream = some p →
    match c.stream with
    | .playback => s.statics.oldApplOfs = pcm.framesize .playback * p.appl % pcm.bufsize
    | .capture => s.statics.oldHwOfs = p.hw % pcm.bufsize

end PointerCall

/-! ## From one position to another -/

/-- The offsets handed over when the variable holds `old` and the substream is at
`new`. -/
def handed (bufsize unit old new : Nat) : List Nat :=
  if old = new then []
  else if old < new then (List.range ((new - old) / unit)).map fun j => old + unit * j
  else
    ((List.range ((bufsize - old) / unit)).map fun j => old + unit * j) ++
      (List.range (new / unit)).map fun j => 0 + unit * j

theorem handed_units {u : Nat} (hu : 0 < u) (b o n : Nat) :
    handed (u * b) u (u * o) (u * n) = (handed b 1 o n).map (u * ·) := by
  have hDiv : ∀ x y, (u * x - u * y) / u = x - y := by
    intro x y
    rw [← Nat.mul_sub, Nat.mul_div_cancel_left _ hu]
  have hMap : ∀ k x, ((range k).map fun j => u * x + u * j) =
      ((range k).map fun j => x + 1 * j).map (u * ·) := by
    intro k x
    rw [map_map]
    exact map_congr_left fun j _ => by rw [Function.comp_apply, Nat.one_mul, Nat.mul_add]
  have hStart : ∀ k, ((range k).map fun j => 0 + u * j) =
      ((range k).map fun j => 0 + 1 * j).map (u * ·) := fun k => by
    rw [← hMap k 0, Nat.mul_zero]
  unfold handed
  simp only [Nat.mul_right_inj hu.ne', Nat.mul_lt_mul_left hu, hDiv, Nat.div_one,
    Nat.mul_div_cancel_left _ hu]
  split_ifs
  · rfl
  · exact hMap _ _
  · rw [map_append, hMap, hStart]

theorem handed_one {b y m : Nat} (hb : 0 < b) (hm : m < b) :
    handed b 1 (y % b) ((y + m) % b) = (range m).map fun j => (y + 1 * j) % b := by
  have hl : y % b < b := Nat.mod_lt _ hb
  have hMod : ∀ j, (y + 1 * j) % b = (y % b + j) % b := fun j => by rw [Nat.one_mul, Nat.mod_add_mod]
  simp only [hMod]
  rw [← Nat.mod_add_mod y]
  generalize y % b = l at hl
  unfold handed
  by_cases hWrap : l + m < b
  · rw [Nat.mod_eq_of_lt hWrap]
    split_ifs with hEq hLt
    · rw [show m = 0 by omega]
      rfl
    · rw [Nat.div_one, Nat.add_sub_cancel_left]
      refine map_congr_left fun j hj => ?_
      have := List.mem_range.mp hj
      rw [Nat.one_mul, Nat.mod_eq_of_lt (by omega)]
    · omega
  · have hNew : (l + m) % b = l + m - b := by
      rw [Nat.mod_eq_sub_mod (by omega), Nat.mod_eq_of_lt (by omega)]
    rw [hNew, if_neg (by omega), if_neg (by omega), Nat.div_one, Nat.div_one]
    -- up to the end of the buffer, and on from its start
    have hSum : m = (b - l) + (l + m - b) := by omega
    nth_rewrite 2 [hSum]
    rw [range_add, map_append, map_map]
    congr 1
    · refine map_congr_left fun j hj => ?_
      have := List.mem_range.mp hj
      rw [Nat.one_mul, Nat.mod_eq_of_lt (by omega)]
    · refine map_congr_left fun j hj => ?_
      have := List.mem_range.mp hj
      rw [Function.comp_apply, show l + (b - l + j) = b + j by omega, Nat.add_mod_left,
        Nat.mod_eq_of_lt (by omega), Nat.one_mul, Nat.zero_add]

theorem head_handed {b o n : Nat} (ho : o < b) (hNe : o ≠ n) : (handed b 1 o n).head? = some o := by
  unfold handed
  rw [if_neg hNe]
  split
  · obtain ⟨k, hk⟩ : ∃ k, (n - o) / 1 = k + 1 := ⟨n - o - 1, by omega⟩
    rw [hk, range_succ_eq_map]
    rfl
  · obtain ⟨k, hk⟩ : ∃ k, (b - o) / 1 = k + 1 := ⟨b - o - 1, by omega⟩
    rw [hk, range_succ_eq_map]
    rfl

/-- **From where it was.** What is handed over is right exactly if the variable holds the last
position. -/
theorem handed_iff {u B x old m : Nat} (hu : 0 < u) (hB : 0 < B) (huB : u ∣ B) (hx : u ∣ x)
    (hm : u * m < B) (hOld : old < B) (hAligned : u ∣ old) :
    (handed B u old ((x + u * m) % B) = (range m).map fun j => (x + u * j) % B) ↔ old = x % B := by
  obtain ⟨b, rfl⟩ := huB
  obtain ⟨y, rfl⟩ := hx
  obtain ⟨o, rfl⟩ := hAligned
  have hb : 0 < b := Nat.pos_of_mul_pos_left hB
  have hm' : m < b := Nat.lt_of_mul_lt_mul_left hm
  have ho : o < b := Nat.lt_of_mul_lt_mul_left hOld
  have hDue : ((range m).map fun j => (u * y + u * j) % (u * b)) =
      ((range m).map fun j => (y + 1 * j) % b).map (u * ·) := by
    rw [map_map]
    exact map_congr_left fun j _ => by
      rw [Function.comp_apply, Nat.one_mul, ← Nat.mul_add, Nat.mul_mod_mul_left]
  rw [← Nat.mul_add, Nat.mul_mod_mul_left, Nat.mul_mod_mul_left, handed_units hu, hDue,
    map_inj_right fun _ _ h => Nat.eq_of_mul_eq_mul_left hu h, Nat.mul_right_inj hu.ne']
  constructor
  · intro hEq
    rw [← handed_one hb hm'] at hEq
    by_contra hNe
    by_cases hNew : o = (y + m) % b
    · -- nothing is handed over, so nothing was due
      have hHead := congrArg List.head? hEq
      rw [head_handed (Nat.mod_lt _ hb) (by rw [← hNew]; exact Ne.symm hNe), handed,
        if_pos hNew] at hHead
      cases hHead
    · have hHead := congrArg List.head? hEq
      rw [head_handed ho hNew] at hHead
      by_cases hNone : y % b = (y + m) % b
      · rw [handed, if_pos hNone] at hHead
        cases hHead
      · rw [head_handed (Nat.mod_lt _ hb) hNone] at hHead
        exact hNe (Option.some.inj hHead)
  · rintro rfl
    exact handed_one hb hm'

/-- The variables hold offsets in the buffer, and the first call has been made if
there was any. -/
structure PcmInv (pcm : Pcm) (s : PcmState) : Prop where
  not_first : ∀ stream p, s.last stream = some p → s.statics.firstPtrUpdate = false
  appl_lt : s.statics.oldApplOfs < pcm.bufsize
  hw_lt : s.statics.oldHwOfs < pcm.bufsize
  /-- With frames of one size, whoever has set the variable. -/
  aligned : (∀ stream, pcm.framesize stream = pcm.framesize .playback) →
    pcm.framesize .playback ∣ s.statics.oldApplOfs

section Calls

variable {pcm : Pcm} {s : PcmState} {c : PointerCall}

theorem azxGetPosition_mod (hw : Nat) :
    azxGetPosition pcm.bufsize (hw % pcm.bufsize) % pcm.bufsize = hw % pcm.bufsize := by
  have hLt : hw % pcm.bufsize < pcm.bufsize := Nat.mod_lt _ pcm.bufsize_pos
  rw [azxGetPosition, if_neg (Nat.not_le.mpr hLt), Nat.mod_mod]

theorem handovers_playback (hFirst : s.statics.firstPtrUpdate = false) (p : Position) :
    ((PointerCall.mk .playback p).handovers pcm s).flatMap Handover.offsets =
      handed pcm.bufsize (pcm.framesize .playback) s.statics.oldApplOfs
        (pcm.framesize .playback * p.appl % pcm.bufsize) := by
  simp only [PointerCall.handovers, azxPcmPointer, hFirst, Bool.false_eq_true, false_or, handed]
  split_ifs
  · rfl
  · exact append_nil _
  · exact congrArg _ (append_nil _)

theorem handovers_capture (hFirst : s.statics.firstPtrUpdate = false) (p : Position) :
    ((PointerCall.mk .capture p).handovers pcm s).flatMap Handover.offsets =
      handed pcm.bufsize 1 s.statics.oldHwOfs (p.hw % pcm.bufsize) := by
  simp only [PointerCall.handovers, azxPcmPointer, hFirst, Bool.false_eq_true, false_or, handed,
    azxGetPosition_mod, Nat.div_one]
  split_ifs
  · rfl
  · exact append_nil _
  · exact congrArg _ (append_nil _)

/-- **One call** hands over what is due exactly if the variable is in place. -/
theorem covers_iff (hInv : PcmInv pcm s) (hAllowed : c.Allowed pcm s)
    (hAligned : c.stream = .playback → pcm.framesize .playback ∣ s.statics.oldApplOfs) :
    c.Covers pcm s ↔ c.InPlace pcm s := by
  refine forall_congr' fun p => ?_
  refine forall_congr' fun hLast => ?_
  obtain ⟨hAppl, hFrames, hHw, hBytes⟩ := hAllowed p hLast
  have hFirst := hInv.not_first _ _ hLast
  obtain ⟨stream, position⟩ := c
  cases stream with
  | playback =>
    have hNew : pcm.framesize .playback * position.appl =
        pcm.framesize .playback * p.appl + pcm.framesize .playback * (position.appl - p.appl) := by
      rw [← Nat.mul_add, Nat.add_sub_cancel' hAppl]
    rw [handovers_playback hFirst, hNew]
    exact handed_iff (pcm.framesize_pos _) pcm.bufsize_pos (pcm.whole_frames _)
      (Nat.dvd_mul_right _ _) hFrames hInv.appl_lt (hAligned rfl)
  | capture =>
    have hNew : position.hw = p.hw + 1 * (position.hw - p.hw) := by
      rw [Nat.one_mul, Nat.add_sub_cancel' hHw]
    rw [handovers_capture hFirst]
    nth_rewrite 1 [hNew]
    exact handed_iff Nat.one_pos pcm.bufsize_pos (Nat.one_dvd _) (Nat.one_dvd _)
      (by rwa [Nat.one_mul]) hInv.hw_lt (Nat.one_dvd _)

theorem covers_of_inPlace (hInv : PcmInv pcm s) (hAllowed : c.Allowed pcm s)
    (h : c.InPlace pcm s) : c.Covers pcm s := by
  intro p hLast
  refine (covers_iff hInv hAllowed fun hPlay => ?_).mpr h p hLast
  have hPlace := h p hLast
  rw [hPlay] at hPlace
  rw [hPlace]
  exact (Nat.dvd_mod_iff (pcm.whole_frames _)).mpr (Nat.dvd_mul_right _ _)

theorem pcmInv_run (pcm : Pcm) (s : PcmState) (c : PointerCall) : PcmInv pcm (c.run pcm s) where
  not_first _ _ _ := rfl
  appl_lt := Nat.mod_lt _ pcm.bufsize_pos
  hw_lt := Nat.mod_lt _ pcm.bufsize_pos
  aligned hSame := by
    show pcm.framesize .playback ∣ pcm.framesize c.stream * c.position.appl % pcm.bufsize
    rw [hSame c.stream]
    exact (Nat.dvd_mod_iff (pcm.whole_frames _)).mpr (Nat.dvd_mul_right _ _)

end Calls

def freshPcm : PcmState where
  statics := { oldApplOfs := 0, oldHwOfs := 0, firstPtrUpdate := true }
  last := fun _ => none

/-- **Coverage.** What the calls hand over is what their substreams have moved
over, if each call after the first for its substream finds its own position in
the static variable; with frames of one size, only if it does. -/
theorem dma_coverage_iff {pcm : Pcm} {tr : Trace PcmState PointerCall}
    (hTr : IsTrace (PointerCall.Step pcm) freshPcm tr) :
    (EachStep (fun s c => c.InPlace pcm s) freshPcm tr →
      EachStep (fun s c => c.Covers pcm s) freshPcm tr) ∧
    ((∀ stream, pcm.framesize stream = pcm.framesize .playback) →
      (EachStep (fun s c => c.Covers pcm s) freshPcm tr ↔
        EachStep (fun s c => c.InPlace pcm s) freshPcm tr)) := by
  have hNew : PcmInv pcm freshPcm :=
    ⟨(fun _ _ h => nomatch h), pcm.bufsize_pos, pcm.bufsize_pos, fun _ => Nat.dvd_zero _⟩
  have hStep : ∀ s c t, PcmInv pcm s → PointerCall.Step pcm s c t → c.InPlace pcm s →
      c.Covers pcm s ∧ PcmInv pcm t := by
    rintro s c t hInv ⟨hAllowed, rfl⟩ hPlace
    exact ⟨covers_of_inPlace hInv hAllowed hPlace, pcmInv_run pcm s c⟩
  refine ⟨eachStep_of_inv hStep hNew hTr, fun hSame => ?_⟩
  refine eachStep_iff_of_inv hStep ?_ hNew hTr
  rintro s c t hInv ⟨hAllowed, -⟩ hCovers
  exact (covers_iff hInv hAllowed fun _ => hInv.aligned hSame).mp hCovers

def samplePcm : Pcm where
  bufsize := 64
  framesize := fun _ => 4
  bufsize_pos := by decide
  framesize_pos := fun _ => by decide
  whole_frames := fun _ => ⟨16, rfl⟩

def runCalls : PcmState → List PointerCall → Trace PcmState PointerCall
  | _, [] => []
  | s, c :: cs => (c, c.run samplePcm s) :: runCalls (c.run samplePcm s) cs

/-- The microphone is at byte 8, then a call for playback comes, whose hardware is at byte 40.
At byte 16, the bytes from 40 to the end and from 0 to 15 are handed over instead of those from
8 to 15. -/
theorem capture_after_playback :
    let calls : List PointerCall :=
      [⟨.capture, ⟨0, 8⟩⟩, ⟨.playback, ⟨0, 40⟩⟩, ⟨.capture, ⟨0, 16⟩⟩]
    IsTrace (PointerCall.Step samplePcm) freshPcm (runCalls freshPcm calls) ∧
      (PointerCall.mk .capture ⟨0, 16⟩).handovers samplePcm
          (lastState freshPcm (runCalls freshPcm (calls.take 2))) =
        [.encryptInput 40 24, .encryptInput 0 16] ∧
      ¬ EachStep (fun s c => c.Covers samplePcm s) freshPcm (runCalls freshPcm calls) := by
  refine ⟨⟨⟨?_, rfl⟩, ⟨?_, rfl⟩, ⟨?_, rfl⟩, trivial⟩, by decide, ?_⟩
  · exact fun _ h => nomatch h
  · exact fun _ h => nomatch h
  · rintro p ⟨⟩
    decide
  · rintro ⟨-, -, hCovers, -⟩
    exact absurd (hCovers ⟨0, 8⟩ rfl) (by decide)

theorem capture_alone :
    EachStep (fun s c => c.Covers samplePcm s) freshPcm
      (runCalls freshPcm [⟨.capture, ⟨0, 8⟩⟩, ⟨.capture, ⟨0, 60⟩⟩, ⟨.capture, ⟨0, 70⟩⟩]) := by
  let tr := runCalls freshPcm
    [⟨.capture, ⟨0, 8⟩⟩, ⟨.capture, ⟨0, 60⟩⟩, ⟨.capture, ⟨0, 70⟩⟩]
  have hTr : IsTrace (PointerCall.Step samplePcm) freshPcm tr := by
    refine ⟨⟨?_, rfl⟩, ⟨?_, rfl⟩, ⟨?_, rfl⟩, trivial⟩
    · exact fun _ h => nomatch h
    · rintro p ⟨⟩
      decide
    · rintro p ⟨⟩
      decide
  refine (dma_coverage_iff hTr).1 ⟨?_, ?_, ?_, trivial⟩
  · exact fun _ h => nomatch h
  · rintro p ⟨⟩
    rfl
  · rintro p ⟨⟩
    rfl

end Lacuna.Sound
