import Lacuna.Display.Session
import Lacuna.Lib.Fair
import Lacuna.Lib.Mem

/-!
# Handing a frame to the GPU thread

`exchange_buffer` of `encrypted-display.cpp`: `invoke_thread` and `encrypt` are
called by one thread, the producer, and `run` is the GPU thread. They share a mutex,
a condition variable and two flags, of which `ready_gpu` is never reset.

Modelling conventions:

* a step is one access to the shared state under the mutex, or one operation on the
  mutex or the condition variable; `memcpy` copies byte by byte;
* a thread that waits is `sleep`ing until a signal or a spurious wake-up, and then
  has to take the mutex again;
* the images submitted and the frames drawn are recorded, the last one first.
-/

namespace Lacuna.Display.HandOff

open Lacuna.Lib Lacuna.Crypt

/-- What is fixed: the cipher, `w*h*sizeof(uchar4)`, and the first counter. -/
structure Config where
  aes : List UInt8 → BlockStream 128 16
  key : List UInt8
  noEncrypt : Bool
  size : Nat
  iv : Bigint

inductive Tid where
  | producer
  | gpu
  deriving DecidableEq

/-- In the first four an image is being submitted, or `invoke_thread` is running. -/
inductive ProducerPc where
  | lock (img : Option (List UInt8))
  | check (img : Option (List UInt8))
  | sleep (img : Option (List UInt8))
  | woken (img : Option (List UInt8))
  | copy (img : List UInt8) (copied : Nat)
  | signal
  | unlock
  | idle
  deriving DecidableEq

inductive GpuPc where
  | lock
  | init
  | signal
  | check
  | sleep
  | woken
  | draw
  | drawn
  deriving DecidableEq

inductive Event where
  | submit (img : List UInt8)
  | draw (frame : List UInt8) (iv : Bigint)
  deriving DecidableEq

structure State where
  owner : Option Tid
  producer : ProducerPc
  gpu : GpuPc
  readyCpu : Bool
  readyGpu : Bool
  inited : Bool
  buf : Mem
  iv : Bigint
  log : List Event

inductive Label where
  | step (t : Tid)
  /-- `encrypt` is called. -/
  | call (img : List UInt8)
  /-- A wait returns without a signal. -/
  | spurious (t : Tid)
  | stutter
  deriving DecidableEq

def ProducerPc.wake : ProducerPc → ProducerPc
  | .sleep img => .woken img
  | pc => pc

def GpuPc.wake : GpuPc → GpuPc
  | .sleep => .woken
  | pc => pc

section Code

variable (cfg : Config)

def nextIv (iv : Bigint) : Bigint := plus iv (UInt32.ofNat (cfg.size / 16))

/-- `pthread_mutex_lock`, which needs the mutex to be free. -/
def acquire (t : Tid) (s : State) : Option State :=
  if s.owner = none then some { s with owner := some t } else none

def producerStep (s : State) : Option State :=
  match s.producer with
  | .lock img => acquire .producer { s with producer := .check img }
  | .check none =>
    if s.inited then some { s with owner := none, producer := .idle }
    else some { s with owner := none, producer := .sleep none }
  | .check (some img) =>
    if s.readyGpu then some { s with readyCpu := false, producer := .copy img 0 }
    else some { s with owner := none, producer := .sleep (some img) }
  | .sleep _ => none
  | .woken img => acquire .producer { s with producer := .check img }
  | .copy img copied =>
    if copied < cfg.size then
      some { s with
        buf := store s.buf copied [img.getD copied 0]
        producer := .copy img (copied + 1) }
    else some { s with readyCpu := true, log := .submit img :: s.log, producer := .signal }
  | .signal => some { s with gpu := s.gpu.wake, producer := .unlock }
  | .unlock => some { s with owner := none, producer := .idle }
  | .idle => none

def gpuStep (s : State) : Option State :=
  match s.gpu with
  | .lock => acquire .gpu { s with gpu := .init }
  | .init => some { s with
      buf := store s.buf 0 (List.replicate cfg.size 0)
      inited := true
      readyGpu := true
      gpu := .signal }
  | .signal => some { s with producer := s.producer.wake, gpu := .check }
  | .check =>
    if s.readyCpu then some { s with gpu := .draw }
    else some { s with owner := none, gpu := .sleep }
  | .sleep => none
  | .woken => acquire .gpu { s with gpu := .check }
  | .draw =>
    let frame := load s.buf 0 cfg.size
    some { s with
      buf := store s.buf 0 (cpuEncryptStringCount cfg.aes cfg.key cfg.noEncrypt frame s.iv)
      log := .draw frame s.iv :: s.log
      gpu := .drawn }
  | .drawn => some { s with
      iv := nextIv cfg s.iv
      readyGpu := true
      readyCpu := false
      gpu := .check }

def exec (l : Label) (s : State) : Option State :=
  match l with
  | .step .producer => producerStep cfg s
  | .step .gpu => gpuStep cfg s
  | .call img =>
    if s.producer = .idle ∧ img.length = cfg.size then
      some { s with producer := .lock (some img) }
    else none
  | .spurious .producer => some { s with producer := s.producer.wake }
  | .spurious .gpu => some { s with gpu := s.gpu.wake }
  | .stutter => some s

def start (mem : Mem) : State :=
  ⟨none, .lock none, .lock, false, false, false, mem, cfg.iv, []⟩

end Code

/-! ## What should hold -/

def draws : List Event → Nat
  | [] => 0
  | .submit _ :: l => draws l
  | .draw _ _ :: l => draws l + 1

def Pending (log : List Event) : Prop := ∃ img l, log = .submit img :: l

/-- Each draw comes right after the submission of the image it shows, with the next counter. -/
def Orderly (cfg : Config) : List Event → Prop
  | [] => True
  | .submit img :: l => img.length = cfg.size ∧ Orderly cfg l
  | .draw frame iv :: l =>
    (∃ l', l = .submit frame :: l') ∧ iv = (nextIv cfg)^[draws l] cfg.iv ∧ Orderly cfg l

/-! ## The invariant -/

section Invariant

variable {cfg : Config} {s t : State} {l : Label}

@[grind]
def ProducerPc.critical : ProducerPc → Prop
  | .check _ | .copy _ _ | .signal | .unlock => True
  | _ => False

@[grind]
def GpuPc.critical : GpuPc → Prop
  | .lock | .sleep | .woken => False
  | _ => True

@[grind]
def ProducerPc.early : ProducerPc → Prop
  | .copy _ _ | .signal | .unlock => False
  | _ => True

@[grind]
def GpuPc.early : GpuPc → Prop
  | .lock | .init | .signal => True
  | _ => False

@[grind =]
theorem ProducerPc.critical_wake (pc : ProducerPc) : pc.wake.critical ↔ pc.critical := by
  cases pc <;> rfl

@[grind =]
theorem ProducerPc.early_wake (pc : ProducerPc) : pc.wake.early ↔ pc.early := by
  cases pc <;> rfl

theorem ProducerPc.wake_eq (pc : ProducerPc) : (∃ img, pc = .sleep img ∧ pc.wake = .woken img) ∨
    (∀ img, pc ≠ .sleep img) ∧ pc.wake = pc := by
  cases pc <;> simp [wake]

@[grind =]
theorem GpuPc.critical_wake (pc : GpuPc) : pc.wake.critical ↔ pc.critical := by
  cases pc <;> rfl

@[grind =]
theorem GpuPc.early_wake (pc : GpuPc) : pc.wake.early ↔ pc.early := by
  cases pc <;> rfl

theorem GpuPc.wake_eq (pc : GpuPc) : pc = .sleep ∧ pc.wake = .woken ∨ pc ≠ .sleep ∧ pc.wake = pc := by
  cases pc <;> simp [wake]

structure Control (s : State) : Prop where
  producer : s.owner = some .producer ↔ s.producer.critical
  gpu : s.owner = some .gpu ↔ s.gpu.critical
  readyGpu : s.readyGpu = false ↔ s.gpu = .lock ∨ s.gpu = .init
  inited : s.inited = s.readyGpu
  early : s.gpu.early → s.producer.early
  producerSleep : ∀ img, s.producer = .sleep img → s.gpu.early
  gpuSleep : s.gpu = .sleep → s.readyCpu = true → s.producer = .signal
  draw : s.gpu = .draw → s.readyCpu = true

theorem acquire_eq {tid : Tid} (h : acquire tid s = some t) :
    s.owner = none ∧ t = { s with owner := some tid } := by
  unfold acquire at h
  split at h
  · exact ⟨‹_›, (Option.some.inj h).symm⟩
  · cases h

theorem Control.producerStep (h : Control s) (hStep : producerStep cfg s = some t) : Control t := by
  obtain ⟨hP, hG, hReady, hInited, hEarly, hPS, hGS, hDraw⟩ := h
  unfold HandOff.producerStep at hStep
  split at hStep
  · obtain ⟨hFree, rfl⟩ := acquire_eq hStep
    constructor <;> grind -linarith
  · split at hStep <;> cases hStep <;> constructor <;> grind -linarith
  · split at hStep <;> cases hStep <;> constructor <;> grind -linarith
  · cases hStep
  · obtain ⟨hFree, rfl⟩ := acquire_eq hStep
    constructor <;> grind -linarith
  · split at hStep <;> cases hStep <;> constructor <;> grind -linarith
  · cases hStep
    constructor <;> grind -linarith [GpuPc.wake_eq s.gpu]
  · cases hStep
    constructor <;> grind -linarith
  · cases hStep

theorem Control.gpuStep (h : Control s) (hStep : gpuStep cfg s = some t) : Control t := by
  obtain ⟨hP, hG, hReady, hInited, hEarly, hPS, hGS, hDraw⟩ := h
  unfold HandOff.gpuStep at hStep
  split at hStep
  · obtain ⟨hFree, rfl⟩ := acquire_eq hStep
    constructor <;> grind -linarith
  · cases hStep
    constructor <;> grind -linarith
  · cases hStep
    constructor <;> grind -linarith [ProducerPc.wake_eq s.producer]
  · split at hStep <;> cases hStep <;> constructor <;> grind -linarith
  · cases hStep
  · obtain ⟨hFree, rfl⟩ := acquire_eq hStep
    constructor <;> grind -linarith
  · cases hStep
    constructor <;> grind -linarith
  · cases hStep
    constructor <;> grind -linarith

theorem Control.step (h : Control s) (hStep : exec cfg l s = some t) : Control t := by
  cases l with
  | step tid =>
    cases tid with
    | producer => exact h.producerStep hStep
    | gpu => exact h.gpuStep hStep
  | call img =>
    obtain ⟨hP, hG, hReady, hInited, hEarly, hPS, hGS, hDraw⟩ := h
    simp only [exec, Option.ite_none_right_eq_some, Option.some.injEq] at hStep
    obtain ⟨⟨hIdle, -⟩, rfl⟩ := hStep
    constructor <;> grind -linarith
  | spurious tid =>
    obtain ⟨hP, hG, hReady, hInited, hEarly, hPS, hGS, hDraw⟩ := h
    cases tid with
    | producer =>
      cases hStep
      constructor <;> grind -linarith [ProducerPc.wake_eq s.producer]
    | gpu =>
      cases hStep
      constructor <;> grind -linarith [GpuPc.wake_eq s.gpu]
  | stutter =>
    cases hStep
    exact h

@[grind]
def ProducerPc.image : ProducerPc → Option (List UInt8)
  | .lock img | .check img | .sleep img | .woken img => img
  | .copy img _ => some img
  | _ => none

@[grind]
def ProducerPc.copying : ProducerPc → Prop
  | .copy _ _ => True
  | _ => False

@[grind →]
theorem ProducerPc.critical_of_copying {pc : ProducerPc} (h : pc.copying) : pc.critical := by
  cases pc <;> first | exact h | exact h.elim

/-- What is in the buffer, and what the flags say of it. -/
structure Data (cfg : Config) (s : State) : Prop where
  early : s.gpu.early → s.log = []
  sized : ∀ img, s.producer.image = some img → img.length = cfg.size
  copied : ∀ img k, s.producer = .copy img k →
    s.readyCpu = false ∧ k ≤ cfg.size ∧ load s.buf 0 k = img.take k
  ready : ¬ s.producer.copying → s.gpu ≠ .drawn → (s.readyCpu = true ↔ Pending s.log)
  drawn : s.gpu = .drawn → ¬ Pending s.log
  frame : ¬ s.producer.copying → ∀ img l, s.log = .submit img :: l → load s.buf 0 cfg.size = img
  orderly : Orderly cfg s.log
  iv : (nextIv cfg)^[draws s.log] cfg.iv = if s.gpu = .drawn then nextIv cfg s.iv else s.iv

@[grind =]
theorem ProducerPc.image_wake (pc : ProducerPc) : pc.wake.image = pc.image := by
  cases pc <;> rfl

@[grind =]
theorem ProducerPc.copying_wake (pc : ProducerPc) : pc.wake.copying ↔ pc.copying := by
  cases pc <;> rfl

theorem load_copy {buf : Mem} {img : List UInt8} {k : Nat} (h : load buf 0 k = img.take k)
    (hk : k < img.length) :
    load (store buf k [img.getD k 0]) 0 (k + 1) = img.take (k + 1) := by
  have hOld : load (store buf k [img.getD k 0]) 0 k = load buf 0 k :=
    load_store_of_disjoint (.inl (by omega))
  have hNew := load_store_self buf k [img.getD k 0]
  rw [load_add, hOld, h, Nat.zero_add, List.take_add_one]
  rw [List.length_singleton] at hNew
  rw [hNew, List.getD_eq_getElem?_getD, List.getElem?_eq_getElem hk]
  rfl

theorem Data.producerStep (h : Data cfg s) (hc : Control s)
    (hStep : producerStep cfg s = some t) : Data cfg t := by
  obtain ⟨hEarly, hSized, hCopied, hReady, hDrawn, hFrame, hOrderly, hIv⟩ := h
  have hP := hc.producer
  have hG := hc.gpu
  have hGE := hc.early
  unfold HandOff.producerStep at hStep
  split at hStep
  · obtain ⟨hFree, rfl⟩ := acquire_eq hStep
    constructor <;> grind -linarith
  · split at hStep <;> cases hStep <;> constructor <;> grind -linarith
  · split at hStep <;> cases hStep
    · constructor <;> grind -linarith [load]
    · constructor <;> grind -linarith
  · cases hStep
  · obtain ⟨hFree, rfl⟩ := acquire_eq hStep
    constructor <;> grind -linarith
  · rename_i img k hPc
    obtain ⟨hNot, hk, hLoad⟩ := hCopied img k hPc
    have hLen : img.length = cfg.size := hSized img (by rw [hPc]; rfl)
    split at hStep <;> cases hStep
    · have := load_copy hLoad (by omega)
      constructor <;> grind -linarith
    · have hAll : load s.buf 0 cfg.size = img := by
        rw [show cfg.size = k by omega, hLoad, List.take_of_length_le (by omega)]
      have hPending : Pending (.submit img :: s.log) := ⟨img, s.log, rfl⟩
      constructor <;> grind -linarith [Orderly, draws]
  · cases hStep
    constructor <;> grind -linarith [GpuPc.wake_eq s.gpu]
  · cases hStep
    constructor <;> grind -linarith
  · cases hStep

theorem Data.gpuStep (h : Data cfg s) (hc : Control s) (hStep : gpuStep cfg s = some t) :
    Data cfg t := by
  obtain ⟨hEarly, hSized, hCopied, hReady, hDrawn, hFrame, hOrderly, hIv⟩ := h
  have hP := hc.producer
  have hG := hc.gpu
  have hGE := hc.early
  unfold HandOff.gpuStep at hStep
  split at hStep
  · obtain ⟨hFree, rfl⟩ := acquire_eq hStep
    constructor <;> grind -linarith
  · cases hStep
    constructor <;> grind -linarith
  · cases hStep
    constructor <;> grind -linarith [ProducerPc.wake_eq s.producer]
  · split at hStep <;> cases hStep <;> constructor <;> grind -linarith
  · cases hStep
  · obtain ⟨hFree, rfl⟩ := acquire_eq hStep
    constructor <;> grind -linarith
  · rename_i hPc
    cases hStep
    have hNot : ¬ s.producer.copying := by grind -linarith
    obtain ⟨img, l, hLog⟩ := (hReady hNot (by simp [hPc])).mp (hc.draw hPc)
    have hLoad := hFrame hNot img l hLog
    have hNone (frame : List UInt8) (iv : Bigint) : ¬ Pending (.draw frame iv :: s.log) :=
      fun ⟨_, _, h⟩ => nomatch h
    rw [if_neg (by simp [hPc])] at hIv
    refine ⟨by simp [GpuPc.early], hSized, fun img k hk => ?_, ?_, fun _ => hNone _ _, ?_, ?_, ?_⟩
    · rw [hk] at hNot
      exact absurd trivial hNot
    · exact fun _ h => absurd rfl h
    · exact fun _ _ _ h => nomatch h
    · exact ⟨⟨l, by rw [hLog, hLoad]⟩, hIv.symm, hOrderly⟩
    · rw [draws, Function.iterate_succ_apply', hIv, if_pos rfl]
  · cases hStep
    constructor <;> grind -linarith

theorem Data.step (h : Data cfg s) (hc : Control s) (hStep : exec cfg l s = some t) :
    Data cfg t := by
  cases l with
  | step tid =>
    cases tid with
    | producer => exact h.producerStep hc hStep
    | gpu => exact h.gpuStep hc hStep
  | call img =>
    obtain ⟨hEarly, hSized, hCopied, hReady, hDrawn, hFrame, hOrderly, hIv⟩ := h
    simp only [exec, Option.ite_none_right_eq_some, Option.some.injEq] at hStep
    obtain ⟨⟨hIdle, hLen⟩, rfl⟩ := hStep
    constructor <;> grind -linarith
  | spurious tid =>
    obtain ⟨hEarly, hSized, hCopied, hReady, hDrawn, hFrame, hOrderly, hIv⟩ := h
    cases tid with
    | producer =>
      cases hStep
      constructor <;> grind -linarith [ProducerPc.wake_eq s.producer]
    | gpu =>
      cases hStep
      constructor <;> grind -linarith [GpuPc.wake_eq s.gpu]
  | stutter =>
    cases hStep
    exact h

theorem control_start (cfg : Config) (mem : Mem) : Control (start cfg mem) := by
  constructor <;> simp [start, ProducerPc.critical, GpuPc.critical, ProducerPc.early, GpuPc.early]

theorem data_start (cfg : Config) (mem : Mem) : Data cfg (start cfg mem) := by
  constructor <;> simp [start, ProducerPc.image, Pending, Orderly, draws]

structure Inv (cfg : Config) (s : State) : Prop where
  control : Control s
  data : Data cfg s

theorem Inv.step (h : Inv cfg s) (hStep : exec cfg l s = some t) : Inv cfg t :=
  ⟨h.control.step hStep, h.data.step h.control hStep⟩

theorem inv_run {mem : Mem} (run : Run (exec cfg) (start cfg mem)) (n : Nat) :
    Inv cfg (run.state n) :=
  run.inv ⟨control_start cfg mem, data_start cfg mem⟩ Inv.step n

end Invariant

/-! ## The mutex is released -/

section Release

variable {cfg : Config} {s t : State} {l : Label} {tid : Tid}

/-- How many steps the holder of the mutex takes at most before it gives it up. -/
def holdRank (cfg : Config) (s : State) : Tid → Nat
  | .producer =>
    match s.producer with
    | .check _ => cfg.size + 4
    | .copy _ k => cfg.size - k + 3
    | .signal => 2
    | .unlock => 1
    | _ => 0
  | .gpu =>
    match s.gpu with
    | .init => 6
    | .signal => 5
    | .check => if s.readyCpu then 4 else 1
    | .draw => 3
    | .drawn => 2
    | _ => 0

theorem holder_enabled (h : Control s) (hOwner : s.owner = some tid) :
    (exec cfg (.step tid) s).isSome := by
  cases tid with
  | producer =>
    have hPc := h.producer.mp hOwner
    unfold exec producerStep
    split <;> grind -linarith
  | gpu =>
    have hPc := h.gpu.mp hOwner
    unfold exec gpuStep
    split <;> grind -linarith

theorem holder_step (h : Control s) (hOwner : s.owner = some tid)
    (hStep : exec cfg l s = some t) (hHeld : t.owner ≠ none) :
    t.owner = some tid ∧ holdRank cfg t tid ≤ holdRank cfg s tid ∧
      (l = .step tid → holdRank cfg t tid < holdRank cfg s tid) := by
  have hP := h.producer
  have hG := h.gpu
  cases l with
  | step moving =>
    cases moving with
    | producer =>
      unfold exec producerStep at hStep
      split at hStep <;> cases tid <;> grind -linarith [holdRank, acquire]
    | gpu =>
      unfold exec gpuStep at hStep
      split at hStep <;> cases tid <;> grind -linarith [holdRank, acquire]
  | call img => cases tid <;> grind -linarith [exec, holdRank]
  | spurious moving =>
    cases moving with
    | producer =>
      cases hStep
      cases tid <;> grind -linarith [holdRank, ProducerPc.wake_eq s.producer]
    | gpu =>
      cases hStep
      cases tid <;> grind -linarith [holdRank, GpuPc.wake_eq s.gpu]
  | stutter =>
    cases hStep
    exact ⟨hOwner, Nat.le_refl _, fun h => nomatch h⟩

theorem often_free {mem : Mem} (run : Run (exec cfg) (start cfg mem))
    (hFair : ∀ tid, run.StronglyFair (.step tid)) (n : Nat) :
    ∃ m ≥ n, (run.state m).owner = none := by
  cases hOwner : (run.state n).owner with
  | none => exact ⟨n, Nat.le_refl n, hOwner⟩
  | some tid =>
    have hHolds (k : Nat) (hk : (run.state k).owner = some tid) :=
      holder_step (inv_run run k).control hk (run.next k)
    refine run.eventually (fun s => s.owner = some tid) (fun s => s.owner = none)
      (fun s => holdRank cfg s tid) (hFair tid) (fun k hk hHeld => ?_) (fun k hk hLabel hHeld => ?_)
      (fun k hk => ?_) hOwner
    · exact ⟨(hHolds k hk hHeld).1, (hHolds k hk hHeld).2.1⟩
    · exact (hHolds k hk hHeld).2.2 hLabel
    · exact ⟨k, Nat.le_refl k, holder_enabled (inv_run run k).control (hk k (Nat.le_refl k))⟩

end Release

/-! ## No thread is stuck -/

section Progress

variable {cfg : Config} {s t : State} {l : Label}

def drawRank (s : State) : Nat :=
  match s.gpu with
  | .sleep | .woken => 3
  | .check => 2
  | .draw => 1
  | _ => 0

theorem Inv.late (h : Inv cfg s) (hPending : Pending s.log) :
    ¬ s.gpu.early ∧ s.gpu ≠ .drawn ∧ (s.owner ≠ some .producer → s.readyCpu = true) := by
  refine ⟨fun hEarly => ?_, fun hDrawn => h.data.drawn hDrawn hPending, fun hOwner => ?_⟩
  · obtain ⟨img, l, hLog⟩ := hPending
    rw [h.data.early hEarly] at hLog
    cases hLog
  · have hNot : ¬ s.producer.copying := fun hc =>
      hOwner (h.control.producer.mpr (ProducerPc.critical_of_copying hc))
    exact (h.data.ready hNot fun hDrawn => h.data.drawn hDrawn hPending).mpr hPending

theorem pending_step (h : Inv cfg s) (hPending : Pending s.log) (hStep : exec cfg l s = some t)
    (hNot : ¬ draws s.log < draws t.log) :
    (Pending t.log ∧ draws t.log = draws s.log) ∧ drawRank t ≤ drawRank s ∧
      (l = .step .gpu → drawRank t < drawRank s) := by
  obtain ⟨hEarly, hDrawn, hReady⟩ := h.late hPending
  have hG := h.control.gpu
  cases l with
  | step tid =>
    cases tid with
    | producer =>
      have hSubmit (img : List UInt8) : Pending (.submit img :: s.log) := ⟨img, s.log, rfl⟩
      unfold exec producerStep at hStep
      split at hStep <;> grind -linarith [drawRank, acquire, draws, GpuPc.wake_eq s.gpu]
    | gpu =>
      unfold exec gpuStep at hStep
      split at hStep <;> grind -linarith [drawRank, acquire, draws]
  | call img => grind -linarith [exec, drawRank]
  | spurious tid =>
    cases tid with
    | producer =>
      cases hStep
      exact ⟨⟨hPending, rfl⟩, Nat.le_refl _, fun h => nomatch h⟩
    | gpu =>
      cases hStep
      grind -linarith [drawRank, GpuPc.wake_eq s.gpu]
  | stutter =>
    cases hStep
    exact ⟨⟨hPending, rfl⟩, Nat.le_refl _, fun h => nomatch h⟩

theorem gpu_enabled (h : Inv cfg s) (hPending : Pending s.log) (hFree : s.owner = none) :
    (exec cfg (.step .gpu) s).isSome := by
  obtain ⟨hEarly, hDrawn, hReady⟩ := h.late hPending
  have hP := h.control.producer
  have hG := h.control.gpu
  have hSleep := h.control.gpuSleep
  unfold exec gpuStep
  split <;> grind -linarith [acquire]

def Awake (s : State) : Prop := s.producer ≠ .idle ∧ ∀ img, s.producer ≠ .sleep img

theorem awake_step (h : Awake s) (hStep : exec cfg l s = some t) (hl : l ≠ .step .producer) :
    Awake t := by
  obtain ⟨hIdle, hSleep⟩ := h
  have hWake := (ProducerPc.wake_eq s.producer).resolve_left fun ⟨img, h, _⟩ => hSleep img h
  cases l with
  | step tid =>
    cases tid with
    | producer => exact absurd rfl hl
    | gpu =>
      unfold exec gpuStep at hStep
      split at hStep <;> grind -linarith [acquire, Awake]
  | call img => grind -linarith [exec]
  | spurious tid => cases tid <;> cases hStep <;> grind -linarith [Awake]
  | stutter =>
    cases hStep
    exact ⟨hIdle, hSleep⟩

theorem producer_enabled (h : Control s) (hAwake : Awake s) (hFree : s.owner = none) :
    (exec cfg (.step .producer) s).isSome := by
  obtain ⟨hIdle, hSleep⟩ := hAwake
  have hP := h.producer
  unfold exec producerStep
  split <;> grind -linarith [acquire]

section Fair

variable {mem : Mem} (run : Run (exec cfg) (start cfg mem))
  (hFair : ∀ tid, run.StronglyFair (.step tid))

include hFair

theorem eventually_drawn {n : Nat} (hPending : Pending (run.state n).log) :
    ∃ m ≥ n, draws (run.state n).log < draws (run.state m).log := by
  have hStep (k : Nat) (hk : Pending (run.state k).log) :=
    pending_step (inv_run run k) hk (run.next k)
  refine run.eventually (fun s => Pending s.log ∧ draws s.log = draws (run.state n).log)
    (fun s => draws (run.state n).log < draws s.log) drawRank (hFair .gpu)
    (fun k hk hNot => ?_) (fun k hk hLabel hNot => ?_) (fun k hk => ?_) ⟨hPending, rfl⟩
  · rw [← hk.2] at hNot ⊢
    exact ⟨(hStep k hk.1 hNot).1, (hStep k hk.1 hNot).2.1⟩
  · rw [← hk.2] at hNot
    exact (hStep k hk.1 hNot).2.2 hLabel
  · obtain ⟨m, hm, hFree⟩ := often_free run hFair k
    exact ⟨m, hm, gpu_enabled (inv_run run m) (hk m hm).1 hFree⟩

theorem eventually_goesOn {n : Nat} (hAwake : Awake (run.state n)) :
    ∃ m ≥ n, run.label m = .step .producer := by
  by_contra hNever
  have hKeep := run.keep (P := Awake) (n := n) (fun m hm h =>
    awake_step h (run.next m) fun hLabel => hNever ⟨m, hm, hLabel⟩) hAwake
  refine hNever (hFair .producer (fun k => ?_) n)
  obtain ⟨m, hm, hFree⟩ := often_free run hFair (max n k)
  exact ⟨m, by omega, producer_enabled (inv_run run m).control (hKeep m (by omega)) hFree⟩

end Fair

end Progress

def onePixel : Config := ⟨counterAes, [], false, 4, lastIv⟩

/-- The threads start, one image is submitted, and it is drawn. -/
def oneFrame : List Label :=
  List.replicate 2 (.step .producer) ++ List.replicate 4 (.step .gpu) ++
    List.replicate 2 (.step .producer) ++ [.call [1, 2, 3, 4]] ++
    List.replicate 9 (.step .producer) ++ List.replicate 5 (.step .gpu)

def oneFrameRun : Run (exec onePixel) (start onePixel fun _ => 0) :=
  .ofLabels .stutter (fun _ => rfl) oneFrame (by decide +kernel)

theorem oneFrame_fair (tid : Tid) : oneFrameRun.StronglyFair (.step tid) := by
  refine oneFrameRun.stronglyFair_of_none (n := oneFrame.length) fun m hm => ?_
  have hLast : oneFrameRun.state m = _ := Run.ofLabels_state hm
  rw [hLast]
  cases tid with
  | producer => exact Option.isNone_iff_eq_none.mp (by decide +kernel)
  | gpu => exact Option.isNone_iff_eq_none.mp (by decide +kernel)

end Lacuna.Display.HandOff
