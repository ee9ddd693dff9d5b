import Lacuna.Display.Aes
import Lacuna.Display.HandOff

/-!
# The display from end to end

The two threads of `encrypted-display.cpp` with the counters and the cipher that they
draw with: whatever the schedule, the frames drawn are a session of `draw`
(`exists_session`). So what holds of counters in one thread holds for the threads.
-/

namespace Lacuna.Display.HandOff

open Lacuna.Lib

variable {cfg : Config} {scr : Screen}

/-- The counters of all frames drawn, in the order of the draws. -/
def logCounters (scr : Screen) : List Event → List (BitVec 128)
  | [] => []
  | .submit _ :: l => logCounters scr l
  | .draw _ iv :: l => logCounters scr l ++ frameCounters scr ⟨iv, []⟩

theorem usedCounters_append (s : ExchangeBuffer) (tr₁ tr₂ : Trace ExchangeBuffer (Frame scr)) :
    usedCounters scr s (tr₁ ++ tr₂) =
      usedCounters scr s tr₁ ++ usedCounters scr (lastState s tr₁) tr₂ := by
  induction tr₁ generalizing s with
  | nil => rfl
  | cons p tr₁ ih =>
    simp only [List.cons_append, usedCounters, lastState, ih, List.append_assoc]

theorem submit_of_draw {frame : List UInt8} {iv : Bigint} {l : List Event} (h : Orderly cfg l)
    (hMem : .draw frame iv ∈ l) : .submit frame ∈ l ∧ frame.length = cfg.size := by
  induction l with
  | nil => cases hMem
  | cons e l ih =>
    cases e with
    | submit img =>
      rcases List.mem_cons.mp hMem with hEq | hMem
      · cases hEq
      · exact (ih h.2 hMem).imp_left (List.mem_cons_of_mem _)
    | draw img iv' =>
      obtain ⟨⟨l', rfl⟩, -, hRest⟩ := h
      rcases List.mem_cons.mp hMem with hEq | hMem
      · cases hEq
        exact ⟨List.mem_cons_of_mem _ List.mem_cons_self, hRest.1⟩
      · exact (ih hRest hMem).imp_left (List.mem_cons_of_mem _)

/-- **The draws are a session.** -/
theorem exists_session (hSize : cfg.size = scr.size) {l : List Event} (h : Orderly cfg l) :
    ∃ tr : Trace ExchangeBuffer (Frame scr),
      IsTrace (DrawStep cfg.aes cfg.key scr) ⟨cfg.iv, []⟩ tr ∧ tr.length = draws l ∧
      (lastState ⟨cfg.iv, []⟩ tr).iv = (nextIv cfg)^[draws l] cfg.iv ∧
      usedCounters scr ⟨cfg.iv, []⟩ tr = logCounters scr l := by
  induction l with
  | nil => exact ⟨[], trivial, rfl, rfl, rfl⟩
  | cons e l ih =>
    cases e with
    | submit img => exact ih h.2
    | draw frame iv =>
      have hFrame := (submit_of_draw h List.mem_cons_self).2.trans hSize
      obtain ⟨-, hIv, hRest⟩ := h
      obtain ⟨tr, hTr, hLen, hLast, hUsed⟩ := ih hRest
      refine ⟨tr ++ [(⟨frame, hFrame⟩, _)], hTr.append ⟨rfl, trivial⟩, ?_, ?_, ?_⟩
      · rw [List.length_append, hLen]
        rfl
      · rw [lastState_append, draws, Function.iterate_succ_apply', ← hLast, nextIv, hSize]
        rfl
      · rw [usedCounters_append, hUsed, logCounters, hIv, ← hLast]
        exact congrArg (_ ++ ·) (List.append_nil _)

def aesConfig (buffer : ExpKey) (key : List UInt8) (scr : Screen) (iv : Bigint) : Config :=
  ⟨gpuAes buffer, key, false, scr.size, iv⟩

/-- **The display from end to end.** In every run of the two threads, a frame that is drawn was
submitted, and is shown exactly if its counter does not wrap too early; and the keystream of no
two blocks is the same, as long as there are less than `2^128`. -/
theorem pipeline_sound (buffer : ExpKey) (key : List UInt8) (scr : Screen) (iv₀ : Bigint) (mem : Mem)
    (run : Run (exec (aesConfig buffer key scr iv₀)) (start (aesConfig buffer key scr iv₀) mem))
    (n : Nat) :
    (∀ frame iv, .draw frame iv ∈ (run.state n).log → .submit frame ∈ (run.state n).log ∧
      ∀ shown, (ExchangeBuffer.draw (gpuAes buffer) key false scr ⟨iv, shown⟩ frame).shown = frame ↔
        NoEarlyWrap scr ⟨iv, shown⟩) ∧
    (draws (run.state n).log * scr.units < 2 ^ 128 →
      ((logCounters scr (run.state n).log).map (gpuAes buffer key).block).Nodup) := by
  have hOrderly := (inv_run run n).data.orderly
  constructor
  · intro frame iv hDraw
    obtain ⟨hSubmit, hLen⟩ := submit_of_draw hOrderly hDraw
    exact ⟨hSubmit, fun shown => @restored_iff (gpuAes buffer) key scr ⟨iv, shown⟩ ⟨frame, hLen⟩
      (gpuAes_injective buffer key)⟩
  · intro hTotal
    obtain ⟨tr, hTr, hLen, -, hUsed⟩ := exists_session rfl hOrderly
    rw [← hUsed]
    exact (nodup_usedCounters _ key hTr (by rwa [hLen])).map (gpuAes_injective buffer key)

end Lacuna.Display.HandOff
