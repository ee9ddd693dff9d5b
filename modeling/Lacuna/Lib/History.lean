import Mathlib.Data.List.Induction
import Mathlib.Logic.Function.Basic

/-!
# Histories of a finite map

A call may bind a key, unbind it, or do neither. `replay` is the map after a
list of calls; a key has a value exactly if the last call that concerns it has
bound it to that value (`replay_eq_some_iff`).
-/

namespace Lacuna.Lib

open List

variable {κ ν γ : Type} [DecidableEq κ]

/-- One call: its effect is a key with its new value, or nothing. -/
def replayCall (effect : γ → Option (κ × Option ν)) (m : κ → Option ν) (call : γ) : κ → Option ν :=
  match effect call with
  | none => m
  | some (k, v) => Function.update m k v

def replay (effect : γ → Option (κ × Option ν)) (calls : List γ) : κ → Option ν :=
  calls.foldl (replayCall effect) fun _ => none

section Replay

variable {effect : γ → Option (κ × Option ν)}

variable {m : κ → Option ν} {k : κ}

theorem replay_concat (calls : List γ) (call : γ) :
    replay effect (calls ++ [call]) = replayCall effect (replay effect calls) call := by
  rw [replay, foldl_append]
  rfl

theorem replayCall_none {call : γ} (h : effect call = none) : replayCall effect m call = m := by
  unfold replayCall
  rw [h]

theorem replayCall_some {call : γ} {v : Option ν}
    (h : effect call = some (k, v)) : replayCall effect m call = Function.update m k v := by
  unfold replayCall
  rw [h]

theorem replayCall_of_ne {call : γ} (h : ∀ v, effect call ≠ some (k, v)) :
    replayCall effect m call k = m k := by
  cases hEff : effect call with
  | none => rw [replayCall_none hEff]
  | some w =>
    rw [replayCall_some hEff]
    refine Function.update_of_ne ?_ _ _
    rintro rfl
    exact h w.2 hEff

/-- **The last call that concerns a key decides.** -/
theorem replay_eq_some_iff {calls : List γ} {v : ν} :
    replay effect calls k = some v ↔ ∃ before call after, calls = before ++ call :: after ∧
      effect call = some (k, some v) ∧ ∀ later ∈ after, ∀ w, effect later ≠ some (k, w) := by
  induction calls using reverseRecOn with
  | nil =>
    constructor
    · intro h
      cases h
    · rintro ⟨before, call, after, hEq, _⟩
      cases before <;> cases hEq
  | append_singleton calls last ih =>
    rw [replay_concat]
    by_cases hLast : ∃ w, effect last = some (k, w)
    · obtain ⟨w, hw⟩ := hLast
      rw [replayCall_some hw, Function.update_self]
      constructor
      · rintro rfl
        exact ⟨calls, last, [], rfl, hw, fun _ hMem => absurd hMem not_mem_nil⟩
      · rintro ⟨before, call, after, hEq, hCall, hAfter⟩
        rcases eq_nil_or_concat after with rfl | ⟨rest, x, rfl⟩
        · obtain ⟨_, hSame⟩ := List.append_inj' hEq rfl
          rw [(List.cons.inj hSame).1, hCall] at hw
          exact (congrArg Prod.snd (Option.some.inj hw)).symm
        · rw [concat_eq_append, ← cons_append, ← append_assoc] at hEq
          obtain ⟨_, hSame⟩ := List.append_inj' hEq rfl
          rw [(List.cons.inj hSame).1] at hw
          refine absurd hw (hAfter x ?_ w)
          rw [concat_eq_append]
          exact mem_append_right _ (List.mem_singleton.mpr rfl)
    · have hNone : ∀ w, effect last ≠ some (k, w) := fun w hw => hLast ⟨w, hw⟩
      rw [replayCall_of_ne hNone, ih]
      constructor
      · rintro ⟨before, call, after, rfl, hCall, hAfter⟩
        refine ⟨before, call, after ++ [last], by simp, hCall, ?_⟩
        intro later hMem
        rcases List.mem_append.mp hMem with hOld | hNew
        · exact hAfter later hOld
        · rw [List.mem_singleton.mp hNew]
          exact hNone
      · rintro ⟨before, call, after, hEq, hCall, hAfter⟩
        rcases eq_nil_or_concat after with rfl | ⟨rest, x, rfl⟩
        · obtain ⟨_, hSame⟩ := List.append_inj' hEq rfl
          rw [← (List.cons.inj hSame).1] at hCall
          exact absurd hCall (hNone _)
        · rw [concat_eq_append, ← cons_append, ← append_assoc] at hEq
          obtain ⟨hFront, _⟩ := List.append_inj' hEq rfl
          refine ⟨before, call, rest, hFront, hCall, fun later hMem => hAfter later ?_⟩
          rw [concat_eq_append]
          exact mem_append_left _ hMem

end Replay

end Lacuna.Lib
