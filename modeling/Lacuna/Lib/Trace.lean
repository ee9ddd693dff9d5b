import Mathlib.Data.List.Basic

/-!
# Traces of a labelled step relation

A run of `Step s a t` from `s` is the list of the labels taken, each with the state
it led to. `EachStep P s tr` says that every step of the run meets `P`, and
`EachState Q s tr` that every state does.

* `eachStep_of_inv`, `eachState_of_inv` — what one step guarantees and preserves
  holds along every run;
* `eachStep_iff_of_inv`, `eachState_iff_of_inv` — as long as the guard has been met
  the invariant holds, and there property and guard agree: so they agree on every run;
* `lastState_iff_someStep` — for a property that is kept once it holds: a run ends in
  it exactly if some step (`SomeStep`) brought it about.
-/

namespace Lacuna.Lib

variable {σ α : Type*}

abbrev Trace (σ α : Type*) := List (α × σ)

def IsTrace (Step : σ → α → σ → Prop) : σ → Trace σ α → Prop
  | _, [] => True
  | s, (a, t) :: tr => Step s a t ∧ IsTrace Step t tr

def lastState : σ → Trace σ α → σ
  | s, [] => s
  | _, (_, t) :: tr => lastState t tr

def EachStep (P : σ → α → Prop) : σ → Trace σ α → Prop
  | _, [] => True
  | s, (a, t) :: tr => P s a ∧ EachStep P t tr

def SomeStep (P : σ → α → Prop) : σ → Trace σ α → Prop
  | _, [] => False
  | s, (a, t) :: tr => P s a ∨ SomeStep P t tr

def EachState (Q : σ → Prop) : σ → Trace σ α → Prop
  | s, [] => Q s
  | s, (_, t) :: tr => Q s ∧ EachState Q t tr

section Rules

variable {Step : σ → α → σ → Prop} {P C : σ → α → Prop} {Inv Q : σ → Prop}

variable {s : σ} {tr : Trace σ α}

theorem IsTrace.append {tr₁ tr₂ : Trace σ α}
    (h₁ : IsTrace Step s tr₁) (h₂ : IsTrace Step (lastState s tr₁) tr₂) :
    IsTrace Step s (tr₁ ++ tr₂) := by
  induction tr₁ generalizing s with
  | nil => exact h₂
  | cons p tr ih => exact ⟨h₁.1, ih h₁.2 h₂⟩

theorem lastState_append (s : σ) (tr₁ tr₂ : Trace σ α) :
    lastState s (tr₁ ++ tr₂) = lastState (lastState s tr₁) tr₂ := by
  induction tr₁ generalizing s with
  | nil => rfl
  | cons p tr ih => exact ih p.2

theorem EachStep.of_append {tr₁ tr₂ : Trace σ α} (h : EachStep P s (tr₁ ++ tr₂)) :
    EachStep P (lastState s tr₁) tr₂ := by
  induction tr₁ generalizing s with
  | nil => exact h
  | cons p tr ih => exact ih h.2

theorem EachState.last (h : EachState Q s tr) : Q (lastState s tr) := by
  induction tr generalizing s with
  | nil => exact h
  | cons p tr ih => exact ih h.2

theorem EachState.head (h : EachState Q s tr) : Q s := by
  cases tr with
  | nil => exact h
  | cons p tr => exact h.1

theorem eachStep_trivial (tr : Trace σ α) : EachStep (fun _ _ => True) s tr := by
  induction tr generalizing s with
  | nil => trivial
  | cons p tr ih => exact ⟨trivial, ih⟩

/-- **Invariant rule.** If under `Inv` a step that meets the guard `C` has the property `P` and
keeps `Inv`, then so does every step of a run whose steps meet the guard. -/
theorem eachStep_of_inv
    (hStep : ∀ s a t, Inv s → Step s a t → C s a → P s a ∧ Inv t) (hInv : Inv s) (hTr : IsTrace Step s tr)
    (hC : EachStep C s tr) : EachStep P s tr := by
  induction tr generalizing s with
  | nil => trivial
  | cons p tr ih =>
    obtain ⟨hP, hInv'⟩ := hStep s p.1 p.2 hInv hTr.1 hC.1
    exact ⟨hP, ih hInv' hTr.2 hC.2⟩

/-- **Exact rule.** If moreover a step that misses the guard misses the property, then a run has
the property at every step exactly when it meets the guard at every step. -/
theorem eachStep_iff_of_inv (hStep : ∀ s a t, Inv s → Step s a t → C s a → P s a ∧ Inv t)
    (hNot : ∀ s a t, Inv s → Step s a t → P s a → C s a) (hInv : Inv s) (hTr : IsTrace Step s tr) :
    EachStep P s tr ↔ EachStep C s tr := by
  refine ⟨fun hP => ?_, eachStep_of_inv hStep hInv hTr⟩
  -- the first step has the property, hence meets the guard, hence keeps `Inv`
  induction tr generalizing s with
  | nil => trivial
  | cons p tr ih =>
    have hC := hNot s p.1 p.2 hInv hTr.1 hP.1
    exact ⟨hC, ih (hStep s p.1 p.2 hInv hTr.1 hC).2 hTr.2 hP.2⟩

/-- **Invariant rule for states.** If steps that meet the guard keep `Inv`, which gives `Q`,
then a run whose steps meet the guard has `Q` in every state. -/
theorem eachState_of_inv (hQ : ∀ s, Inv s → Q s)
    (hStep : ∀ s a t, Inv s → Step s a t → C s a → Inv t) (hInv : Inv s) (hTr : IsTrace Step s tr)
    (hC : EachStep C s tr) : EachState Q s tr := by
  induction tr generalizing s with
  | nil => exact hQ s hInv
  | cons p tr ih => exact ⟨hQ s hInv, ih (hStep s p.1 p.2 hInv hTr.1 hC.1) hTr.2 hC.2⟩

/-- **Exact rule for states.** If moreover a step that misses the guard loses `Q`, then a run
has `Q` in every state exactly when it meets the guard at every step. -/
theorem eachState_iff_of_inv (hQ : ∀ s, Inv s → Q s)
    (hStep : ∀ s a t, Inv s → Step s a t → C s a → Inv t)
    (hNot : ∀ s a t, Inv s → Step s a t → Q t → C s a) (hInv : Inv s) (hTr : IsTrace Step s tr) :
    EachState Q s tr ↔ EachStep C s tr := by
  refine ⟨fun h => ?_, eachState_of_inv hQ hStep hInv hTr⟩
  induction tr generalizing s with
  | nil => trivial
  | cons p tr ih =>
    have hC := hNot s p.1 p.2 hInv hTr.1 h.2.head
    exact ⟨hC, ih (hStep s p.1 p.2 hInv hTr.1 hC) hTr.2 h.2⟩

/-- **Arrival rule.** If under `Inv` a step leads to `Q` exactly from `Q` or through `P`, then a
run ends in `Q` exactly if it began there or some step met `P`. -/
theorem lastState_iff_someStep
    (hStep : ∀ s a t, Inv s → Step s a t → Inv t ∧ (Q t ↔ Q s ∨ P s a)) (hInv : Inv s) (hTr : IsTrace Step s tr) :
    Q (lastState s tr) ↔ Q s ∨ SomeStep P s tr := by
  induction tr generalizing s with
  | nil => exact ⟨Or.inl, fun h => h.resolve_right id⟩
  | cons p tr ih =>
    obtain ⟨hInv', hIff⟩ := hStep s p.1 p.2 hInv hTr.1
    have hRest := ih hInv' hTr.2
    rw [hIff, or_assoc] at hRest
    exact hRest

end Rules

end Lacuna.Lib
