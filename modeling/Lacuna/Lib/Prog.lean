import Mathlib.Logic.Basic

/-!
# Programs that change a state and may stop

`EStateM ε σ α` is a program over a state `σ` that returns a value, or stops
half way for a reason `ε`; either way there is a state it has left behind
(`finalState`). Two kinds of statement are made about such programs, with one rule
for each way to build them:

* `Keeps I x` — `x` keeps the invariant `I`, also when it stops;
* `Simulates π x p` — seen through the projection `π` of the state, `x` is the
  function `p`, which has no result when `x` stops.
-/

namespace Lacuna.Lib

variable {ε σ τ α β : Type}

variable {x : EStateM ε σ α} {f : α → EStateM ε σ β} {s : σ}

def finalState : EStateM.Result ε σ α → σ
  | .ok _ s => s
  | .error _ s => s

theorem finalState_get_bind (f : σ → EStateM ε σ α) (s : σ) :
    finalState ((get >>= f) s) = finalState (f s s) := rfl

theorem finalState_discard (x : EStateM ε σ α) (s : σ) :
    finalState ((do let _ ← x : EStateM ε σ Unit) s) = finalState (x s) := by
  show finalState (EStateM.bind x _ s) = _
  rw [EStateM.bind]
  cases x s <;> rfl

/-! ## Runs that return -/

theorem run_bind {t : σ} {a : α} (h : x s = .ok a t) : (x >>= f) s = f a t := by
  show EStateM.bind x f s = f a t
  rw [EStateM.bind, h]

theorem run_bind_error {t : σ} {e : ε} (h : x s = .error e t) : (x >>= f) s = .error e t := by
  show EStateM.bind x f s = .error e t
  rw [EStateM.bind, h]

theorem bind_eq_ok {u : σ} {b : β} :
    (x >>= f) s = .ok b u ↔ ∃ a t, x s = .ok a t ∧ f a t = .ok b u := by
  show EStateM.bind x f s = .ok b u ↔ _
  rw [EStateM.bind]
  cases x s with
  | ok a t => exact ⟨fun h => ⟨a, t, rfl, h⟩, fun ⟨_, _, hx, hf⟩ => by cases hx; exact hf⟩
  | error e t => exact ⟨fun h => (nomatch h), fun ⟨_, _, hx, _⟩ => (nomatch hx)⟩

/-! ## Invariants -/

def Keeps (I : σ → Prop) (x : EStateM ε σ α) : Prop :=
  ∀ s, I s → I (finalState (x s))

section Keeps

variable {I : σ → Prop} {x : EStateM ε σ α} {f : α → EStateM ε σ β}

theorem Keeps.pure (a : α) : Keeps I (Pure.pure a : EStateM ε σ α) := fun _ h => h

theorem Keeps.throw (e : ε) : Keeps I (throw e : EStateM ε σ α) := fun _ h => h

/-- What follows may rely on the value having been returned from a state with the invariant. -/
theorem Keeps.bind_of (hx : Keeps I x)
    (hf : ∀ s a t, I s → x s = .ok a t → I (finalState (f a t))) : Keeps I (x >>= f) := by
  intro s hs
  have hNext := hx s hs
  show I (finalState (EStateM.bind x f s))
  rw [EStateM.bind]
  cases hRun : x s with
  | ok a t => exact hf s a t hs hRun
  | error e t =>
    rw [hRun] at hNext
    exact hNext

theorem Keeps.after {s : σ} (hx : I (finalState (x s))) (hf : ∀ a, Keeps I (f a)) :
    I (finalState ((x >>= f) s)) := by
  show I (finalState (EStateM.bind x f s))
  rw [EStateM.bind]
  cases hRun : x s with
  | ok a t =>
    rw [hRun] at hx
    exact hf a t hx
  | error e t =>
    rw [hRun] at hx
    exact hx

theorem Keeps.bind (hx : Keeps I x) (hf : ∀ a, Keeps I (f a)) : Keeps I (x >>= f) :=
  fun s hs => Keeps.after (hx s hs) hf

theorem Keeps.discard (hx : Keeps I x) : Keeps I (do let _ ← x) :=
  Keeps.bind hx fun _ => Keeps.pure ()

theorem Keeps.get_bind {f : σ → EStateM ε σ β} (hf : ∀ s, I s → Keeps I (f s)) :
    Keeps I (get >>= f) :=
  fun s hs => hf s hs s hs

theorem Keeps.modify {f : σ → σ} (hf : ∀ s, I s → I (f s)) :
    Keeps I (modify f : EStateM ε σ Unit) :=
  fun s hs => hf s hs

theorem Keeps.modifyGet {f : σ → α × σ} (hf : ∀ s, I s → I (f s).2) :
    Keeps I (modifyGet f : EStateM ε σ α) :=
  fun s hs => hf s hs

theorem Keeps.ite {c : Prop} [Decidable c] {y : EStateM ε σ α} (hx : c → Keeps I x)
    (hy : ¬ c → Keeps I y) : Keeps I (if c then x else y) := by
  split
  · exact hx ‹c›
  · exact hy ‹¬ c›

theorem Keeps.ite_pure {c : Prop} [Decidable c] {a : α} {y : EStateM ε σ α} (hy : Keeps I y) :
    Keeps I (if c then Pure.pure a else y) :=
  Keeps.ite (fun _ => Keeps.pure a) fun _ => hy

end Keeps

/-! ## Projections -/

def outcome (π : σ → τ) : EStateM.Result ε σ α → Option (α × τ)
  | .ok a s => some (a, π s)
  | .error _ _ => none

theorem outcome_eq_some {π : σ → τ} {r : EStateM.Result ε σ α} {a : α} {b : τ} :
    outcome π r = some (a, b) ↔ ∃ s, r = .ok a s ∧ π s = b := by
  cases r with
  | ok a' s =>
    simp only [outcome, Option.some.injEq, Prod.mk.injEq, EStateM.Result.ok.injEq, and_assoc]
    exact ⟨fun h => ⟨s, h.1, rfl, h.2⟩, fun ⟨_, ha, hs, hb⟩ => ⟨ha, hs ▸ hb⟩⟩
  | error e s => simp [outcome]

def Simulates (π : σ → τ) (x : EStateM ε σ α) (p : τ → Option (α × τ)) : Prop :=
  ∀ s, outcome π (x s) = p (π s)

section Simulates

variable {π : σ → τ} {x : EStateM ε σ α} {p : τ → Option (α × τ)}

theorem Simulates.pure (a : α) :
    Simulates π (Pure.pure a : EStateM ε σ α) fun t => some (a, t) := fun _ => rfl

theorem Simulates.throw (e : ε) : Simulates π (throw e : EStateM ε σ α) fun _ => none :=
  fun _ => rfl

theorem Simulates.bind {f : α → EStateM ε σ β} {q : α → τ → Option (β × τ)}
    (hx : Simulates π x p) (hf : ∀ a, Simulates π (f a) (q a)) :
    Simulates π (x >>= f) fun t => p t >>= fun r => q r.1 r.2 := by
  intro s
  have hRun := hx s
  show outcome π (EStateM.bind x f s) = p (π s) >>= _
  rw [← hRun, EStateM.bind]
  cases x s with
  | ok a t => exact hf a t
  | error e t => rfl

/-- Where the function has a result, the program returns. -/
theorem Simulates.run_unit (hx : Simulates π x p) {s : σ} {a : α} {t : τ}
    (h : p (π s) = some (a, t)) :
    ∃ s', (x >>= fun _ => Pure.pure () : EStateM ε σ Unit) s = .ok () s' ∧ π s' = t := by
  refine outcome_eq_some.mp ((hx.bind (fun _ => .pure ()) s).trans ?_)
  dsimp only
  rw [h]
  rfl

theorem Simulates.get_bind {f : σ → EStateM ε σ β} {q : τ → τ → Option (β × τ)}
    (hf : ∀ s, Simulates π (f s) (q (π s))) : Simulates π (get >>= f) fun t => q t t :=
  fun s => hf s s

theorem Simulates.modify {f : σ → σ} {g : τ → τ} (h : ∀ s, π (f s) = g (π s)) :
    Simulates π (modify f : EStateM ε σ Unit) fun t => some ((), g t) :=
  fun s => congrArg (fun t => some ((), t)) (h s)

theorem Simulates.modifyGet {f : σ → α × σ} {g : τ → α × τ}
    (h : ∀ s, ((f s).1, π (f s).2) = g (π s)) :
    Simulates π (modifyGet f : EStateM ε σ α) fun t => some (g t) :=
  fun s => congrArg some (h s)

theorem Simulates.ite {c : Prop} [Decidable c] {y : EStateM ε σ α} {q : τ → Option (α × τ)}
    (hx : Simulates π x p) (hy : Simulates π y q) :
    Simulates π (if c then x else y) fun t => if c then p t else q t := by
  split
  · exact hx
  · exact hy

end Simulates

end Lacuna.Lib
