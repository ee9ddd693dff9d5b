import Mathlib.Tactic.ByContra

/-!
# Fair runs

An infinite run of a system of labelled steps. A label is treated with strong
fairness if it is taken again and again, provided it can be taken again and
again. `Run.eventually` is the rule for what a fair label brings about.
-/

namespace Lacuna.Lib

variable {σ ℓ : Type*} {exec : ℓ → σ → Option σ} {init : σ}

structure Run (exec : ℓ → σ → Option σ) (init : σ) where
  state : Nat → σ
  label : Nat → ℓ
  start : state 0 = init
  next : ∀ n, exec (label n) (state n) = some (state (n + 1))

namespace Run

variable {n : Nat}

def StronglyFair (run : Run exec init) (l : ℓ) : Prop :=
  (∀ n, ∃ m ≥ n, (exec l (run.state m)).isSome) → ∀ n, ∃ m ≥ n, run.label m = l

theorem inv {Inv : σ → Prop} (hInit : Inv init)
    (hStep : ∀ {l s t}, Inv s → exec l s = some t → Inv t) (run : Run exec init) (n : Nat) :
    Inv (run.state n) := by
  induction n with
  | zero =>
    rw [run.start]
    exact hInit
  | succ n ih => exact hStep ih (run.next n)

theorem keep {P : σ → Prop} (run : Run exec init)
    (hStep : ∀ m ≥ n, P (run.state m) → P (run.state (m + 1))) (hn : P (run.state n)) :
    ∀ m ≥ n, P (run.state m) := by
  intro m hm
  obtain ⟨k, rfl⟩ := Nat.exists_eq_add_of_le hm
  clear hm
  induction k with
  | zero => exact hn
  | succ k ih => exact hStep (n + k) (Nat.le_add_right n k) ih

/-- As long as `Q` is not reached, `P` is kept, the rank does not rise and falls with every step
of the fair label, which can be taken again and again. -/
theorem eventually (run : Run exec init) (P Q : σ → Prop) (rank : σ → Nat) {l : ℓ}
    (hFair : run.StronglyFair l)
    (hKept : ∀ n, P (run.state n) → ¬ Q (run.state (n + 1)) →
      P (run.state (n + 1)) ∧ rank (run.state (n + 1)) ≤ rank (run.state n))
    (hStep : ∀ n, P (run.state n) → run.label n = l → ¬ Q (run.state (n + 1)) →
      rank (run.state (n + 1)) < rank (run.state n))
    (hEnabled : ∀ n, (∀ m ≥ n, P (run.state m)) → ∃ m ≥ n, (exec l (run.state m)).isSome) (hn : P (run.state n)) : ∃ m ≥ n, Q (run.state m) := by
  by_contra hNever
  have hNot (m : Nat) (hm : m ≥ n) : ¬ Q (run.state m) := fun hQ => hNever ⟨m, hm, hQ⟩
  have hKeep := run.keep (P := P) (n := n) (fun m hm h => (hKept m h (hNot (m + 1) (by omega))).1) hn
  have hOften : ∀ k, ∃ m ≥ k, run.label m = l := by
    refine hFair fun k => ?_
    obtain ⟨m, hm, hSome⟩ := hEnabled (max n k) fun m hm => hKeep m (by omega)
    exact ⟨m, by omega, hSome⟩
  -- the rank would fall for ever
  suffices hFall : ∀ r, ∀ m ≥ n, rank (run.state m) = r → False from hFall _ n (Nat.le_refl n) rfl
  intro r
  induction r using Nat.strongRecOn with
  | ind r ih =>
    intro m hm hr
    obtain ⟨k, hk, hLabel⟩ := hOften m
    have hLe : rank (run.state k) ≤ r := by
      refine run.keep (P := fun s => rank s ≤ r) (n := m) (fun j hj h => ?_) (by omega) k hk
      exact Nat.le_trans (hKept j (hKeep j (by omega)) (hNot (j + 1) (by omega))).2 h
    have hLt := hStep k (hKeep k (by omega)) hLabel (hNot (k + 1) (by omega))
    exact ih _ (by omega) (k + 1) (by omega) rfl

theorem stronglyFair_of_none {l : ℓ} (run : Run exec init)
    (h : ∀ m ≥ n, exec l (run.state m) = none) : run.StronglyFair l := by
  intro hOften
  obtain ⟨m, hm, hSome⟩ := hOften n
  rw [h m hm] at hSome
  cases hSome

/-! ### Finite runs -/

/-- The states when the labels are taken in turn, and `idle` from then on. -/
def states (exec : ℓ → σ → Option σ) (init : σ) (idle : ℓ) (ls : List ℓ) : Nat → σ
  | 0 => init
  | n + 1 => (exec (ls.getD n idle) (states exec init idle ls n)).getD (states exec init idle ls n)

/-- A finite run, continued by `idle`, which changes nothing. -/
def ofLabels (idle : ℓ) (hIdle : ∀ s, exec idle s = some s) (ls : List ℓ)
    (h : ∀ n < ls.length, (exec (ls.getD n idle) (states exec init idle ls n)).isSome) :
    Run exec init where
  state := states exec init idle ls
  label n := ls.getD n idle
  start := rfl
  next n := by
    have hSome : (exec (ls.getD n idle) (states exec init idle ls n)).isSome := by
      by_cases hn : n < ls.length
      · exact h n hn
      · rw [List.getD_eq_getElem?_getD, List.getElem?_eq_none (Nat.le_of_not_lt hn),
          Option.getD_none, hIdle]
        rfl
    obtain ⟨t, ht⟩ := Option.isSome_iff_exists.mp hSome
    rw [states, ht]
    rfl

theorem ofLabels_state {idle : ℓ} {hIdle : ∀ s, exec idle s = some s} {ls : List ℓ}
    {h : ∀ n < ls.length, (exec (ls.getD n idle) (states exec init idle ls n)).isSome}
    (hn : n ≥ ls.length) :
    (ofLabels idle hIdle ls h).state n = states exec init idle ls ls.length := by
  obtain ⟨k, rfl⟩ := Nat.exists_eq_add_of_le hn
  clear hn
  induction k with
  | zero => rfl
  | succ k ih =>
    rw [← ih]
    show states exec init idle ls (ls.length + k + 1) = states exec init idle ls (ls.length + k)
    rw [states, List.getD_eq_getElem?_getD, List.getElem?_eq_none (Nat.le_add_right _ k),
      Option.getD_none, hIdle]
    rfl

end Run

end Lacuna.Lib
