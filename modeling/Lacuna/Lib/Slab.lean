import Mathlib.Data.List.Nodup
import Mathlib.Logic.Function.Basic

/-!
# Allocations that are freed at most once

A pool of objects. Each allocation has a name of its own, which is not given out
again, so that `frees` counts for each object how often it has been freed. In a
`Sound` pool every object is live and has not been freed, or has been freed at
most once.
-/

namespace Lacuna.Lib

open Function

structure Slab where
  live : List Nat
  frees : Nat → Nat

namespace Slab

def alloc (s : Slab) (a : Nat) : Slab := { s with live := a :: s.live }

def free (s : Slab) (a : Nat) : Slab where
  live := s.live.erase a
  frees := Function.update s.frees a (s.frees a + 1)

def Fresh (s : Slab) (a : Nat) : Prop := a ∉ s.live ∧ s.frees a = 0

structure Sound (s : Slab) : Prop where
  nodup : s.live.Nodup
  unfreed : ∀ a ∈ s.live, s.frees a = 0
  once : ∀ a, s.frees a ≤ 1

variable {s : Slab} {a : Nat}

theorem Sound.alloc (h : s.Sound) (hFresh : s.Fresh a) : (s.alloc a).Sound where
  nodup := List.nodup_cons.mpr ⟨hFresh.1, h.nodup⟩
  unfreed b hb := by
    rcases List.mem_cons.mp hb with rfl | hb
    · exact hFresh.2
    · exact h.unfreed b hb
  once := h.once

theorem Sound.free (h : s.Sound) (ha : a ∈ s.live) : (s.free a).Sound where
  nodup := h.nodup.erase a
  unfreed b hb := by
    obtain ⟨hNe, hb⟩ := h.nodup.mem_erase_iff.mp hb
    exact (update_of_ne hNe _ _).trans (h.unfreed b hb)
  once b := by
    by_cases hb : b = a
    · subst hb
      simp only [Slab.free, update_self, h.unfreed b ha, Nat.zero_add, Nat.le_refl]
    · exact Nat.le_trans (Nat.le_of_eq (update_of_ne hb _ _)) (h.once b)

theorem frees_free_free (s : Slab) (a : Nat) : ((s.free a).free a).frees a = s.frees a + 2 := by
  simp only [Slab.free, update_self]

end Slab

section Count

variable {β : Type*} {l : List Nat} {a : Nat} (mem : Nat → β)

theorem countP_update_of_not_mem (p : β → Bool) (ha : a ∉ l) (v : β) :
    l.countP (fun b => p (update mem a v b)) = l.countP fun b => p (mem b) := by
  refine List.countP_congr fun b hb => ?_
  have hNe : b ≠ a := fun hEq => ha (hEq ▸ hb)
  rw [update_of_ne hNe]

theorem countP_cons_update (p : β → Bool) (ha : a ∉ l) (v : β) :
    (a :: l).countP (fun b => p (update mem a v b)) =
      (l.countP fun b => p (mem b)) + if p v then 1 else 0 := by
  rw [List.countP_cons, countP_update_of_not_mem mem p ha, update_self]

theorem countP_erase_update (p : β → Bool) (hl : l.Nodup) (ha : a ∈ l) (v : β) :
    (l.countP fun b => p (mem b)) =
      (l.erase a).countP (fun b => p (update mem a v b)) + if p (mem a) then 1 else 0 := by
  rw [countP_update_of_not_mem mem p hl.not_mem_erase, (List.perm_cons_erase ha).countP_eq,
    List.countP_cons]

end Count

end Lacuna.Lib
