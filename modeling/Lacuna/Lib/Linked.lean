import Mathlib.Data.List.Nodup
import Mathlib.Logic.Function.Basic

/-!
# Doubly linked lists

Cells are named by addresses; `prev` and `next` are the pointers stored in
them. `IsList k head l` says that the cells reached from `head` are those of
`l`, in this order, with both pointers of each as they should be.

* `IsList.next_iff_prev` — the pointers are inverse to each other;
* `IsList.unique` — the pointers determine the list;
* `IsList.walk` — a loop along `next` finds what `List.find?` finds;
* `IsList.pushFront`, `IsList.unlink` — the two ways to change a list;
* `IsList.congr` — memory outside the list does not matter.
-/

namespace Lacuna.Lib

open Function List Option

structure Links where
  prev : Nat → Option Nat
  next : Nat → Option Nat

namespace Links

def setPrev (k : Links) (p : Nat) (v : Option Nat) : Links :=
  { k with prev := Function.update k.prev p v }

def setNext (k : Links) (p : Nat) (v : Option Nat) : Links :=
  { k with next := Function.update k.next p v }

/-- `p->next = head; head->prev = p`, for a cell with both pointers NULL. -/
def pushFront (k : Links) (head : Option Nat) (p : Nat) : Links :=
  match head with
  | some q => (k.setNext p (some q)).setPrev q (some p)
  | none => k

/-- Takes `p` out of the list, and gives the new head. -/
def unlink (k : Links) (head : Option Nat) (p : Nat) : Links × Option Nat :=
  let k' :=
    match k.next p with
    | some q => k.setPrev q (k.prev p)
    | none => k
  match k'.prev p with
  | some r => (k'.setNext r (k'.next p), head)
  | none => (k', k'.next p)

/-- A loop along `next` until `found` says so; `none` when it has used up its
turns. -/
def walk (k : Links) (found : Nat → Bool) : Nat → Option Nat → Option (Option Nat)
  | 0, _ => none
  | _ + 1, none => some none
  | turns + 1, some p => if found p then some (some p) else walk k found turns (k.next p)

end Links

/-! ## Neighbours in a list -/

def nextIn : List Nat → Nat → Option Nat
  | [], _ => none
  | a :: l, x => if x = a then l.head? else nextIn l x

/-- The cell before `x`, where `before` stands in front of the list. -/
def prevIn : Option Nat → List Nat → Nat → Option Nat
  | _, [], _ => none
  | before, a :: l, x => if x = a then before else prevIn (some a) l x

structure IsList (k : Links) (head : Option Nat) (l : List Nat) : Prop where
  nodup : l.Nodup
  head_eq : head = l.head?
  next_eq : ∀ p ∈ l, k.next p = nextIn l p
  prev_eq : ∀ p ∈ l, k.prev p = prevIn none l p

section Neighbours

variable {l : List Nat} {before : Option Nat} {p x y : Nat}

theorem nextIn_mem (h : nextIn l x = some y) : y ∈ l := by
  induction l with
  | nil => cases h
  | cons a l ih =>
    rw [nextIn] at h
    split at h
    · exact mem_cons_of_mem a (List.mem_of_mem_head? h)
    · exact mem_cons_of_mem a (ih h)

theorem nextIn_of_not_mem (h : x ∉ l) : nextIn l x = none := by
  induction l with
  | nil => rfl
  | cons a l ih =>
    obtain ⟨hNe, hNot⟩ := not_or.mp (mt List.mem_cons.mpr h)
    rw [nextIn, if_neg hNe, ih hNot]

theorem prevIn_eq_some_iff (hNodup : l.Nodup) : prevIn before l y = some x ↔
      before = some x ∧ l.head? = some y ∨ nextIn l x = some y := by
  induction l generalizing before with
  | nil => simp [prevIn, nextIn]
  | cons a l ih =>
    obtain ⟨hNot, hNodup⟩ := List.nodup_cons.mp hNodup
    have hRest := @ih (some a) hNodup
    rw [prevIn, nextIn, List.head?_cons]
    by_cases hy : y = a
    · subst hy
      rw [if_pos rfl]
      constructor
      · exact fun h => .inl ⟨h, rfl⟩
      · rintro (h | h)
        · exact h.1
        · split at h
          · exact absurd (List.mem_of_mem_head? h) hNot
          · exact absurd (nextIn_mem h) hNot
    · rw [if_neg hy, hRest]
      by_cases hx : x = a
      · subst hx
        rw [if_pos rfl]
        constructor
        · rintro (h | h)
          · exact .inr h.2
          · rw [nextIn_of_not_mem hNot] at h
            cases h
        · rintro (h | h)
          · exact absurd (some.inj h.2).symm hy
          · exact .inl ⟨rfl, h⟩
      · rw [if_neg hx]
        constructor
        · rintro (h | h)
          · exact absurd (some.inj h.1).symm hx
          · exact .inr h
        · rintro (h | h)
          · exact absurd (some.inj h.2).symm hy
          · exact .inr h

theorem prevIn_some_ne_none (h : x ∈ l) : prevIn (some y) l x ≠ none := by
  induction l generalizing y with
  | nil => cases h
  | cons a l ih =>
    rw [prevIn]
    split
    · exact some_ne_none y
    · rename_i hNe
      exact ih ((List.mem_cons.mp h).resolve_left hNe)

theorem head?_erase (h : l.head? ≠ some p) : (l.erase p).head? = l.head? := by
  cases l with
  | nil => rfl
  | cons a l =>
    have hNe : a ≠ p := fun hEq => h (congrArg some hEq)
    rw [erase_cons_tail (by simpa using hNe), List.head?_cons, List.head?_cons]

theorem nextIn_erase (hNodup : l.Nodup) (hNe : x ≠ p) :
    nextIn (l.erase p) x = if nextIn l x = some p then nextIn l p else nextIn l x := by
  induction l with
  | nil => rfl
  | cons a l ih =>
    obtain ⟨hNot, hNodup⟩ := List.nodup_cons.mp hNodup
    by_cases ha : a = p
    · subst ha
      have hOut : ¬ nextIn l x = some a := fun h => hNot (nextIn_mem h)
      rw [erase_cons_head, nextIn, if_neg hNe, if_neg hOut]
    · rw [erase_cons_tail (by simpa using ha)]
      simp only [nextIn, if_neg (Ne.symm ha)]
      by_cases hx : x = a
      · -- the cell in front of the rest
        rw [if_pos hx, if_pos hx]
        by_cases hHead : l.head? = some p
        · obtain ⟨l', rfl⟩ : ∃ l', l = p :: l' := List.head?_eq_some_iff.mp hHead
          rw [if_pos hHead, erase_cons_head, nextIn, if_pos rfl]
        · rw [if_neg hHead, head?_erase hHead]
      · rw [if_neg hx, if_neg hx, ih hNodup]

theorem prevIn_erase (hNodup : l.Nodup) (hNe : x ≠ p) (hBefore : before ≠ some p) :
    prevIn before (l.erase p) x =
      if prevIn before l x = some p then prevIn before l p else prevIn before l x := by
  induction l generalizing before with
  | nil => rfl
  | cons a l ih =>
    obtain ⟨hNot, hNodup⟩ := List.nodup_cons.mp hNodup
    by_cases ha : a = p
    · subst ha
      rw [erase_cons_head]
      simp only [prevIn, if_neg hNe, if_true]
      -- only the cell right behind `a` is affected
      cases l with
      | nil => rfl
      | cons b l =>
        have hb : some b ≠ some a := fun hEq => hNot (some.inj hEq ▸ mem_cons_self)
        simp only [prevIn]
        by_cases hx : x = b
        · simp [hx]
        · have hOut : ¬ prevIn (some b) l x = some a := by
            rw [prevIn_eq_some_iff (List.nodup_cons.mp hNodup).2]
            rintro (h | h)
            · exact hb h.1
            · rw [nextIn_of_not_mem fun hMem => hNot (mem_cons_of_mem b hMem)] at h
              cases h
          simp [hx, hOut]
    · rw [erase_cons_tail (by simpa using ha)]
      simp only [prevIn, if_neg (Ne.symm ha)]
      by_cases hx : x = a
      · rw [if_pos hx, if_pos hx, if_neg hBefore]
      · rw [if_neg hx, if_neg hx]
        exact ih hNodup fun hEq => ha (some.inj hEq)

end Neighbours

/-! ## Lists in memory -/

section IsList

variable {k k' : Links} {head : Option Nat} {l : List Nat} {p q : Nat}

variable {turns : Nat}

theorem IsList.congr (h : IsList k head l) (hNext : ∀ x ∈ l, k'.next x = k.next x)
    (hPrev : ∀ x ∈ l, k'.prev x = k.prev x) : IsList k' head l where
  nodup := h.nodup
  head_eq := h.head_eq
  next_eq x hx := (hNext x hx).trans (h.next_eq x hx)
  prev_eq x hx := (hPrev x hx).trans (h.prev_eq x hx)

theorem IsList.next_iff_prev (h : IsList k head l) (hp : p ∈ l) (hq : q ∈ l) :
    k.next p = some q ↔ k.prev q = some p := by
  rw [h.next_eq p hp, h.prev_eq q hq, prevIn_eq_some_iff h.nodup]
  exact ⟨Or.inr, fun hOr => hOr.resolve_left fun hHead => nomatch hHead.1⟩

theorem IsList.prev_none_iff (h : IsList k head l) (hp : p ∈ l) :
    k.prev p = none ↔ head = some p := by
  rw [h.prev_eq p hp, h.head_eq]
  cases l with
  | nil => cases hp
  | cons a l =>
    rw [prevIn, List.head?_cons]
    by_cases hEq : p = a
    · rw [if_pos hEq, hEq]
      exact iff_of_true rfl rfl
    · rw [if_neg hEq]
      refine iff_of_false (prevIn_some_ne_none ((List.mem_cons.mp hp).resolve_left hEq)) ?_
      exact fun hHead => hEq (some.inj hHead).symm

theorem next_tail {a : Nat} (hNodup : (a :: l).Nodup)
    (hNext : ∀ p ∈ a :: l, k.next p = nextIn (a :: l) p) :
    k.next a = l.head? ∧ ∀ p ∈ l, k.next p = nextIn l p := by
  constructor
  · rw [hNext a mem_cons_self, nextIn, if_pos rfl]
  · intro p hp
    have hNe : p ≠ a := fun hEq => (List.nodup_cons.mp hNodup).1 (hEq ▸ hp)
    rw [hNext p (mem_cons_of_mem a hp), nextIn, if_neg hNe]

theorem eq_of_next {l' : List Nat} (hNodup : l.Nodup) (hNodup' : l'.Nodup)
    (hHead : l.head? = l'.head?) (hNext : ∀ p ∈ l, k.next p = nextIn l p)
    (hNext' : ∀ p ∈ l', k.next p = nextIn l' p) : l = l' := by
  induction l generalizing l' with
  | nil => exact (List.head?_eq_none_iff.mp hHead.symm).symm
  | cons a l ih =>
    obtain ⟨m, rfl⟩ : ∃ m, l' = a :: m := List.head?_eq_some_iff.mp hHead.symm
    obtain ⟨hFirst, hRest⟩ := next_tail hNodup hNext
    obtain ⟨hFirst', hRest'⟩ := next_tail hNodup' hNext'
    rw [ih (List.nodup_cons.mp hNodup).2 (List.nodup_cons.mp hNodup').2
      (hFirst.symm.trans hFirst') hRest hRest']

theorem IsList.unique {l' : List Nat} (h : IsList k head l) (h' : IsList k head l') : l = l' :=
  eq_of_next h.nodup h'.nodup (h.head_eq.symm.trans h'.head_eq) h.next_eq h'.next_eq

theorem walk_eq (found : Nat → Bool) (hNodup : l.Nodup) (hNext : ∀ p ∈ l, k.next p = nextIn l p) (hTurns : l.length < turns) :
    k.walk found turns l.head? = some (l.find? found) := by
  induction l generalizing turns with
  | nil =>
    obtain ⟨turns, rfl⟩ := Nat.exists_eq_add_one.mpr hTurns
    rfl
  | cons a l ih =>
    obtain ⟨turns, rfl⟩ := Nat.exists_eq_add_one.mpr (Nat.zero_lt_of_lt hTurns)
    obtain ⟨hFirst, hRest⟩ := next_tail hNodup hNext
    rw [List.head?_cons, Links.walk, List.find?_cons, hFirst]
    cases found a with
    | true => rfl
    | false => exact ih (List.nodup_cons.mp hNodup).2 hRest (Nat.lt_of_succ_lt_succ hTurns)

/-- **Searching** along the list. -/
theorem IsList.walk (h : IsList k head l) (found : Nat → Bool)
    (hTurns : l.length < turns) : k.walk found turns head = some (l.find? found) := by
  rw [h.head_eq]
  exact walk_eq found h.nodup h.next_eq hTurns

theorem walk_add {found : Nat → Bool} {r : Option Nat} (n : Nat)
    (h : k.walk found turns head = some r) : k.walk found (turns + n) head = some r := by
  induction turns generalizing head with
  | zero => cases h
  | succ turns ih =>
    rw [Nat.add_right_comm]
    cases head with
    | none => exact h
    | some p =>
      rw [Links.walk] at h ⊢
      cases hFound : found p with
      | true =>
        rw [hFound] at h
        exact h
      | false =>
        rw [hFound] at h
        exact ih h

theorem IsList.walk_some (h : IsList k head l) {found : Nat → Bool}
    {r : Option Nat} (hWalk : k.walk found turns head = some r) : r = l.find? found := by
  have hMore := walk_add (l.length + 1) hWalk
  rw [h.walk found (by omega)] at hMore
  exact (some.inj hMore).symm

/-- **A new first cell.** -/
theorem IsList.pushFront (h : IsList k head l) (hNot : p ∉ l) (hPrev : k.prev p = none)
    (hNext : k.next p = none) : IsList (k.pushFront head p) (some p) (p :: l) := by
  have hNodup : (p :: l).Nodup := List.nodup_cons.mpr ⟨hNot, h.nodup⟩
  cases l with
  | nil =>
    obtain rfl : head = none := h.head_eq
    refine ⟨hNodup, rfl, fun x hx => ?_, fun x hx => ?_⟩
    · obtain rfl := List.mem_singleton.mp hx
      rw [nextIn, if_pos rfl]
      exact hNext
    · obtain rfl := List.mem_singleton.mp hx
      rw [prevIn, if_pos rfl]
      exact hPrev
  | cons q l =>
    obtain rfl : head = some q := h.head_eq
    have hNe : ∀ x ∈ q :: l, x ≠ p := fun x hx hEq => hNot (hEq ▸ hx)
    refine ⟨hNodup, rfl, fun x hx => ?_, fun x hx => ?_⟩
    · show update k.next p (some q) x = _
      rcases List.mem_cons.mp hx with rfl | hx
      · rw [update_self, nextIn, if_pos rfl, List.head?_cons]
      · rw [update_of_ne (hNe x hx), h.next_eq x hx, nextIn.eq_2 _ p, if_neg (hNe x hx)]
    · show update k.prev q (some p) x = _
      rcases List.mem_cons.mp hx with rfl | hx
      · rw [update_of_ne (hNe q mem_cons_self).symm, hPrev, prevIn, if_pos rfl]
      · rw [prevIn, if_neg (hNe x hx), prevIn]
        by_cases hEq : x = q
        · rw [if_pos hEq, hEq, update_self]
        · rw [update_of_ne hEq, if_neg hEq, h.prev_eq x hx, prevIn, if_neg hEq]

theorem unlink_eq (k : Links) (head : Option Nat) (p x : Nat) :
    ((k.unlink head p).1.next x = if k.prev p = some x then k.next p else k.next x) ∧
      ((k.unlink head p).1.prev x = if k.next p = some x then k.prev p else k.prev x) ∧
      (k.unlink head p).2 = if k.prev p = none then k.next p else head := by
  have hStay : ∀ q, (k.setPrev q (k.prev p)).prev p = k.prev p := by
    intro q
    by_cases hEq : p = q
    · subst hEq
      exact update_self ..
    · exact update_of_ne hEq ..
  unfold Links.unlink
  cases hNext : k.next p with
  | none =>
    cases hPrev : k.prev p with
    | none => simp [hNext, hPrev]
    | some r => simp [hNext, hPrev, Links.setNext, update_apply, eq_comm]
  | some q =>
    simp only [hStay]
    cases hPrev : k.prev p with
    | none => simp [Links.setPrev, update_apply, eq_comm, hNext]
    | some r => simp [Links.setPrev, Links.setNext, update_apply, eq_comm, hNext]

/-- **A cell taken out.** -/
theorem IsList.unlink (h : IsList k head l) (hp : p ∈ l) :
    IsList (k.unlink head p).1 (k.unlink head p).2 (l.erase p) where
  nodup := h.nodup.erase p
  head_eq := by
    rw [(unlink_eq k head p p).2.2]
    by_cases hHead : head = some p
    · rw [if_pos ((h.prev_none_iff hp).mpr hHead), h.next_eq p hp]
      obtain ⟨l', rfl⟩ : ∃ l', l = p :: l' :=
        List.head?_eq_some_iff.mp (h.head_eq.symm.trans hHead)
      rw [erase_cons_head, nextIn, if_pos rfl]
    · rw [if_neg fun hNone => hHead ((h.prev_none_iff hp).mp hNone), h.head_eq]
      exact (head?_erase fun hEq => hHead (h.head_eq.trans hEq)).symm
  next_eq x hx := by
    obtain ⟨hNe, hx⟩ := (h.nodup.mem_erase_iff).mp hx
    rw [(unlink_eq k head p x).1, nextIn_erase h.nodup hNe, ← h.next_eq x hx, ← h.next_eq p hp]
    simp only [h.next_iff_prev hx hp]
  prev_eq x hx := by
    obtain ⟨hNe, hx⟩ := (h.nodup.mem_erase_iff).mp hx
    rw [(unlink_eq k head p x).2.1, prevIn_erase h.nodup hNe (some_ne_none p).symm,
      ← h.prev_eq x hx, ← h.prev_eq p hp]
    simp only [h.next_iff_prev hp hx]

end IsList

end Lacuna.Lib
