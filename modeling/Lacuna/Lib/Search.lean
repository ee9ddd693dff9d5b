import Mathlib.Data.List.Infix

/-!
# Searching for a word from the left

`occurrences w xs` is the number of times that the word `w` is found in `xs`,
going from the left and each time on behind what was found.

* `occurrences_pos_iff` — something is found exactly if the word is in the text.
* `occurrences_dropLast` — for a word that begins with a letter which does not
  come again in it, the last letter of the text matters exactly if the word
  stands at the end of the text.
-/

namespace Lacuna.Lib

open List

variable {α : Type*} [DecidableEq α]

def occurrences (w : List α) : List α → Nat
  | [] => 0
  | x :: xs =>
    if w <+: x :: xs then occurrences w (xs.drop (w.length - 1)) + 1 else occurrences w xs
termination_by xs => xs.length
decreasing_by
  · rw [List.length_drop, List.length_cons]
    omega
  · exact Nat.lt_succ_self _

variable {w xs : List α} {a x : α}

@[simp] theorem occurrences_nil (w : List α) : occurrences w [] = 0 := by
  rw [occurrences]

theorem occurrences_cons_of_not (h : ¬ w <+: x :: xs) :
    occurrences w (x :: xs) = occurrences w xs := by
  rw [occurrences, if_neg h]

theorem occurrences_append (a : α) (w xs : List α) :
    occurrences (a :: w) (a :: w ++ xs) = occurrences (a :: w) xs + 1 := by
  rw [cons_append, occurrences, if_pos ⟨xs, rfl⟩]
  rw [length_cons, Nat.add_sub_cancel, drop_left]

theorem search_induction {a : α} {w : List α} {P : List α → Prop} (hNil : P [])
    (hWord : ∀ xs, P xs → P (a :: w ++ xs))
    (hLetter : ∀ x xs, ¬ (a :: w) <+: x :: xs → P xs → P (x :: xs)) (xs : List α) : P xs := by
  induction hLen : xs.length using Nat.strongRecOn generalizing xs with
  | ind n ih =>
    subst hLen
    cases xs with
    | nil => exact hNil
    | cons x xs =>
      by_cases hPrefix : (a :: w) <+: x :: xs
      · obtain ⟨ys, hEq⟩ := hPrefix
        rw [← hEq]
        refine hWord ys (ih ys.length ?_ ys rfl)
        rw [← hEq, length_append, length_cons]
        omega
      · exact hLetter x xs hPrefix (ih xs.length (Nat.lt_succ_self _) xs rfl)

theorem occurrences_pos_iff : 0 < occurrences (a :: w) xs ↔ (a :: w) <:+: xs := by
  induction xs using @search_induction α _ a w with
  | hNil => simp
  | hWord xs _ =>
    rw [occurrences_append]
    exact ⟨fun _ => ⟨[], xs, rfl⟩, fun _ => Nat.succ_pos _⟩
  | hLetter x xs hNot ih =>
    rw [occurrences_cons_of_not hNot, ih, infix_cons_iff]
    exact ⟨Or.inr, fun h => h.resolve_left hNot⟩

theorem occurrences_of_notMem (h : a ∉ xs) : occurrences (a :: w) xs = 0 := by
  refine Nat.eq_zero_of_not_pos fun hPos => h ?_
  exact (occurrences_pos_iff.mp hPos).subset mem_cons_self

theorem occurrences_mul_le (a : α) (w xs : List α) :
    occurrences (a :: w) xs * (w.length + 1) ≤ xs.length := by
  induction xs using @search_induction α _ a w with
  | hNil => simp
  | hWord xs ih =>
    rw [occurrences_append, Nat.add_mul, length_append, length_cons]
    omega
  | hLetter x xs hNot ih =>
    rw [occurrences_cons_of_not hNot, length_cons]
    omega

theorem occurrences_of_length_lt (h : xs.length < w.length + 1) : occurrences (a :: w) xs = 0 := by
  have hLe := occurrences_mul_le a w xs
  rcases Nat.eq_zero_or_pos (occurrences (a :: w) xs) with hZero | hPos
  · exact hZero
  · have hMul := Nat.mul_le_mul_right (w.length + 1) hPos
    omega

omit [DecidableEq α] in
theorem suffix_word_append_iff (ha : a ∉ w) (hNe : xs ≠ []) :
    (a :: w) <:+ (a :: w ++ xs) ↔ (a :: w) <:+ xs := by
  refine ⟨fun h => ?_, fun h => h.trans (suffix_append _ _)⟩
  obtain ⟨pre, hPre⟩ := h
  rcases List.append_eq_append_iff.mp hPre with ⟨t, hStart, hEnd⟩ | ⟨t, -, hEnd⟩
  · -- both words have `t` in common
    cases t with
    | nil => exact ⟨[], hEnd⟩
    | cons y t =>
      obtain ⟨rfl, -⟩ := List.cons.inj hEnd
      cases pre with
      | nil =>
        rw [nil_append] at hStart
        rw [← hStart, self_eq_append_right] at hEnd
        exact absurd hEnd hNe
      | cons z pre =>
        obtain ⟨-, hIn⟩ := List.cons.inj hStart
        rw [hIn] at ha
        exact absurd (mem_append_right pre mem_cons_self) ha
  · exact ⟨t, hEnd.symm⟩

/-- **The last letter of the text.** -/
theorem occurrences_dropLast (ha : a ∉ w) (xs : List α) : occurrences (a :: w) xs =
      occurrences (a :: w) xs.dropLast + if (a :: w) <:+ xs then 1 else 0 := by
  induction xs using @search_induction α _ a w with
  | hNil => simp
  | hWord xs ih =>
    by_cases hNe : xs = []
    · subst hNe
      rw [append_nil, if_pos (suffix_refl _)]
      have hShort : (a :: w).dropLast.length < w.length + 1 := by
        rw [length_dropLast, length_cons]
        omega
      have hOne := occurrences_append a w []
      rw [append_nil, occurrences_nil] at hOne
      rw [hOne, occurrences_of_length_lt hShort]
    · rw [dropLast_append_of_ne_nil hNe, occurrences_append, occurrences_append, ih,
        if_congr (suffix_word_append_iff ha hNe) rfl rfl]
      omega
  | hLetter x xs hNot ih =>
    have hSuffix : (a :: w) <:+ x :: xs ↔ (a :: w) <:+ xs := by
      rw [suffix_cons_iff]
      exact ⟨fun h => h.resolve_left fun hEq => hNot (hEq ▸ prefix_refl _), Or.inr⟩
    rw [occurrences_cons_of_not hNot, if_congr hSuffix rfl rfl, ih]
    by_cases hNe : xs = []
    · subst hNe
      rfl
    · have hNot' : ¬ (a :: w) <+: x :: xs.dropLast := fun h =>
        hNot (h.trans (prefix_cons_inj x |>.mpr <| dropLast_prefix xs))
      rw [dropLast_cons_of_ne_nil hNe, occurrences_cons_of_not hNot']

end Lacuna.Lib
