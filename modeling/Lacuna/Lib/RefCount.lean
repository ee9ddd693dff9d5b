import Mathlib.Data.List.Count
import Mathlib.Data.List.Perm.Basic
import Mathlib.Logic.Function.Basic

/-!
# Reference counts

Objects are counted in a table; their holders enter only as the list of their
pointer fields, in any order.

`Exact T ptrs` says that the table counts the pointers: the count of every live
object is the number of pointers to it, and the live objects are those that have
one. `Exact.alloc`, `Exact.get`, `Exact.put` and `Exact.perm` keep it. Where
references and pointers change independently, `Exact.iff_excess` says that the table
stays exact precisely if no object's excess of count over pointers changes.
-/

namespace Lacuna.Lib

open Function List

structure Counted where
  count : Int
  live : Bool
  deriving DecidableEq

abbrev RefTable (κ : Type) : Type := κ → Counted

variable {κ : Type} [DecidableEq κ]

namespace RefTable

def alloc (T : RefTable κ) (c : κ) : RefTable κ :=
  Function.update T c { count := 1, live := true }

def get (T : RefTable κ) (c : κ) : Bool × RefTable κ :=
  if (T c).count = 0 then (false, T)
  else (true, Function.update T c { count := (T c).count + 1, live := (T c).live })

def put (T : RefTable κ) : Option κ → RefTable κ
  | none => T
  | some c =>
    Function.update T c
      (if (T c).count = 1 then { count := 0, live := false }
        else { count := (T c).count - 1, live := (T c).live })

def putAll (T : RefTable κ) (ptrs : List (Option κ)) : RefTable κ :=
  ptrs.foldl put T

variable (T : RefTable κ)

@[simp] theorem put_none : T.put none = T := rfl

@[simp] theorem putAll_nil : T.putAll [] = T := rfl

@[simp] theorem putAll_cons (p : Option κ) (ptrs : List (Option κ)) :
    T.putAll (p :: ptrs) = (T.put p).putAll ptrs := rfl

theorem get_snd_of_ne {c k : κ} (h : k ≠ c) : (T.get c).2 k = T k := by
  unfold get
  split
  · rfl
  · exact update_of_ne h _ _

theorem get_of_pos {c : κ} (h : 0 < (T c).count) : T.get c =
      (true, update T c { count := (T c).count + 1, live := (T c).live }) := by
  rw [get, if_neg (by omega)]

theorem put_some_of_ne {c k : κ} (h : k ≠ c) : T.put (some c) k = T k := by
  simp only [put, update_of_ne h]

theorem live_of_put {p : Option κ} {c : κ} (h : (T.put p c).live = true) :
    (T c).live = true ∧ (T.put p c).count = (T c).count - if p = some c then 1 else 0 := by
  cases p with
  | none => simpa using h
  | some d =>
    by_cases hc : c = d
    · subst hc
      simp only [put, update_self] at h ⊢
      split at h
      · cases h
      · rename_i hOne
        exact ⟨h, by simp [hOne]⟩
    · rw [put_some_of_ne T hc] at h ⊢
      simp [h, Ne.symm hc]

theorem live_of_putAll {ptrs : List (Option κ)} {c : κ} (h : (T.putAll ptrs c).live = true) :
    (T.putAll ptrs c).count = (T c).count - (ptrs.count (some c) : Int) := by
  induction ptrs generalizing T with
  | nil => simp
  | cons p ptrs ih =>
    rw [putAll_cons] at h ⊢
    have hRest := ih (T.put p) h
    -- a later `put` cannot revive the object
    have hLive : (T.put p c).live = true := by
      clear hRest ih
      generalize T.put p = U at h
      induction ptrs generalizing U with
      | nil => exact h
      | cons q ptrs ih => exact (live_of_put U (ih (U.put q) h)).1
    rw [hRest, (live_of_put T hLive).2, count_cons]
    by_cases hp : p = some c
    · simp [hp]
      omega
    · simp [hp]

end RefTable

/-! ## Exact tables -/

structure Exact (T : RefTable κ) (ptrs : List (Option κ)) : Prop where
  count_eq : ∀ c, (T c).live = true → (T c).count = ptrs.count (some c)
  live_iff : ∀ c, (T c).live = true ↔ 0 < ptrs.count (some c)

namespace Exact

variable {T T' : RefTable κ} {ptrs ptrs' : List (Option κ)}

theorem perm (h : Exact T ptrs) (hPerm : ptrs.Perm ptrs') : Exact T ptrs' where
  count_eq := fun c hLive => by rw [h.count_eq c hLive, hPerm.count_eq]
  live_iff := fun c => by rw [h.live_iff c, hPerm.count_eq]

theorem perm_iff (hPerm : ptrs.Perm ptrs') : Exact T ptrs ↔ Exact T ptrs' :=
  ⟨fun h => h.perm hPerm, fun h => h.perm hPerm.symm⟩

theorem none_cons_iff : Exact T (none :: ptrs) ↔ Exact T ptrs := by
  constructor
  · intro h
    exact ⟨by simpa using h.count_eq, by simpa using h.live_iff⟩
  · intro h
    exact ⟨by simpa using h.count_eq, by simpa using h.live_iff⟩

theorem live (h : Exact T ptrs) {c : κ} (hMem : some c ∈ ptrs) :
    (T c).live = true ∧ 0 < (T c).count := by
  have hPos : 0 < ptrs.count (some c) := List.count_pos_iff.mpr hMem
  have hLive := (h.live_iff c).mpr hPos
  refine ⟨hLive, ?_⟩
  rw [h.count_eq c hLive]
  omega

theorem count_dead (h : Exact T ptrs) {c : κ} (hDead : (T c).live = false) :
    ptrs.count (some c) = 0 := by
  by_contra hNe
  have hLive := (h.live_iff c).mpr (Nat.pos_of_ne_zero hNe)
  rw [hDead] at hLive
  cases hLive

theorem alloc (h : Exact T ptrs) {c : κ} (hDead : (T c).live = false) :
    Exact (T.alloc c) (some c :: ptrs) := by
  have hZero := h.count_dead hDead
  constructor
  · intro k hLive
    by_cases hk : k = c
    · subst hk
      simp [RefTable.alloc, hZero]
    · simp only [RefTable.alloc, update_of_ne hk] at hLive ⊢
      simpa [count_cons, Ne.symm hk] using h.count_eq k hLive
  · intro k
    by_cases hk : k = c
    · subst hk
      simp [RefTable.alloc]
    · simpa [RefTable.alloc, update_of_ne hk, count_cons, Ne.symm hk] using h.live_iff k

theorem get (h : Exact T ptrs) {c : κ} (hLive : (T c).live = true) :
    (T.get c).1 = true ∧ Exact (T.get c).2 (some c :: ptrs) := by
  have hPos : 0 < (T c).count := by
    rw [h.count_eq c hLive]
    exact_mod_cast (h.live_iff c).mp hLive
  rw [RefTable.get_of_pos T hPos]
  refine ⟨rfl, ?_, ?_⟩
  · intro k hk
    by_cases hc : k = c
    · subst hc
      simp [h.count_eq k hLive]
    · simp only [update_of_ne hc] at hk ⊢
      simpa [count_cons, Ne.symm hc] using h.count_eq k hk
  · intro k
    by_cases hc : k = c
    · subst hc
      simp [hLive]
    · simpa [update_of_ne hc, count_cons, Ne.symm hc] using h.live_iff k

theorem put {p : Option κ} (h : Exact T (p :: ptrs)) : Exact (T.put p) ptrs := by
  cases p with
  | none => exact none_cons_iff.mp h
  | some c =>
    obtain ⟨hLive, -⟩ := h.live mem_cons_self
    have hCount := h.count_eq c hLive
    rw [count_cons_self] at hCount
    constructor
    · intro k hk
      by_cases hc : k = c
      · subst hc
        rw [(RefTable.live_of_put T hk).2, hCount]
        simp
      · rw [RefTable.put_some_of_ne T hc] at hk ⊢
        simpa [count_cons, Ne.symm hc] using h.count_eq k hk
    · intro k
      by_cases hc : k = c
      · subst hc
        simp only [RefTable.put, update_self]
        split
        · simp only [Bool.false_eq_true, false_iff]
          omega
        · simp only [hLive, true_iff]
          omega
      · rw [RefTable.put_some_of_ne T hc]
        simpa [count_cons, Ne.symm hc] using h.live_iff k

theorem putAll {gone : List (Option κ)} (h : Exact T (gone ++ ptrs)) :
    Exact (T.putAll gone) ptrs := by
  induction gone generalizing T with
  | nil => exact h
  | cons p gone ih => exact ih h.put

theorem putAll_iff {kept : List (Option κ)} (h : Exact T ptrs) (hKept : kept ⊆ ptrs) :
    Exact (T.putAll kept) ptrs ↔ ∀ p ∈ kept, p = none := by
  constructor
  · intro hAfter p hp
    cases p with
    | none => rfl
    | some c =>
      exfalso
      have hIn : some c ∈ ptrs := hKept hp
      -- the object is still pointed to, so it is live, so its count went down
      have hLive := (hAfter.live hIn).1
      have hCount := hAfter.count_eq c hLive
      rw [RefTable.live_of_putAll T hLive, h.count_eq c (h.live hIn).1] at hCount
      have hPos : 0 < kept.count (some c) := List.count_pos_iff.mpr hp
      omega
  · intro hNone
    have hSame : T.putAll kept = T := by
      clear hKept
      induction kept with
      | nil => rfl
      | cons p kept ih =>
        rw [RefTable.putAll_cons, hNone p mem_cons_self, RefTable.put_none]
        exact ih fun q hq => hNone q (mem_cons_of_mem p hq)
    rw [hSame]
    exact h

end Exact

/-! ## References taken and pointers stored independently -/

def excess (T : RefTable κ) (ptrs : List (Option κ)) (c : κ) : Int :=
  (T c).count - (ptrs.count (some c) : Int)

def pointsTo (p : Option κ) (c : κ) : Int := if p = some c then 1 else 0

@[simp] theorem pointsTo_none (c : κ) : pointsTo none c = 0 := if_neg (by simp)

@[simp] theorem pointsTo_self (c : κ) : pointsTo (some c) c = 1 := if_pos rfl

theorem pointsTo_nonneg (p : Option κ) (c : κ) : 0 ≤ pointsTo p c := by
  unfold pointsTo
  split <;> decide

theorem pointsTo_of_ne {d c : κ} (h : d ≠ c) : pointsTo (some d) c = 0 :=
  if_neg (by simpa using h)

theorem pointsTo_eq_zero_iff {p : Option κ} : (∀ c, pointsTo p c = 0) ↔ p = none := by
  constructor
  · intro hZero
    cases p with
    | none => rfl
    | some d => simpa using hZero d
  · rintro rfl c
    exact pointsTo_none c

theorem count_cons_some (p : Option κ) (ptrs : List (Option κ)) (c : κ) :
    ((p :: ptrs).count (some c) : Int) = ptrs.count (some c) + pointsTo p c := by
  by_cases hp : p = some c
  · simp [pointsTo, hp]
  · simp [pointsTo, hp]

theorem count_some_eq_zero_iff {ptrs : List (Option κ)} :
    (∀ c, ptrs.count (some c) = 0) ↔ ∀ p ∈ ptrs, p = none := by
  simp only [count_eq_zero]
  constructor
  · intro hNot p hp
    cases p with
    | none => rfl
    | some c => exact absurd hp (hNot c)
  · intro hNone c hc
    cases hNone _ hc

@[simp] theorem excess_nil (T : RefTable κ) (c : κ) : excess T [] c = (T c).count := by
  simp [excess]

@[simp] theorem excess_cons (T : RefTable κ) (p : Option κ) (ptrs : List (Option κ)) (c : κ) :
    excess T (p :: ptrs) c = excess T ptrs c - pointsTo p c := by
  rw [excess, excess, count_cons_some]
  omega

theorem excess_append (T : RefTable κ) (ptrs ptrs' : List (Option κ)) (c : κ) :
    excess T (ptrs ++ ptrs') c = excess T ptrs c - (ptrs'.count (some c) : Int) := by
  simp only [excess, count_append]
  omega

theorem excess_perm (T : RefTable κ) {ptrs ptrs' : List (Option κ)} (h : ptrs.Perm ptrs')
    (c : κ) : excess T ptrs c = excess T ptrs' c := by
  rw [excess, excess, h.count_eq]

/-- References of live objects have been taken, and nothing else. -/
def GetsOnly (T T' : RefTable κ) : Prop :=
  ∀ c, (T' c).live = (T c).live ∧ (T c).count ≤ (T' c).count ∧
    ((T c).live = false → (T' c).count = (T c).count)

omit [DecidableEq κ] in
theorem GetsOnly.refl (T : RefTable κ) : GetsOnly T T :=
  fun _ => ⟨rfl, Int.le_refl _, fun _ => rfl⟩

omit [DecidableEq κ] in
theorem GetsOnly.trans {T T' T'' : RefTable κ} (h : GetsOnly T T') (h' : GetsOnly T' T'') :
    GetsOnly T T'' := by
  intro c
  obtain ⟨hLive, hLe, hDead⟩ := h c
  obtain ⟨hLive', hLe', hDead'⟩ := h' c
  refine ⟨hLive'.trans hLive, Int.le_trans hLe hLe', fun hc => ?_⟩
  rw [hDead' (hLive.trans hc), hDead hc]

theorem GetsOnly.get {T : RefTable κ} {c : κ} (hLive : (T c).live = true) :
    GetsOnly T (T.get c).2 := by
  intro k
  by_cases hk : k = c
  · subst hk
    unfold RefTable.get
    split
    · exact GetsOnly.refl T k
    · dsimp only
      rw [update_self]
      exact ⟨rfl, Int.le_add_one (Int.le_refl _), fun hDead => Bool.noConfusion (hLive.symm.trans hDead)⟩
  · rw [RefTable.get_snd_of_ne T hk]
    exact GetsOnly.refl T k

/-- The table stays exact precisely if references taken and pointers stored match for every
object. -/
theorem Exact.iff_excess {T T' : RefTable κ} {ptrs ptrs' : List (Option κ)}
    (h : Exact T ptrs) (hGets : GetsOnly T T') :
    Exact T' ptrs' ↔ ∀ c, excess T' ptrs' c = excess T ptrs c := by
  constructor
  · intro hAfter c
    obtain ⟨hSame, -, hCount⟩ := hGets c
    cases hLive : (T c).live with
    | true =>
      rw [hLive] at hSame
      simp only [excess, h.count_eq c hLive, hAfter.count_eq c hSame, Int.sub_self]
    | false =>
      rw [hLive] at hSame
      simp only [excess, hCount hLive, h.count_dead hLive, hAfter.count_dead hSame]
  · intro hExcess
    refine ⟨fun c hLive => ?_, fun c => ?_⟩
    · obtain ⟨hSame, -, -⟩ := hGets c
      have hEq := hExcess c
      simp only [excess, h.count_eq c (hSame ▸ hLive)] at hEq
      omega
    · obtain ⟨hSame, hLe, hCount⟩ := hGets c
      have hEq := hExcess c
      simp only [excess] at hEq
      rw [hSame]
      cases hLive : (T c).live with
      | true =>
        have hOld := h.count_eq c hLive
        have hPos := (h.live_iff c).mp hLive
        simp only [true_iff]
        omega
      | false =>
        have hOld := h.count_dead hLive
        have hNew := hCount hLive
        simp only [Bool.false_eq_true, false_iff]
        omega

theorem Exact.iff_excess_frame {T T' : RefTable κ} {part part' rest : List (Option κ)}
    (h : Exact T (part ++ rest)) (hGets : GetsOnly T T') :
    Exact T' (part' ++ rest) ↔ ∀ c, excess T' part' c = excess T part c := by
  rw [h.iff_excess hGets]
  refine forall_congr' fun c => ?_
  rw [excess_append, excess_append]
  omega

def Gettable (T : RefTable κ) (p : Option κ) : Prop :=
  ∀ c, p = some c → (T c).live = true ∧ 0 < (T c).count

omit [DecidableEq κ] in
theorem Gettable.mono {T T' : RefTable κ} {p : Option κ} (h : Gettable T p)
    (hGets : GetsOnly T T') : Gettable T' p := by
  intro c hc
  obtain ⟨hLive, hPos⟩ := h c hc
  obtain ⟨hSame, hLe, -⟩ := hGets c
  exact ⟨hSame.trans hLive, Int.lt_of_lt_of_le hPos hLe⟩

theorem Exact.gettable {T : RefTable κ} {ptrs : List (Option κ)} (h : Exact T ptrs)
    {p : Option κ} (hMem : p ∈ ptrs) : Gettable T p := by
  rintro c rfl
  exact h.live hMem

end Lacuna.Lib
