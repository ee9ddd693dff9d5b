import Mathlib.Logic.Function.Basic

/-!
# Tries of fixed depth

A trie of depth `n` maps words of `n` digits to values: at depth 0 it is the
value, above it a node with a place for each digit. `set` makes the nodes on
its way and leaves them there, also when it stores nothing; `remove` takes
nodes away as they become empty. Both do to the map what they should (`find_set`,
`find_remove`). Of the nodes, `Below` says that each one below the root has a child:
storing nothing keeps that exactly if the path is there already.
-/

namespace Lacuna.Lib

open Function List Option

variable {β α : Type}

def Trie (β α : Type) : Nat → Type
  | 0 => α
  | n + 1 => β → Option (Trie β α n)

namespace Trie

def leaf (a : α) : Trie β α 0 := a
def value (t : Trie β α 0) : α := t
def node {n : Nat} (next : β → Option (Trie β α n)) : Trie β α (n + 1) := next
def next {n : Nat} (t : Trie β α (n + 1)) : β → Option (Trie β α n) := t

@[simp] theorem next_node {n : Nat} (f : β → Option (Trie β α n)) : (node f).next = f := rfl

def empty (n : Nat) : Trie β α (n + 1) := node fun _ => none

def find : (n : Nat) → Trie β α n → List β → Option α
  | 0, t, _ => some t.value
  | _ + 1, _, [] => none
  | n + 1, t, b :: bs => (t.next b).bind fun child => find n child bs

section Digits

variable [DecidableEq β]

def set : (n : Nat) → Trie β α (n + 1) → List β → Option α → Trie β α (n + 1)
  | _, t, [], _ => t
  | 0, t, b :: _, v => node (Function.update t.next b (v.map leaf))
  | n + 1, t, b :: bs, v =>
    node (Function.update t.next b (some (set n ((t.next b).getD (empty n)) bs v)))

/-- Remove a word and the nodes that become empty; `none` when nothing is left. -/
def remove (digits : List β) : (n : Nat) → Trie β α n → List β → Option (Trie β α n)
  | 0, _, _ => none
  | _ + 1, t, [] => some t
  | n + 1, t, b :: bs =>
    match t.next b with
    | none => some t
    | some child =>
      match remove digits n child bs with
      | some child => some (node (Function.update t.next b (some child)))
      | none =>
        let next := Function.update t.next b none
        if digits.all fun i => (next i).isNone then none else some (node next)

end Digits

@[simp] theorem find_empty (n : Nat) (w : List β) :
    find (n + 1) (empty n : Trie β α (n + 1)) w = none := by
  cases w <;> rfl

@[simp] theorem find_cons (n : Nat) (t : Trie β α (n + 1)) (b : β) (bs : List β) :
    find (n + 1) t (b :: bs) = (t.next b).bind fun child => find n child bs := rfl

theorem find_getD (n : Nat) (child : Option (Trie β α (n + 1))) (bs : List β) :
    find (n + 1) (child.getD (empty n)) bs = child.bind fun child => find (n + 1) child bs := by
  cases child with
  | none => exact find_empty n bs
  | some child => rfl

theorem all_isNone {digits : List β} (h : ∀ b, b ∈ digits) {n : Nat} {next : β → Option (Trie β α n)} :
    (digits.all fun i => (next i).isNone) = true ↔ ∀ b, next b = none := by
  simp only [List.all_eq_true, isNone_iff_eq_none]
  exact ⟨fun hAll b => hAll b (h b), fun hAll b _ => hAll b⟩

section Digits

variable [DecidableEq β]

/-- **Storing**: the word has the new value, and the others keep theirs. -/
theorem find_set (n : Nat) (t : Trie β α (n + 1)) (v : Option α) {w w' : List β}
    (hw : w.length = n + 1) (hw' : w'.length = n + 1) :
    find (n + 1) (set n t w v) w' = if w' = w then v else find (n + 1) t w' := by
  induction n generalizing w w' with
  | zero =>
    obtain ⟨b, rfl⟩ := List.length_eq_one_iff.mp hw
    obtain ⟨b', rfl⟩ := List.length_eq_one_iff.mp hw'
    rw [find_cons, find_cons, set, next_node]
    by_cases hb : b' = b
    · subst hb
      rw [update_self, if_pos rfl]
      cases v <;> rfl
    · rw [update_of_ne hb, if_neg (by simpa using hb)]
  | succ n ih =>
    obtain ⟨b, bs, rfl⟩ := exists_cons_of_length_eq_add_one hw
    obtain ⟨b', bs', rfl⟩ := exists_cons_of_length_eq_add_one hw'
    have hbs : bs.length = n + 1 := Nat.succ.inj hw
    have hbs' : bs'.length = n + 1 := Nat.succ.inj hw'
    rw [find_cons, find_cons, set, next_node]
    by_cases hb : b' = b
    · subst hb
      rw [update_self, bind_some, ih _ hbs hbs', find_getD]
      simp only [List.cons.injEq, true_and]
    · rw [update_of_ne hb, if_neg fun h => hb (List.cons.inj h).1]

theorem set_set (n : Nat) (t : Trie β α (n + 1)) (w : List β) (v v' : Option α) :
    set n (set n t w v) w v' = set n t w v' := by
  induction n generalizing w with
  | zero =>
    cases w with
    | nil => rfl
    | cons b bs => simp only [set, next_node, update_idem]
  | succ n ih =>
    cases w with
    | nil => rfl
    | cons b bs =>
      simp only [set, next_node, update_self, getD_some, ih, update_idem]

variable {digits : List β}

/-- **Removing**: the word is gone, and the others keep their values. -/
theorem find_remove (h : ∀ b, b ∈ digits) (n : Nat) (t : Trie β α n) {w w' : List β}
    (hw : w.length = n) (hw' : w'.length = n) :
    (remove digits n t w).bind (fun t => find n t w') = if w' = w then none else find n t w' := by
  induction n generalizing w w' with
  | zero =>
    obtain rfl := List.length_eq_zero_iff.mp hw
    obtain rfl := List.length_eq_zero_iff.mp hw'
    rfl
  | succ n ih =>
    obtain ⟨b, bs, rfl⟩ := exists_cons_of_length_eq_add_one hw
    obtain ⟨b', bs', rfl⟩ := exists_cons_of_length_eq_add_one hw'
    have hbs : bs.length = n := Nat.succ.inj hw
    have hbs' : bs'.length = n := Nat.succ.inj hw'
    rw [find_cons]
    cases hChild : t.next b with
    | none =>
      -- nothing there: the trie stays as it is
      simp only [remove, hChild, bind_some, find_cons]
      by_cases hSame : b' :: bs' = b :: bs
      · rw [if_pos hSame, (List.cons.inj hSame).1, hChild, bind_none]
      · rw [if_neg hSame]
    | some child =>
      have hSub := ih child hbs hbs'
      cases hRest : remove digits n child bs with
      | some rest =>
        rw [hRest, bind_some] at hSub
        simp only [remove, hChild, hRest, bind_some, find_cons, next_node]
        by_cases hb : b' = b
        · subst hb
          rw [update_self, bind_some, hSub, hChild, bind_some]
          simp only [List.cons.injEq, true_and]
        · rw [update_of_ne hb, if_neg fun hEq => hb (List.cons.inj hEq).1]
      | none =>
        rw [hRest, bind_none] at hSub
        have hUpdated : (update t.next b none b').bind (fun c => find n c bs') =
            if b' :: bs' = b :: bs then none else (t.next b').bind fun c => find n c bs' := by
          by_cases hb : b' = b
          · subst hb
            rw [update_self, bind_none, hChild, bind_some]
            by_cases hbs'' : bs' = bs
            · rw [if_pos (by rw [hbs''])]
            · rw [if_neg fun hEq => hbs'' (List.cons.inj hEq).2]
              rw [if_neg hbs''] at hSub
              exact hSub
          · rw [update_of_ne hb, if_neg fun hEq => hb (List.cons.inj hEq).1]
        simp only [remove, hChild, hRest]
        split
        · rename_i hAll
          rw [bind_none, ← hUpdated, (all_isNone h).mp hAll b', bind_none]
        · rw [bind_some, find_cons, next_node, hUpdated]

theorem find_remove_getD (h : ∀ b, b ∈ digits) (n : Nat) (t : Trie β α (n + 1)) {w w' : List β}
    (hw : w.length = n + 1) (hw' : w'.length = n + 1) :
    find (n + 1) ((remove digits (n + 1) t w).getD (empty n)) w' =
      if w' = w then none else find (n + 1) t w' := by
  rw [find_getD]
  exact find_remove h (n + 1) t hw hw'

end Digits

/-! ## Nodes without children -/

def HasPath : (n : Nat) → Trie β α (n + 1) → List β → Prop
  | _, _, [] => True
  | 0, _, _ :: _ => True
  | n + 1, t, b :: bs => ∃ child, t.next b = some child ∧ HasPath n child bs

def Pruned : (n : Nat) → Trie β α n → Prop
  | 0, _ => True
  | n + 1, t => (∃ b child, t.next b = some child) ∧ ∀ b child, t.next b = some child → Pruned n child

/-- Every node has a child, except perhaps the root. -/
def Below (n : Nat) (t : Trie β α (n + 1)) : Prop :=
  ∀ b child, t.next b = some child → Pruned n child

theorem below_empty (n : Nat) : Below n (empty n : Trie β α (n + 1)) := by
  intro b child h
  cases h

theorem below_getD {n : Nat} {child : Option (Trie β α (n + 1))}
    (h : ∀ c, child = some c → Pruned (n + 1) c) : Below n (child.getD (empty n)) := by
  cases child with
  | none => exact below_empty n
  | some c => exact (h c rfl).2

section Digits

variable [DecidableEq β]

variable {w : List β}

theorem set_none_eq_iff (n : Nat) (t : Trie β α (n + 1)) (hw : w.length = n + 1)
    (hFree : find (n + 1) t w = none) : set n t w none = t ↔ HasPath n t w := by
  induction n generalizing w with
  | zero =>
    obtain ⟨b, rfl⟩ := List.length_eq_one_iff.mp hw
    refine ⟨fun _ => trivial, fun _ => ?_⟩
    have hNone : t.next b = none := by
      cases hNext : t.next b with
      | none => rfl
      | some child =>
        rw [find_cons, hNext] at hFree
        cases hFree
    show node (update t.next b none) = t
    rw [← hNone, update_eq_self]
    rfl
  | succ n ih =>
    obtain ⟨b, bs, rfl⟩ := exists_cons_of_length_eq_add_one hw
    have hbs : bs.length = n + 1 := Nat.succ.inj hw
    have hSet : set (n + 1) t (b :: bs) none = t ↔
        t.next b = some (set n ((t.next b).getD (empty n)) bs none) := by
      constructor
      · intro h
        have hAt := congrFun (congrArg next h) b
        rw [set, next_node, update_self] at hAt
        exact hAt.symm
      · intro h
        rw [set, ← h, update_eq_self]
        rfl
    rw [hSet]
    cases hNext : t.next b with
    | none =>
      refine ⟨fun h => (some_ne_none _ h.symm).elim, ?_⟩
      rintro ⟨child, hChild, _⟩
      rw [hNext] at hChild
      cases hChild
    | some child =>
      rw [find_cons, hNext, bind_some] at hFree
      rw [getD_some, Option.some.injEq, eq_comm, ih child hbs hFree]
      constructor
      · intro h
        exact ⟨child, hNext, h⟩
      · rintro ⟨child', hChild', h⟩
        rw [hNext] at hChild'
        rwa [some.inj hChild']

omit [DecidableEq β] in
theorem hasPath_of_find (n : Nat) {t : Trie β α (n + 1)} (hw : w.length = n + 1)
    (h : (find (n + 1) t w).isSome) : HasPath n t w := by
  induction n generalizing w with
  | zero =>
    obtain ⟨b, rfl⟩ := List.length_eq_one_iff.mp hw
    trivial
  | succ n ih =>
    obtain ⟨b, bs, rfl⟩ := exists_cons_of_length_eq_add_one hw
    cases hNext : t.next b with
    | none =>
      rw [find_cons, hNext] at h
      cases h
    | some child =>
      rw [find_cons, hNext, bind_some] at h
      exact ⟨child, hNext, ih (Nat.succ.inj hw) h⟩

theorem pruned_set (n : Nat) {t : Trie β α (n + 1)} (h : Below n t)
    (hw : w.length = n + 1) (v : α) : Pruned (n + 1) (set n t w (some v)) := by
  induction n generalizing w with
  | zero =>
    obtain ⟨b, rfl⟩ := List.length_eq_one_iff.mp hw
    refine ⟨⟨b, leaf v, update_self ..⟩, fun _ _ _ => trivial⟩
  | succ n ih =>
    obtain ⟨b, bs, rfl⟩ := exists_cons_of_length_eq_add_one hw
    have hBelow : Below n ((t.next b).getD (empty n)) := below_getD fun c hc => h b c hc
    refine ⟨⟨b, _, update_self ..⟩, ?_⟩
    intro b' child hChild
    rw [set, next_node] at hChild
    by_cases hb : b' = b
    · subst hb
      rw [update_self] at hChild
      rw [← some.inj hChild]
      exact ih hBelow (Nat.succ.inj hw)
    · rw [update_of_ne hb] at hChild
      exact h b' child hChild

theorem not_pruned_set_empty (n : Nat) (hw : w.length = n + 1) :
    ¬ Pruned (n + 1) (set n (empty n : Trie β α (n + 1)) w none) := by
  induction n generalizing w with
  | zero =>
    obtain ⟨b, rfl⟩ := List.length_eq_one_iff.mp hw
    rintro ⟨⟨b', child, hChild⟩, _⟩
    rw [set, next_node] at hChild
    by_cases hb : b' = b
    · subst hb
      rw [update_self] at hChild
      cases hChild
    · rw [update_of_ne hb] at hChild
      cases hChild
  | succ n ih =>
    obtain ⟨b, bs, rfl⟩ := exists_cons_of_length_eq_add_one hw
    rintro ⟨_, hBelow⟩
    exact ih (Nat.succ.inj hw) (hBelow b _ (update_self ..))

theorem hasPath_of_below_set (n : Nat) {t : Trie β α (n + 1)} (hw : w.length = n + 1)
    (h : Below n (set n t w none)) : HasPath n t w := by
  induction n generalizing w with
  | zero =>
    obtain ⟨b, rfl⟩ := List.length_eq_one_iff.mp hw
    trivial
  | succ n ih =>
    obtain ⟨b, bs, rfl⟩ := exists_cons_of_length_eq_add_one hw
    have hbs : bs.length = n + 1 := Nat.succ.inj hw
    have hChild := h b _ (update_self ..)
    cases hNext : t.next b with
    | none =>
      rw [hNext, getD_none] at hChild
      exact absurd hChild (not_pruned_set_empty n hbs)
    | some child =>
      rw [hNext, getD_some] at hChild
      exact ⟨child, hNext, ih hbs hChild.2⟩

variable {digits : List β}

theorem below_remove_of_children (h : ∀ b, b ∈ digits) {n : Nat}
    (hSub : ∀ {c c' : Trie β α n} {bs}, Pruned n c → remove digits n c bs = some c' → Pruned n c')
    {t t' : Trie β α (n + 1)} (hBelow : Below n t)
    (hRemove : remove digits (n + 1) t w = some t') :
    Below n t' ∧ ((∃ b child, t.next b = some child) → ∃ b child, t'.next b = some child) := by
  cases w with
  | nil =>
    obtain rfl : t = t' := some.inj hRemove
    exact ⟨hBelow, id⟩
  | cons b bs =>
    cases hNext : t.next b with
    | none =>
      simp only [remove, hNext] at hRemove
      obtain rfl : t = t' := some.inj hRemove
      exact ⟨hBelow, id⟩
    | some child =>
      cases hRest : remove digits n child bs with
      | some rest =>
        simp only [remove, hNext, hRest] at hRemove
        rw [← some.inj hRemove]
        refine ⟨?_, fun _ => ⟨b, rest, update_self ..⟩⟩
        intro b' child' hChild
        rw [next_node] at hChild
        by_cases hb : b' = b
        · subst hb
          rw [update_self] at hChild
          rw [← some.inj hChild]
          exact hSub (hBelow b' child hNext) hRest
        · rw [update_of_ne hb] at hChild
          exact hBelow b' child' hChild
      | none =>
        simp only [remove, hNext, hRest] at hRemove
        split at hRemove
        · cases hRemove
        · rename_i hSome
          rw [← some.inj hRemove]
          refine ⟨?_, fun _ => ?_⟩
          · intro b' child' hChild
            rw [next_node] at hChild
            by_cases hb : b' = b
            · subst hb
              rw [update_self] at hChild
              cases hChild
            · rw [update_of_ne hb] at hChild
              exact hBelow b' child' hChild
          · by_contra hNone
            refine hSome ((all_isNone h).mpr fun b' => ?_)
            by_contra hChild
            obtain ⟨c, hc⟩ := Option.ne_none_iff_exists'.mp hChild
            exact hNone ⟨b', c, hc⟩

theorem pruned_remove (h : ∀ b, b ∈ digits) (n : Nat) {t t' : Trie β α n}
    (hPruned : Pruned n t) (hRemove : remove digits n t w = some t') : Pruned n t' := by
  induction n generalizing w with
  | zero => trivial
  | succ n ih =>
    obtain ⟨hBelow, hChild⟩ := below_remove_of_children h ih hPruned.2 hRemove
    exact ⟨hChild hPruned.1, hBelow⟩

theorem below_remove (h : ∀ b, b ∈ digits) (n : Nat) {t : Trie β α (n + 1)} (w : List β)
    (hBelow : Below n t) : Below n ((remove digits (n + 1) t w).getD (empty n)) := by
  cases hRemove : remove digits (n + 1) t w with
  | none => exact below_empty n
  | some t' => exact (below_remove_of_children h (pruned_remove h n) hBelow hRemove).1

end Digits

end Trie

end Lacuna.Lib
