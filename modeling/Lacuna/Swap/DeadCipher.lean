import Lacuna.Swap.Release

/-!
# Private swap — the cipher of a dead context

`priv_ctx_put` releases the cipher of a context whose last holder goes, and sets
`ctx->cipher` to NULL. Entries that its cleanup leaves in the tree still name the
context. `priv_decrypt_page` looks at `mapcount` first and passes over such an entry;
`priv_encrypt_page` does not look, and goes through the NULL pointer if the entry
still has its page and its scratch page (`ArmedFor`).
-/

namespace Lacuna.Swap

open Lacuna.Lib Function Option

variable {Data : Type}

/-! ## Uses of a cipher -/

/-- The context whose cipher `priv_encrypt_page` uses for the page. -/
def encryptsUnder (st : Privos Data) (page : Nat) : Option Nat := do
  let swpd ← findPrivPage st (st.pagePrivate page)
  let scratch ← swpd.scratch
  if swpd.page = some page ∧ st.pagePrivate scratch = st.pagePrivate page then some swpd.ctx
  else none

/-- The context whose cipher `priv_decrypt_page` uses for the page. -/
def decryptsUnder (st : Privos Data) (page : Nat) : Option Nat := do
  let swpd ← findPrivPage st (st.pagePrivate page)
  let k ← st.ctxs swpd.ctx
  if k.mapcount = 0 then none else some swpd.ctx

section Uses

variable {st : Privos Data} {ctx page : Nat}

end Uses

/-! ## Later runs -/

inductive CipherOp where
  | encrypt (page : Nat)
  | decrypt (page : Nat)
  /-- an entry is deleted -/
  | delete (e : Nat)
  /-- anything else: pages that enter and leave the swap cache, entries of other
  contexts, swapped bits, `delete_scratch_page` -/
  | other
  deriving DecidableEq

/-- `swpd'` is the entry `swpd` later: with the same page and scratch page, or
without a page. -/
def KeepsPage (s t : Privos Data) (swpd swpd' : PrivSwappedPage) : Prop :=
  swpd'.page = none ∨ swpd'.page = swpd.page ∧ swpd'.scratch = swpd.scratch ∧
    ∀ sc, swpd.scratch = some sc → t.pagePrivate sc = s.pagePrivate sc

/-- Every entry of `ctx` in `t` was one in `s` and has the page and the scratch page
it had, if it has a page; and `ctx` has no holder if it had none. -/
structure Disarms (ctx : Nat) (s t : Privos Data) : Prop where
  entry : ∀ e swpd', t.tree e = some swpd' → swpd'.ctx = ctx →
    ∃ swpd, s.tree e = some swpd ∧ swpd.ctx = ctx ∧ KeepsPage s t swpd swpd'
  dead : (∀ k, s.ctxs ctx = some k → k.mapcount = 0) → ∀ k, t.ctxs ctx = some k → k.mapcount = 0

section Step

variable (enc dec : Nat → Data → Data) (ctx : Nat)

def CipherStep (s : Privos Data) : CipherOp → Privos Data → Prop
  | .encrypt page, t => ∃ written, privEncryptPage enc s page = some (written, t)
  | .decrypt page, t => t = privDecryptPage dec s page
  | .delete e, t => t = deleteFromPriv (setSwappedBit s e 0) e
  | .other, t => Disarms ctx s t

def SparesCipher (s : Privos Data) : CipherOp → Prop
  | .encrypt page => encryptsUnder s page ≠ some ctx
  | .decrypt page => decryptsUnder s page ≠ some ctx
  | _ => True

/-- **The cipher of a dead context is never used** in any later run. -/
def DeadCipherSpared (s : SwapTree Data) : Prop :=
  (privCtxPut ctx s).1 = false →
    ∀ tr : Trace (Privos Data) CipherOp,
      IsTrace (CipherStep enc dec ctx) (privCtxPut ctx s).2.priv tr →
        EachStep (SparesCipher ctx) (privCtxPut ctx s).2.priv tr

end Step

/-- An entry of the context through which a page can be encrypted. -/
def ArmedFor (ctx : Nat) (st : Privos Data) : Prop :=
  ∃ e swpd page scratch, st.tree e = some swpd ∧ swpd.ctx = ctx ∧ swpd.page = some page ∧
    swpd.scratch = some scratch ∧ st.pagePrivate scratch = e

/-! ## Nothing arms an entry -/

section Disarm

variable {ctx : Nat} {s t : Privos Data}

theorem Disarms.trans {u : Privos Data} (h : Disarms ctx s t) (h' : Disarms ctx t u) :
    Disarms ctx s u where
  entry e swpd'' hu hCtx := by
    obtain ⟨swpd', ht, hCtx', hNone' | ⟨hPage', hSc', hPriv'⟩⟩ := h'.entry e swpd'' hu hCtx
    · obtain ⟨swpd, hs, hCtx'', -⟩ := h.entry e swpd' ht hCtx'
      exact ⟨swpd, hs, hCtx'', .inl hNone'⟩
    · obtain ⟨swpd, hs, hCtx'', hNone | ⟨hPage, hSc, hPriv⟩⟩ := h.entry e swpd' ht hCtx'
      · exact ⟨swpd, hs, hCtx'', .inl (hPage'.trans hNone)⟩
      · refine ⟨swpd, hs, hCtx'', .inr ⟨hPage'.trans hPage, hSc'.trans hSc, fun sc h => ?_⟩⟩
        rw [hPriv' sc (hSc.trans h), hPriv sc h]
  dead hDead := h'.dead (h.dead hDead)

theorem disarms_of_same (hPriv : t.pagePrivate = s.pagePrivate) (hCtxs : t.ctxs = s.ctxs)
    (hTree : ∀ e swpd', t.tree e = some swpd' → ∃ swpd, s.tree e = some swpd ∧
      swpd'.ctx = swpd.ctx ∧ swpd'.page = swpd.page ∧ swpd'.scratch = swpd.scratch) :
    Disarms ctx s t where
  entry e swpd' h hCtx := by
    obtain ⟨swpd, hs, hSame, hPage, hSc⟩ := hTree e swpd' h
    exact ⟨swpd, hs, hSame.symm.trans hCtx, .inr ⟨hPage, hSc, fun sc _ => by rw [hPriv]⟩⟩
  dead hDead := by
    rw [hCtxs]
    exact hDead

theorem disarms_setSwappedBit (ctx : Nat) (s : Privos Data) (entry val : Nat) :
    Disarms ctx s (setSwappedBit s entry val) := by
  refine disarms_of_same rfl rfl fun e swpd' h => ?_
  by_cases he : e = entry
  · subst he
    have h' : (findPrivPage s e).map (fun swpd => { swpd with flags := val }) = some swpd' :=
      (update_self e _ s.tree).symm.trans h
    obtain ⟨swpd, hs, rfl⟩ := Option.map_eq_some_iff.mp h'
    exact ⟨swpd, hs, rfl, rfl, rfl⟩
  · exact ⟨swpd', (update_of_ne he _ _).symm.trans h, rfl, rfl, rfl⟩

theorem disarms_deleteFromPriv (ctx : Nat) (s : Privos Data) (entry : Nat) :
    Disarms ctx s (deleteFromPriv s entry) := by
  have hRefl : Disarms ctx s s :=
    disarms_of_same rfl rfl fun _ swpd h => ⟨swpd, h, rfl, rfl, rfl⟩
  unfold deleteFromPriv
  split
  · split
    · rename_i swpd hTree
      refine ⟨fun e swpd' h hCtx => ?_, fun hDead k hk => ?_⟩
      · by_cases he : e = entry
        · subst he
          cases (update_self ..).symm.trans h
        · refine ⟨swpd', (update_of_ne he _ _).symm.trans h, hCtx, .inr ⟨rfl, rfl, ?_⟩⟩
          exact fun _ _ => rfl
      · by_cases hEq : ctx = swpd.ctx
        · subst hEq
          have hPut : ((s.ctxs swpd.ctx).bind fun k =>
              if k.mapcount = 0 ∧ k.pagecount - 1 = 0 then none
              else some { k with pagecount := k.pagecount - 1 }) = some k :=
            (update_self swpd.ctx _ s.ctxs).symm.trans hk
          obtain ⟨k', hk', hIf⟩ := Option.bind_eq_some_iff.mp hPut
          split at hIf
          · cases hIf
          · cases hIf
            exact hDead k' hk'
        · exact hDead k ((update_of_ne hEq _ _).symm.trans hk)
    · exact hRefl
  · exact hRefl

/-- **One later step** arms no entry. -/
theorem CipherStep.disarms {enc dec : Nat → Data → Data} {op : CipherOp}
    (hStep : CipherStep enc dec ctx s op t) : Disarms ctx s t := by
  have hMem : ∀ mem : Nat → Data, Disarms ctx s { s with mem := mem } := fun mem =>
    disarms_of_same rfl rfl fun _ swpd h => ⟨swpd, h, rfl, rfl, rfl⟩
  have hDelete : ∀ e, Disarms ctx s (deleteFromPriv (setSwappedBit s e 0) e) := fun e =>
    (disarms_setSwappedBit ctx s e 0).trans (disarms_deleteFromPriv ctx _ e)
  cases op with
  | other => exact hStep
  | delete e =>
    obtain rfl : t = _ := hStep
    exact hDelete e
  | decrypt page =>
    obtain rfl : t = _ := hStep
    unfold privDecryptPage
    split
    · exact hMem s.mem
    · split
      · exact hMem s.mem
      · split
        · exact hMem s.mem
        · exact hMem _
  | encrypt page =>
    obtain ⟨written, hEnc⟩ := hStep
    unfold privEncryptPage at hEnc
    dsimp only at hEnc
    split at hEnc
    · cases hEnc
      exact hMem s.mem
    · split at hEnc
      · cases hEnc
        exact hDelete _
      · split at hEnc
        · cases hEnc
          exact hDelete _
        · split at hEnc
          · cases hEnc
          · cases hEnc
            exact (hMem _).trans (disarms_setSwappedBit ctx _ _ 1)

theorem Disarms.armedFor (h : Disarms ctx s t) (hArmed : ArmedFor ctx t) : ArmedFor ctx s := by
  obtain ⟨e, swpd', page, sc, ht, hCtx, hPage, hSc, hPriv⟩ := hArmed
  obtain ⟨swpd, hs, hCtx', hNone | ⟨hPage', hSc', hPriv'⟩⟩ := h.entry e swpd' ht hCtx
  · cases hNone.symm.trans hPage
  · have hScratch := hSc'.symm.trans hSc
    exact ⟨e, swpd, page, sc, hs, hCtx', hPage'.symm.trans hPage, hScratch,
      (hPriv' sc hScratch).symm.trans hPriv⟩

end Disarm

/-! ## What the cleanup leaves armed -/

section Put

variable {ctx : Nat} {p : Int} {s : SwapTree Data}

theorem pagePrivate_visit (held : Nat) (s : SwapTree Data) (e : Nat) :
    (visit held s e).2.priv.pagePrivate = s.priv.pagePrivate := by
  have hClear : (clearIfSwapped s e).priv.pagePrivate = s.priv.pagePrivate := by
    unfold clearIfSwapped
    split <;> rfl
  unfold visit
  split
  · rfl
  · split
    · rw [← hClear]
      unfold swapcacheFree
      dsimp only
      split
      · rfl
      · split
        · unfold releaseEntry
          split
          · rfl
          · exact pagePrivate_deleteFromPriv _ e
        · rfl
    · exact hClear

theorem pagePrivate_visitAll (held : Nat) (l : List Nat) (s : SwapTree Data) :
    (visitAll held l s).2.priv.pagePrivate = s.priv.pagePrivate := by
  induction l generalizing s with
  | nil => rfl
  | cons e l ih =>
    have hVisit := pagePrivate_visit held s e
    unfold visitAll
    split
    · rename_i t hEq
      rw [hEq] at hVisit
      exact hVisit
    · rename_i t hEq
      rw [hEq] at hVisit
      exact (ih t).trans hVisit

theorem pagePrivate_privCtxPut (hLast : s.priv.ctxs ctx = some ⟨1, p⟩) :
    (privCtxPut ctx s).2.priv.pagePrivate = s.priv.pagePrivate := by
  have hVisits := pagePrivate_visitAll ctx (List.range s.top) (s.setCtx ctx (some ⟨0, p⟩))
  simp only [privCtxPut, hLast, if_true, deleteAllFromPriv_eq]
  rw [show (s.setCtx ctx (some ⟨0, p⟩)).top = s.top from rfl]
  rcases hAll : visitAll ctx (List.range s.top) (s.setCtx ctx (some ⟨0, p⟩)) with ⟨hung, u⟩
  rw [hAll] at hVisits
  cases hung <;> exact hVisits

theorem cleaned_fst (e : Nat) (swpd : PrivSwappedPage) (m : SwapCount) :
    (cleaned e swpd m).1 = none ∨ (cleaned e swpd m).1 = some { swpd with flags := 0 } := by
  unfold cleaned
  split
  · split
    · exact .inl rfl
    · exact .inr rfl
  · exact .inr rfl

theorem tree_privCtxPut (hLast : s.priv.ctxs ctx = some ⟨1, p⟩) {e : Nat} {swpd' : PrivSwappedPage}
    (h : (privCtxPut ctx s).2.priv.tree e = some swpd') :
    ∃ swpd, s.priv.tree e = some swpd ∧ swpd'.ctx = swpd.ctx ∧ swpd'.page = swpd.page ∧
      swpd'.scratch = swpd.scratch := by
  have hCtx : (s.setCtx ctx (some ⟨0, p⟩)).priv.ctxs ctx = some ⟨0, p⟩ := update_self ..
  rw [(privCtxPut_last hLast).1] at h
  cases hTree : s.priv.tree e with
  | none =>
    rw [deleteAllFromPriv_eq] at h
    have hVisits : visitAll ctx (List.range s.top) (s.setCtx ctx (some ⟨0, p⟩)) = (_, _) :=
      Prod.mk.eta.symm
    have hGone := visitAll_absent hVisits (show _ = none from hTree)
    cases hGone.symm.trans h
  | some swpd =>
    have hAt := congrArg Prod.fst
      (deleteAllFromPriv_at hCtx (show (s.setCtx ctx _).priv.tree e = some swpd from hTree))
    rw [show Prod.fst _ = some swpd' from h] at hAt
    split at hAt
    · rcases cleaned_fst e swpd ((s.setCtx ctx (some ⟨0, p⟩)).swapMap e) with hNone | hSome
      · cases hAt.trans hNone
      · cases hAt.trans hSome
        exact ⟨swpd, rfl, rfl, rfl, rfl⟩
    · cases hAt
      exact ⟨swpd', rfl, rfl, rfl, rfl⟩

/-- Armed entries are left whose slot is not held by the swap cache alone. -/
theorem armedFor_privCtxPut_iff (hLast : s.priv.ctxs ctx = some ⟨1, p⟩)
    (hReturns : (privCtxPut ctx s).1 = false) :
    ArmedFor ctx (privCtxPut ctx s).2.priv ↔ ∃ e swpd page scratch, s.priv.tree e = some swpd ∧
      swpd.ctx = ctx ∧ swpd.page = some page ∧ swpd.scratch = some scratch ∧
      s.priv.pagePrivate scratch = e ∧ (e = 0 ∨ s.swapMap e ≠ ⟨0, true⟩) := by
  obtain ⟨-, -, hEntries, -⟩ := privCtxPut_left hLast (Prod.ext hReturns rfl)
  have hPriv := pagePrivate_privCtxPut hLast
  have hSurvives : ∀ e swpd, s.priv.tree e = some swpd → swpd.ctx = ctx → swpd.page.isSome →
      (entryOf ctx (privCtxPut ctx s).2 e = true ↔ e = 0 ∨ s.swapMap e ≠ ⟨0, true⟩) := by
    intro e swpd hTree hCtx hPage
    rw [hEntries, survives, entryOf, releases, hTree]
    simp only [any_some, hCtx, hPage, beq_self_eq_true, Bool.true_and, Bool.not_eq_true',
      Bool.and_eq_false_iff, bne_eq_false_iff_eq, beq_eq_false_iff_ne]
  constructor
  · rintro ⟨e, swpd', page, sc, hTree, hCtx, hPage, hSc, hKey⟩
    obtain ⟨swpd, hs, hCtx', hPage', hSc'⟩ := tree_privCtxPut hLast hTree
    have hEntry := entryOf_eq_true.mpr ⟨swpd', hTree, hCtx⟩
    have hSome := hPage'.symm.trans hPage
    refine ⟨e, swpd, page, sc, hs, hCtx'.symm.trans hCtx, hSome, hSc'.symm.trans hSc,
      hPriv ▸ hKey, ?_⟩
    exact (hSurvives e swpd hs (hCtx'.symm.trans hCtx) (by rw [hSome]; rfl)).mp hEntry
  · rintro ⟨e, swpd, page, sc, hs, hCtx, hPage, hSc, hKey, hSlot⟩
    have hEntry := (hSurvives e swpd hs hCtx (by rw [hPage]; rfl)).mpr hSlot
    obtain ⟨swpd', hTree, hCtx'⟩ := entryOf_eq_true.mp hEntry
    obtain ⟨swpd₀, hs', -, hPage', hSc'⟩ := tree_privCtxPut hLast hTree
    obtain rfl : swpd = swpd₀ := some.inj (hs.symm.trans hs')
    exact ⟨e, swpd', page, sc, hTree, hCtx', hPage'.trans hPage, hSc'.trans hSc, hPriv.symm ▸ hKey⟩

end Put

/-! ## The cipher -/

section Cipher

variable {enc dec : Nat → Data → Data} {ctx : Nat} {p : Int}

variable {st : Privos Data}

theorem armedFor_of_encryptsUnder {page : Nat}
    (h : encryptsUnder st page = some ctx) : ArmedFor ctx st := by
  simp only [encryptsUnder, bind_eq_bind, bind_eq_some_iff] at h
  obtain ⟨swpd, hTree, sc, hSc, hIf⟩ := h
  split at hIf
  · rename_i hCond
    exact ⟨_, swpd, page, sc, hTree, some.inj hIf, hCond.1, hSc, hCond.2⟩
  · cases hIf

theorem privEncryptPage_of_use (enc : Nat → Data → Data) {page : Nat}
    (h : encryptsUnder st page = some ctx) :
    ∃ written t, privEncryptPage enc st page = some (written, t) := by
  simp only [encryptsUnder, bind_eq_bind, bind_eq_some_iff] at h
  obtain ⟨swpd, hTree, sc, hSc, hIf⟩ := h
  split at hIf
  · rename_i hCond
    simp only [privEncryptPage, hTree, hCond.1, hSc, hCond.2, ne_eq, not_true_eq_false, if_false]
    exact ⟨_, _, rfl⟩
  · cases hIf

def PagesApart (ctx : Nat) (st : Privos Data) : Prop :=
  ∀ e swpd page e' swpd', st.tree e = some swpd → swpd.ctx = ctx → swpd.page = some page →
    st.tree e' = some swpd' → swpd'.ctx = ctx → swpd'.scratch ≠ some page

/-- Its page is in the swap cache under it, or read back into the same frame. -/
theorem exists_use_of_armedFor (enc dec : Nat → Data → Data) (hApart : PagesApart ctx st)
    (h : ArmedFor ctx st) :
    ∃ tr : Trace (Privos Data) CipherOp, IsTrace (CipherStep enc dec ctx) st tr ∧
      ¬ EachStep (SparesCipher ctx) st tr := by
  obtain ⟨e, swpd, page, sc, hTree, hCtx, hPage, hSc, hKey⟩ := h
  have hNe : sc ≠ page := fun hEq => hApart e swpd page e swpd hTree hCtx hPage hTree hCtx
    (hEq ▸ hSc)
  let st' : Privos Data := { st with pagePrivate := update st.pagePrivate page e }
  have hPriv : st'.pagePrivate page = e := update_self ..
  have hPriv' : st'.pagePrivate sc = e := (update_of_ne hNe _ _).trans hKey
  have hOther : Disarms ctx st st' := by
    refine ⟨fun e' swpd' h hCtx' => ⟨swpd', h, hCtx', .inr ⟨rfl, rfl, fun sc' hSc' => ?_⟩⟩, id⟩
    refine update_of_ne (fun hEq => ?_) _ _
    exact hApart e swpd page e' swpd' hTree hCtx hPage h hCtx' (hEq ▸ hSc')
  have hUse : encryptsUnder st' page = some ctx := by
    simp only [encryptsUnder, hPriv, findPrivPage, show st'.tree e = some swpd from hTree,
      bind_eq_bind, bind_some, hSc, hPage, hPriv', and_self, if_true, hCtx]
  obtain ⟨written, t, hEnc⟩ := privEncryptPage_of_use enc hUse
  refine ⟨[(.other, st'), (.encrypt page, t)], ⟨hOther, ⟨written, hEnc⟩, trivial⟩, fun hSpares => ?_⟩
  exact hSpares.2.1 hUse

theorem spares_of_not_armedFor (hNot : ¬ ArmedFor ctx st)
    (hDead : ∀ k, st.ctxs ctx = some k → k.mapcount = 0) {tr : Trace (Privos Data) CipherOp}
    (hTr : IsTrace (CipherStep enc dec ctx) st tr) : EachStep (SparesCipher ctx) st tr := by
  have hStep : ∀ (u : Privos Data) op u',
      (¬ ArmedFor ctx u ∧ ∀ k, u.ctxs ctx = some k → k.mapcount = 0) →
      CipherStep enc dec ctx u op u' → True → SparesCipher ctx u op ∧
        ¬ ArmedFor ctx u' ∧ ∀ k, u'.ctxs ctx = some k → k.mapcount = 0 := by
    rintro u op u' ⟨hNot, hDead⟩ hOp -
    have hDisarms := hOp.disarms
    refine ⟨?_, fun hArmed => hNot (hDisarms.armedFor hArmed), hDisarms.dead hDead⟩
    cases op with
    | encrypt page => exact fun hUse => hNot (armedFor_of_encryptsUnder hUse)
    | decrypt page =>
      intro hUse
      simp only [decryptsUnder, bind_eq_bind, bind_eq_some_iff] at hUse
      obtain ⟨swpd, -, k, hk, hIf⟩ := hUse
      split at hIf
      · cases hIf
      · rename_i hMap
        rw [some.inj hIf] at hk
        exact hMap (hDead k hk)
    | delete e => trivial
    | other => trivial
  exact eachStep_of_inv hStep ⟨hNot, hDead⟩ hTr (eachStep_trivial tr)

/-- **The cipher of a dead context.** No later call uses it in any run exactly if
`priv_ctx_put` never comes to release it, or each entry of the context that has
its page and its scratch page is held by the swap cache alone. -/
theorem dead_cipher_iff {s : SwapTree Data} (hLast : s.priv.ctxs ctx = some ⟨1, p⟩)
    (hApart : PagesApart ctx s.priv) :
    DeadCipherSpared enc dec ctx s ↔
      (0 < p ∧ p ≤ (List.range s.top).countP (releases ctx s)) ∨
        ∀ e swpd page scratch, s.priv.tree e = some swpd → swpd.ctx = ctx → swpd.page = some page →
          swpd.scratch = some scratch → s.priv.pagePrivate scratch = e →
          e ≠ 0 ∧ s.swapMap e = ⟨0, true⟩ := by
  by_cases hHangs : 0 < p ∧ p ≤ (List.range s.top).countP (releases ctx s)
  · refine iff_of_true (fun hReturns => ?_) (.inl hHangs)
    exact absurd hHangs ((privCtxPut_returns_iff hLast).mp hReturns)
  have hReturns := (privCtxPut_returns_iff hLast).mpr hHangs
  have hArmed := armedFor_privCtxPut_iff hLast hReturns
  have hSpared : DeadCipherSpared enc dec ctx s ↔ ¬ ArmedFor ctx (privCtxPut ctx s).2.priv := by
    constructor
    · intro hSpared hArmed
      have hApart' : PagesApart ctx (privCtxPut ctx s).2.priv := by
        intro e swpd page e' swpd' h hCtx hPage h' hCtx' hSc
        obtain ⟨swpd₀, hs, hC, hP, -⟩ := tree_privCtxPut hLast h
        obtain ⟨swpd₁, hs', hC', -, hS⟩ := tree_privCtxPut hLast h'
        exact hApart e swpd₀ page e' swpd₁ hs (hC.symm.trans hCtx) (hP.symm.trans hPage) hs'
          (hC'.symm.trans hCtx') (hS.symm.trans hSc)
      obtain ⟨tr, hTr, hUse⟩ := exists_use_of_armedFor enc dec hApart' hArmed
      exact hUse (hSpared hReturns tr hTr)
    · intro hNot _ tr hTr
      refine spares_of_not_armedFor hNot (fun k hk => ?_) hTr
      rw [(privCtxPut_left hLast (Prod.ext hReturns rfl)).2.2.2] at hk
      split at hk
      · cases hk
      · cases hk
        rfl
  rw [hSpared, hArmed, or_iff_right hHangs]
  constructor
  · intro hNone e swpd page sc hTree hCtx hPage hSc hKey
    by_contra hBad
    exact hNone ⟨e, swpd, page, sc, hTree, hCtx, hPage, hSc, hKey,
      (not_and_or.mp hBad).imp_left not_not.mp⟩
  · rintro hAll ⟨e, swpd, page, sc, hTree, hCtx, hPage, hSc, hKey, hSlot⟩
    obtain ⟨he, hEq⟩ := hAll e swpd page sc hTree hCtx hPage hSc hKey
    exact hSlot.elim he fun hNe => hNe hEq

end Cipher

/-! ## A slot that is still referenced -/

/-- Page 1 has been entered, and a page table entry holds its swap entry. -/
def oneReferenced : SwapTree Unit where
  priv := (addToPriv twoContexts ⟨some 11, true, true, true⟩ 1 1 (some [⟨1, some 1⟩])).2
  swapMap e := if e = 1 then ⟨1, true⟩ else .unused
  top := 2
  tree_top e he := Function.update_of_ne (by change e ≠ 1; omega) _ _

/-- The process exits and the page is written out: `priv_encrypt_page` uses the
cipher that has been released. -/
theorem writes_with_dead_cipher :
    (privCtxPut 1 oneReferenced).1 = false ∧
      (privCtxPut 1 oneReferenced).2.priv.ctxs 1 = some ⟨0, 1⟩ ∧
      encryptsUnder (privCtxPut 1 oneReferenced).2.priv 1 = some 1 ∧
      ¬ DeadCipherSpared (fun _ d => d) (fun _ d => d) 1 oneReferenced := by
  have hLast : oneReferenced.priv.ctxs 1 = some ⟨1, 1⟩ := by decide
  have hReturns : (privCtxPut 1 oneReferenced).1 = false :=
    (privCtxPut_returns_iff hLast).mpr (by decide)
  have hUse : encryptsUnder (privCtxPut 1 oneReferenced).2.priv 1 = some 1 := by
    rw [encryptsUnder, findPrivPage, pagePrivate_privCtxPut hLast, (privCtxPut_last hLast).1,
      deleteAllFromPriv_eq]
    decide
  refine ⟨hReturns, ?_, hUse, fun hSpared => ?_⟩
  · rw [(privCtxPut_left hLast (Prod.ext hReturns rfl)).2.2.2]
    decide
  · obtain ⟨written, t, hEnc⟩ := privEncryptPage_of_use (fun _ d => d) hUse
    exact (hSpared hReturns [(.encrypt 1, t)] ⟨⟨written, hEnc⟩, trivial⟩).1 hUse

theorem written_spares_cipher :
    DeadCipherSpared (fun _ d => d) (fun _ d => d) 1 oneWrittenOneCachedTree := by
  have hPage : ∀ e swpd, oneWrittenOneCachedTree.priv.tree e = some swpd → swpd.ctx = 1 →
      swpd.page = none := by
    intro e swpd h hCtx
    change oneWrittenOneCached.tree e = some swpd at h
    rw [oneWrittenOneCached_tree] at h
    split at h
    · cases h
      cases hCtx
    · split at h
      · cases h
        rfl
      · cases h
  refine (dead_cipher_iff (p := 1) (by decide) fun e swpd page _ _ h hCtx hSome => ?_).mpr (.inr ?_)
  · cases (hPage e swpd h hCtx).symm.trans hSome
  · intro e swpd page _ h hCtx hSome
    cases (hPage e swpd h hCtx).symm.trans hSome

end Lacuna.Swap
