import Lacuna.Lib.Linked
import Lacuna.Crypt.Registry

/-!
# The channels of private sound

The `register`, `remove`, `enable_input` and `disable_input` attributes of
`drivers/priv_sysfs/privsound/privsound.c`. Registering a pair of context ids
makes a `struct psnd_buf` that uses both contexts; the buffers are kept in a
doubly linked list.

Modelling conventions:

* buffers are named by their addresses; their pointers are kept apart, in `links`,
  and their rings are in `Lacuna.Sound.Buffer`;
* `kmalloc` gives an address not in use, or NULL;
* a search of the list that runs out of turns gives `none`;
* between two calls the rest of the kernel may do to the contexts what it
  likes, except to those that a buffer holds.
-/

namespace Lacuna.Sound.Channels

open Lacuna.Lib Lacuna.Crypt Function List Option

structure PsndBuf where
  inCtx : UInt32
  outCtx : UInt32
  inputEnabled : Bool
  deriving DecidableEq

structure Privsound where
  reg : Registry
  bufs : Nat → PsndBuf
  links : Links
  psndHead : Option Nat
  /-- the buffers that `kmalloc` has given and `kfree` has not taken back -/
  allocated : List Nat

def inRef (p : Nat) : Nat := 2 * p

def outRef (p : Nat) : Nat := 2 * p + 1

inductive Attr where
  | register
  | remove
  | enableInput
  | disableInput
  | showPointers
  deriving DecidableEq

/-! ## Parsing -/

def hex2int (c : UInt8) : Int :=
  if 48 ≤ c ∧ c ≤ 57 then c.toNat - 48
  else if 97 ≤ c ∧ c ≤ 102 then c.toNat - 97 + 10
  else if 65 ≤ c ∧ c ≤ 70 then c.toNat - 65 + 10
  else -1

/-- `while (i < size && hex2int(buffer[i]) >= 0)`: the id, and the rest of the text. -/
def parseId : UInt32 → List UInt8 → UInt32 × List UInt8
  | ctx, [] => (ctx, [])
  | ctx, c :: text =>
    if 0 ≤ hex2int c then parseId ((ctx <<< 4) + UInt32.ofInt (hex2int c)) text
    else (ctx, c :: text)

/-- The two ids of a registration, with one character between them. -/
def parseIds (text : List UInt8) : UInt32 × UInt32 :=
  let r := parseId 0 text
  (r.1, (parseId 0 (r.2.drop 1)).1)

/-! ## The list of buffers -/

def ENOMEM : Int := 12

def Privsound.holds (s : Privsound) (ctx : UInt32) (p : Nat) : Bool :=
  (s.bufs p).inCtx == ctx || (s.bufs p).outCtx == ctx

def findPsndBuf (turns : Nat) (s : Privsound) (ctx : UInt32) : Option (Option Nat) :=
  s.links.walk (s.holds ctx) turns s.psndHead

def setupCctxRefs (reg : Registry) (p : Nat) (inCtx outCtx : UInt32) : Int × Registry :=
  -- `cctx_ref_init`
  let reg := reg.setRef (inRef p) none
  let r := useCtx reg inCtx (some (inRef p))
  if r.1 < 0 then (-1, r.2)
  else
    let reg := r.2.setRef (outRef p) none
    let r := useCtx reg outCtx (some (outRef p))
    if r.1 < 0 then (-1, unuseCtx r.2 (some (inRef p)))
    else (0, r.2)

def unuseCctxRefs (reg : Registry) (p : Nat) : Registry :=
  unuseCtx (unuseCtx reg (some (outRef p))) (some (inRef p))

/-- `privsound_create_psnd_buf`; `pbuf` is what `kmalloc` gives. -/
def createPsndBuf (s : Privsound) (pbuf : Option Nat) (inCtx outCtx : UInt32) : Int × Privsound :=
  match pbuf with
  | none => (-ENOMEM, s)
  | some p =>
    let s :=
      { s with
        bufs := Function.update s.bufs p ⟨inCtx, outCtx, false⟩
        links := (s.links.setNext p none).setPrev p none
        allocated := p :: s.allocated }
    let r := setupCctxRefs s.reg p inCtx outCtx
    if r.1 < 0 then (r.1, { s with reg := r.2, allocated := s.allocated.erase p })
    else
      (r.1, { s with reg := r.2, links := s.links.pushFront s.psndHead p, psndHead := some p })

def removePsndBuf (s : Privsound) (pbuf : Option Nat) : Privsound :=
  match pbuf with
  | none => s
  | some p =>
    let r := s.links.unlink s.psndHead p
    { s with
      links := r.1
      psndHead := r.2
      reg := unuseCctxRefs s.reg p
      allocated := s.allocated.erase p }

def setInputEnabled (s : Privsound) (pbuf : Option Nat) (v : Bool) : Privsound :=
  match pbuf with
  | none => s
  | some p => { s with bufs := Function.update s.bufs p { s.bufs p with inputEnabled := v } }

def privsoundStore (turns : Nat) (s : Privsound) (attr : Attr) (text : List UInt8)
    (pbuf : Option Nat) : Option (Int × Privsound) :=
  match attr with
  | .register =>
    let ids := parseIds text
    match findPsndBuf turns s ids.2 with
    | none => none
    | some (some _) => some (-EBUSY, s)
    | some none =>
      match findPsndBuf turns s ids.1 with
      | none => none
      | some (some _) => some (-EBUSY, s)
      | some none =>
        let r := createPsndBuf s pbuf ids.1 ids.2
        some (if r.1 < 0 then r.1 else text.length, r.2)
  | .remove =>
    (findPsndBuf turns s (parseId 0 text).1).map fun p => (text.length, removePsndBuf s p)
  | .enableInput =>
    (findPsndBuf turns s (parseId 0 text).1).map fun p => (text.length, setInputEnabled s p true)
  | .disableInput =>
    (findPsndBuf turns s (parseId 0 text).1).map fun p => (text.length, setInputEnabled s p false)
  | .showPointers => some (0, s)

def usable (reg : Registry) (id : UInt32) : Bool :=
  (findCtxById reg id).any fun c => !(reg.heap c).userLock

def Bound (reg : Registry) (ref : Nat) (id : UInt32) : Prop :=
  ∃ c, reg.refs ref = some c ∧ findCtxById reg id = some c ∧
    (reg.heap c).userLock = true ∧ (reg.heap c).userRef = some ref

inductive Op where
  | store (attr : Attr) (text : List UInt8) (pbuf : Option Nat)
  | elsewhere (reg : Registry)

/-- A write to an attribute, where `kmalloc` gives memory that is free, or anything to the
contexts that are not held here. -/
def Step (s : Privsound) : Op → Privsound → Prop
  | .store attr text pbuf, t =>
    (∀ p ∈ pbuf, p ∉ s.allocated) ∧
      ∃ turns rc, privsoundStore turns s attr text pbuf = some (rc, t)
  | .elsewhere reg, t =>
    (∀ p ∈ s.allocated, ∀ id,
      (Bound s.reg (inRef p) id → Bound reg (inRef p) id) ∧
        (Bound s.reg (outRef p) id → Bound reg (outRef p) id)) ∧
      t = { s with reg := reg }

def IdsApart (s : Privsound) (l : List Nat) : Prop :=
  ∀ p ∈ l, ∀ q ∈ l, ∀ ctx, s.holds ctx p → s.holds ctx q → p = q

/-- The list `l` and what contexts can be used are as they were. -/
def Unchanged (s t : Privsound) (l : List Nat) : Prop :=
  IsList t.links t.psndHead l ∧ (∀ p ∈ l, t.bufs p = s.bufs p) ∧
    ∀ id, usable t.reg id = usable s.reg id

/-- From `l` the buffer that holds `ctx` has gone, and its contexts can be used. -/
def Removed (s t : Privsound) (l : List Nat) (ctx : UInt32) : Prop :=
  IsList t.links t.psndHead (l.filter fun p => !s.holds ctx p) ∧ t.bufs = s.bufs ∧
    (∀ p ∈ l, s.holds ctx p →
      usable t.reg (s.bufs p).inCtx = true ∧ usable t.reg (s.bufs p).outCtx = true) ∧
    ∀ id, (∀ p ∈ l, s.holds ctx p → s.holds id p = false) → usable t.reg id = usable s.reg id

/-- A registration that reports an error has changed nothing, and a removal
has removed the right buffer. -/
def Effect (s t : Privsound) (l : List Nat) (rc : Int) (text : List UInt8) : Attr → Prop
  | .register => rc < 0 → Unchanged s t l
  | .remove => Removed s t l (parseId 0 text).1
  | _ => True

def Right (s : Privsound) : Op → Prop
  | .store attr text pbuf =>
    (∃ turns r, privsoundStore turns s attr text pbuf = some r) ∧
      ∀ turns rc t, privsoundStore turns s attr text pbuf = some (rc, t) →
        ∀ l, IsList s.links s.psndHead l → Effect s t l rc text attr
  | .elsewhere _ => True

section Contexts

variable {reg : Registry} {ref r c p : Nat} {id id' : UInt32}

theorem useCtx_cases (reg : Registry) (id : UInt32) (r : Nat) :
    ((useCtx reg id (some r)).1 < 0 ∧ (useCtx reg id (some r)).2 = reg) ∨
      ∃ c, findCtxById reg id = some c ∧ (reg.heap c).userLock = false ∧
        (useCtx reg id (some r)).1 = 0 ∧
        (useCtx reg id (some r)).2.refs = update reg.refs r (some c) ∧
        (useCtx reg id (some r)).2.ctxList = reg.ctxList ∧
        (useCtx reg id (some r)).2.heap =
          update reg.heap c { reg.heap c with userLock := true, userRef := some r } := by
  unfold useCtx
  cases hFind : findCtxById reg id with
  | none => exact .inl ⟨show -ENODEV < 0 by decide, rfl⟩
  | some c =>
    cases hLock : (reg.heap c).userLock with
    | true => exact .inl ⟨by simp [hLock, EBUSY], by simp [hLock]⟩
    | false =>
      refine .inr ⟨c, rfl, hLock, ?_⟩
      simp [hLock, Registry.modifyCtx, Registry.setRef]

theorem findCtxById_update {reg' : Registry} {k : PrivCryptCtx} (hList : reg'.ctxList = reg.ctxList)
    (hHeap : reg'.heap = update reg.heap c k) (hId : k.id = (reg.heap c).id) :
    findCtxById reg' id = findCtxById reg id := by
  have hIds : ∀ x, (reg'.heap x).id = (reg.heap x).id := by
    intro x
    rw [hHeap]
    by_cases hEq : x = c
    · subst hEq
      rw [update_self, hId]
    · rw [update_of_ne hEq]
  simp only [findCtxById, hList, hIds]

theorem findCtxById_useCtx (r : Nat) :
    findCtxById (useCtx reg id' (some r)).2 id = findCtxById reg id := by
  rcases useCtx_cases reg id' r with ⟨-, hReg⟩ | ⟨c, -, -, -, -, hList, hHeap⟩
  · rw [hReg]
  · exact findCtxById_update hList hHeap rfl

theorem Bound.setRef (h : Bound reg ref id) (hNe : ref ≠ r) (v : Option Nat) :
    Bound (reg.setRef r v) ref id := by
  obtain ⟨c, hRef, hFind, hLock⟩ := h
  exact ⟨c, (update_of_ne hNe ..).trans hRef, hFind, hLock⟩

theorem Bound.useCtx (h : Bound reg ref id) (hNe : ref ≠ r) (id' : UInt32) :
    Bound (useCtx reg id' (some r)).2 ref id := by
  obtain ⟨c, hRef, hFind, hLock, hUser⟩ := h
  rcases useCtx_cases reg id' r with ⟨-, hReg⟩ | ⟨c', -, hFree, -, hRefs, -, hHeap⟩
  · rw [hReg]
    exact ⟨c, hRef, hFind, hLock, hUser⟩
  · -- a context that could be taken is not this one
    have hOther : c ≠ c' := by
      rintro rfl
      rw [hLock] at hFree
      cases hFree
    refine ⟨c, ?_, (findCtxById_useCtx r).trans hFind, ?_⟩
    · rw [hRefs, update_of_ne hNe, hRef]
    · rw [hHeap, update_of_ne hOther]
      exact ⟨hLock, hUser⟩

theorem bound_of_useCtx (h : ¬ (useCtx reg id (some r)).1 < 0) :
    Bound (useCtx reg id (some r)).2 r id := by
  rcases useCtx_cases reg id r with ⟨hFail, -⟩ | ⟨c, hFind, -, -, hRefs, -, hHeap⟩
  · exact absurd hFail h
  · refine ⟨c, ?_, (findCtxById_useCtx r).trans hFind, ?_⟩
    · rw [hRefs, update_self]
    · rw [hHeap, update_self]
      exact ⟨rfl, rfl⟩

theorem unuseCtx_heap (hRef : reg.refs r = some c) : (unuseCtx reg (some r)).heap =
      update reg.heap c { reg.heap c with userRef := none, userLock := false } := by
  simp [unuseCtx, hRef, Registry.modifyCtx]

theorem unuseCtx_refs (reg : Registry) (r : Nat) : (unuseCtx reg (some r)).refs = reg.refs := by
  simp only [unuseCtx]
  split <;> rfl

theorem Bound.unuseCtx (h : Bound reg ref id) (hNe : ref ≠ r) (hr : Bound reg r id') :
    Bound (unuseCtx reg (some r)) ref id := by
  obtain ⟨c, hRef, hFind, hLock, hUser⟩ := h
  obtain ⟨c', hRef', -, -, hUser'⟩ := hr
  have hOther : c ≠ c' := by
    rintro rfl
    rw [hUser] at hUser'
    exact hNe (some.inj hUser')
  refine ⟨c, (congrFun (unuseCtx_refs reg r) ref).trans hRef,
    (findCtxById_unuseCtx reg r id).trans hFind, ?_⟩
  rw [unuseCtx_heap hRef', update_of_ne hOther]
  exact ⟨hLock, hUser⟩

theorem usable_congr {reg' : Registry} (hFind : findCtxById reg' id = findCtxById reg id)
    (hLock : ∀ c ∈ findCtxById reg id, (reg'.heap c).userLock = (reg.heap c).userLock) :
    usable reg' id = usable reg id := by
  rw [usable, usable, hFind]
  cases hc : findCtxById reg id with
  | none => rfl
  | some c => rw [any_some, any_some, hLock c hc]

theorem id_of_findCtxById (h : findCtxById reg id = some c) : (reg.heap c).id = id := by
  simpa using List.find?_some h

theorem usable_unuseCtx (h : Bound reg r id) : usable (unuseCtx reg (some r)) id = true ∧
      ∀ id' ≠ id, usable (unuseCtx reg (some r)) id' = usable reg id' := by
  obtain ⟨c, hRef, hFind, -, -⟩ := h
  constructor
  · rw [usable, findCtxById_unuseCtx, hFind, any_some, unuseCtx_heap hRef, update_self]
    rfl
  · intro id' hNe
    refine usable_congr (findCtxById_unuseCtx reg r id') fun c' hc' => ?_
    have hOther : c' ≠ c := by
      rintro rfl
      exact hNe ((id_of_findCtxById hc').symm.trans (id_of_findCtxById hFind))
    rw [unuseCtx_heap hRef, update_of_ne hOther]

theorem usable_useCtx (h : ¬ (useCtx reg id (some r)).1 < 0) :
    usable reg id = true ∧ ∀ id' ≠ id, usable (useCtx reg id (some r)).2 id' = usable reg id' := by
  rcases useCtx_cases reg id r with ⟨hFail, -⟩ | ⟨c, hFind, hFree, -, -, -, hHeap⟩
  · exact absurd hFail h
  · constructor
    · rw [usable, hFind, any_some, hFree]
      rfl
    · intro id' hNe
      refine usable_congr (findCtxById_useCtx r) fun c' hc' => ?_
      have hOther : c' ≠ c := by
        rintro rfl
        exact hNe ((id_of_findCtxById hc').symm.trans (id_of_findCtxById hFind))
      rw [hHeap, update_of_ne hOther]

theorem inRef_ne_outRef (p q : Nat) : inRef p ≠ outRef q := by
  unfold inRef outRef
  omega

/-- The references of all other buffers go on holding their contexts. -/
def KeepsOthers (reg reg' : Registry) (p : Nat) : Prop :=
  ∀ ref id, ref ≠ inRef p → ref ≠ outRef p → Bound reg ref id → Bound reg' ref id

/-- **Using the contexts of a new buffer.** -/
theorem setupCctxRefs_spec (reg : Registry) (p : Nat) (inCtx outCtx : UInt32) :
    KeepsOthers reg (setupCctxRefs reg p inCtx outCtx).2 p ∧
      if (setupCctxRefs reg p inCtx outCtx).1 < 0 then
        ∀ id, usable (setupCctxRefs reg p inCtx outCtx).2 id = usable reg id
      else
        Bound (setupCctxRefs reg p inCtx outCtx).2 (inRef p) inCtx ∧
          Bound (setupCctxRefs reg p inCtx outCtx).2 (outRef p) outCtx := by
  have hUsable : ∀ id, usable (reg.setRef (inRef p) none) id = usable reg id := fun _ => rfl
  have hNeg : (-1 : Int) < 0 := by decide
  have hZero : ¬ (0 : Int) < 0 := by decide
  unfold setupCctxRefs
  simp only
  by_cases hIn : (useCtx (reg.setRef (inRef p) none) inCtx (some (inRef p))).1 < 0
  · -- the first context is not to be had
    rw [if_pos hIn, if_pos (by exact hNeg)]
    rcases useCtx_cases (reg.setRef (inRef p) none) inCtx (inRef p) with ⟨-, hReg⟩ | ⟨c, _, _, hRc, _⟩
    · rw [hReg]
      exact ⟨fun ref id hNe _ h => h.setRef hNe none, hUsable⟩
    · rw [hRc] at hIn
      exact absurd hIn hZero
  · rw [if_neg hIn]
    obtain ⟨hWas, hOthers⟩ := usable_useCtx hIn
    have hFirst := (bound_of_useCtx hIn).setRef (inRef_ne_outRef p p) none
    have hKeeps : ∀ ref id, ref ≠ inRef p → ref ≠ outRef p → Bound reg ref id →
        Bound ((useCtx (reg.setRef (inRef p) none) inCtx (some (inRef p))).2.setRef (outRef p) none)
          ref id :=
      fun ref id hNe hNe' h => ((h.setRef hNe none).useCtx hNe inCtx).setRef hNe' none
    generalize hReg₁ : (useCtx (reg.setRef (inRef p) none) inCtx (some (inRef p))).2.setRef
      (outRef p) none = reg₁ at hFirst hKeeps ⊢
    by_cases hOut : (useCtx reg₁ outCtx (some (outRef p))).1 < 0
    · -- the second is not: the first is given back
      rw [if_pos hOut, if_pos (by exact hNeg)]
      have hSame : (useCtx reg₁ outCtx (some (outRef p))).2 = reg₁ := by
        rcases useCtx_cases reg₁ outCtx (outRef p) with ⟨-, hReg⟩ | ⟨c, _, _, hRc, _⟩
        · exact hReg
        · rw [hRc] at hOut
          exact absurd hOut hZero
      rw [hSame]
      obtain ⟨hAgain, hOthers'⟩ := usable_unuseCtx hFirst
      refine ⟨fun ref id hNe hNe' h => (hKeeps ref id hNe hNe' h).unuseCtx hNe hFirst, fun id => ?_⟩
      by_cases hEq : id = inCtx
      · rw [hEq, hAgain]
        exact hWas.symm
      · rw [hOthers' id hEq, ← hReg₁]
        exact hOthers id hEq
    · rw [if_neg hOut, if_neg (by exact hZero)]
      exact ⟨fun ref id hNe hNe' h => (hKeeps ref id hNe hNe' h).useCtx hNe' outCtx,
        hFirst.useCtx (inRef_ne_outRef p p) outCtx, bound_of_useCtx hOut⟩

/-- **Giving back the contexts of a buffer.** -/
theorem unuseCctxRefs_spec {inCtx outCtx : UInt32} (hIn : Bound reg (inRef p) inCtx)
    (hOut : Bound reg (outRef p) outCtx) :
    KeepsOthers reg (unuseCctxRefs reg p) p ∧
      usable (unuseCctxRefs reg p) inCtx = true ∧ usable (unuseCctxRefs reg p) outCtx = true ∧
      ∀ id, id ≠ inCtx → id ≠ outCtx → usable (unuseCctxRefs reg p) id = usable reg id := by
  have hIn' := hIn.unuseCtx (inRef_ne_outRef p p) hOut
  obtain ⟨hFree, hOthers⟩ := usable_unuseCtx hOut
  obtain ⟨hFree', hOthers'⟩ := usable_unuseCtx hIn'
  refine ⟨fun ref id hNe hNe' h => (h.unuseCtx hNe' hOut).unuseCtx hNe hIn', hFree', ?_, ?_⟩
  · by_cases hEq : outCtx = inCtx
    · rw [hEq]
      exact hFree'
    · exact (hOthers' outCtx hEq).trans hFree
  · exact fun id hNe hNe' => (hOthers' id hNe).trans (hOthers id hNe')

end Contexts

/-! ## The invariant -/

/-- The buffers in use are those of the list `l`, and each holds its two
contexts. -/
structure Inv (s : Privsound) (l : List Nat) : Prop where
  list : IsList s.links s.psndHead l
  apart : IdsApart s l
  allocated : ∀ p, p ∈ s.allocated ↔ p ∈ l
  nodup : s.allocated.Nodup
  bound : ∀ p ∈ l, Bound s.reg (inRef p) (s.bufs p).inCtx ∧ Bound s.reg (outRef p) (s.bufs p).outCtx

section Invariant

variable {s t : Privsound} {l : List Nat} {p : Nat}

theorem IdsApart.congr (h : IdsApart s l) (hIn : ∀ p ∈ l, (t.bufs p).inCtx = (s.bufs p).inCtx)
    (hOut : ∀ p ∈ l, (t.bufs p).outCtx = (s.bufs p).outCtx) : IdsApart t l := by
  intro p hp q hq ctx hCtx hCtx'
  rw [Privsound.holds, hIn p hp, hOut p hp] at hCtx
  rw [Privsound.holds, hIn q hq, hOut q hq] at hCtx'
  exact h p hp q hq ctx hCtx hCtx'

theorem IdsApart.cons (h : IdsApart s l)
    (hNew : ∀ ctx, s.holds ctx p → ∀ q ∈ l, s.holds ctx q = false) : IdsApart s (p :: l) := by
  intro x hx y hy ctx hCtx hCtx'
  rcases List.mem_cons.mp hx with rfl | hOld
  · rcases List.mem_cons.mp hy with rfl | hOld'
    · rfl
    · rw [hNew ctx hCtx y hOld'] at hCtx'
      cases hCtx'
  · rcases List.mem_cons.mp hy with rfl | hOld'
    · rw [hNew ctx hCtx' x hOld] at hCtx
      cases hCtx
    · exact h x hOld y hOld' ctx hCtx hCtx'

theorem refs_apart {p q : Nat} (h : q ≠ p) :
    (inRef q ≠ inRef p ∧ inRef q ≠ outRef p) ∧ outRef q ≠ inRef p ∧ outRef q ≠ outRef p := by
  unfold inRef outRef
  omega

theorem KeepsOthers.bound {reg reg' : Registry} {b : PsndBuf} {q : Nat}
    (h : KeepsOthers reg reg' p) (hNe : q ≠ p)
    (hBound : Bound reg (inRef q) b.inCtx ∧ Bound reg (outRef q) b.outCtx) :
    Bound reg' (inRef q) b.inCtx ∧ Bound reg' (outRef q) b.outCtx := by
  obtain ⟨hIn, hOut⟩ := refs_apart hNe
  exact ⟨h _ _ hIn.1 hIn.2 hBound.1, h _ _ hOut.1 hOut.2 hBound.2⟩

/-- **Registering.** -/
theorem createPsndBuf_spec (h : Inv s l) {pbuf : Option Nat} (hFresh : ∀ p ∈ pbuf, p ∉ s.allocated)
    {inCtx outCtx : UInt32} (hIn : ∀ p ∈ l, s.holds inCtx p = false)
    (hOut : ∀ p ∈ l, s.holds outCtx p = false) :
    if (createPsndBuf s pbuf inCtx outCtx).1 < 0 then
      Inv (createPsndBuf s pbuf inCtx outCtx).2 l ∧
        Unchanged s (createPsndBuf s pbuf inCtx outCtx).2 l
    else ∃ p, Inv (createPsndBuf s pbuf inCtx outCtx).2 (p :: l) := by
  cases pbuf with
  | none => exact ⟨h, h.list, fun _ _ => rfl, fun _ => rfl⟩
  | some p =>
    have hNot : p ∉ l := fun hMem => hFresh p rfl ((h.allocated p).mpr hMem)
    have hNe : ∀ q ∈ l, q ≠ p := fun q hq hEq => hNot (hEq ▸ hq)
    have hBufs : ∀ q ∈ l, update s.bufs p ⟨inCtx, outCtx, false⟩ q = s.bufs q :=
      fun q hq => update_of_ne (hNe q hq) ..
    -- the cells of the list are not touched while the new one is prepared
    have hList : IsList ((s.links.setNext p none).setPrev p none) s.psndHead l :=
      h.list.congr (fun q hq => update_of_ne (hNe q hq) ..) fun q hq => update_of_ne (hNe q hq) ..
    obtain ⟨hKeeps, hSetup⟩ := setupCctxRefs_spec s.reg p inCtx outCtx
    unfold createPsndBuf
    simp only
    by_cases hRc : (setupCctxRefs s.reg p inCtx outCtx).1 < 0
    · rw [if_pos hRc] at hSetup
      rw [if_pos hRc, if_pos (by exact hRc)]
      refine ⟨⟨hList, ?_, ?_, ?_, ?_⟩, hList, hBufs, hSetup⟩
      · exact h.apart.congr (fun q hq => congrArg PsndBuf.inCtx (hBufs q hq))
          fun q hq => congrArg PsndBuf.outCtx (hBufs q hq)
      · intro q
        show q ∈ (p :: s.allocated).erase p ↔ _
        rw [erase_cons_head, h.allocated]
      · show ((p :: s.allocated).erase p).Nodup
        rw [erase_cons_head]
        exact h.nodup
      · intro q hq
        show Bound _ _ (update s.bufs p _ q).inCtx ∧ Bound _ _ (update s.bufs p _ q).outCtx
        rw [hBufs q hq]
        exact hKeeps.bound (hNe q hq) (h.bound q hq)
    · rw [if_neg hRc] at hSetup
      rw [if_neg hRc, if_neg (by exact hRc)]
      refine ⟨p, hList.pushFront hNot (update_self ..) (update_self ..), ?_, ?_, ?_, ?_⟩
      · refine IdsApart.cons (h.apart.congr (fun q hq => congrArg PsndBuf.inCtx (hBufs q hq))
          fun q hq => congrArg PsndBuf.outCtx (hBufs q hq)) fun ctx hCtx q hq => ?_
        have hOld : ∀ q ∈ l, s.holds ctx q = false := by
          have hNew : inCtx = ctx ∨ outCtx = ctx := by
            simpa [Privsound.holds] using hCtx
          rcases hNew with rfl | rfl
          · exact hIn
          · exact hOut
        show ((update s.bufs p _ q).inCtx == ctx || (update s.bufs p _ q).outCtx == ctx) = false
        rw [hBufs q hq]
        exact hOld q hq
      · intro q
        show q ∈ p :: s.allocated ↔ _
        rw [mem_cons, mem_cons, h.allocated]
      · exact List.nodup_cons.mpr ⟨hFresh p rfl, h.nodup⟩
      · intro q hq
        show Bound _ _ (update s.bufs p _ q).inCtx ∧ Bound _ _ (update s.bufs p _ q).outCtx
        rcases List.mem_cons.mp hq with rfl | hq
        · rw [update_self]
          exact hSetup
        · rw [hBufs q hq]
          exact hKeeps.bound (hNe q hq) (h.bound q hq)

theorem find?_holds (h : IdsApart s l) (hNodup : l.Nodup) {ctx : UInt32} :
    match l.find? (s.holds ctx) with
    | some p => p ∈ l ∧ s.holds ctx p = true ∧ (l.filter fun q => !s.holds ctx q) = l.erase p
    | none => ∀ p ∈ l, s.holds ctx p = false := by
  cases hFind : l.find? (s.holds ctx) with
  | none => simpa using hFind
  | some p =>
    have hp := List.mem_of_find?_eq_some hFind
    have hCtx := List.find?_some hFind
    refine ⟨hp, hCtx, ?_⟩
    rw [hNodup.erase_eq_filter]
    refine filter_congr fun q hq => ?_
    cases hq' : s.holds ctx q with
    | true =>
      rw [h q hq p hp ctx hq' hCtx]
      simp
    | false =>
      have hNe : q ≠ p := by
        rintro rfl
        rw [hCtx] at hq'
        cases hq'
      simp [hNe]

/-- **Removing.** -/
theorem removePsndBuf_spec (h : Inv s l) (ctx : UInt32) :
    Inv (removePsndBuf s (l.find? (s.holds ctx))) (l.filter fun p => !s.holds ctx p) ∧
      Removed s (removePsndBuf s (l.find? (s.holds ctx))) l ctx := by
  have hFind := @find?_holds s l h.apart h.list.nodup ctx
  cases hp : l.find? (s.holds ctx) with
  | none =>
    rw [hp] at hFind
    have hAll : (l.filter fun p => !s.holds ctx p) = l :=
      List.filter_eq_self.mpr fun p hp => by rw [hFind p hp]; rfl
    rw [hAll]
    refine ⟨h, hAll.symm ▸ h.list, rfl, fun p hp hCtx => ?_, fun _ _ => rfl⟩
    rw [hFind p hp] at hCtx
    cases hCtx
  | some p =>
    rw [hp] at hFind
    obtain ⟨hMem, hCtx, hErase⟩ := hFind
    obtain ⟨hIn, hOut⟩ := h.bound p hMem
    obtain ⟨hKeeps, hFreeIn, hFreeOut, hOthers⟩ := unuseCctxRefs_spec hIn hOut
    have hList := h.list.unlink hMem
    rw [Removed, hErase]
    refine ⟨⟨hList, ?_, ?_, h.nodup.erase p, ?_⟩, hList, rfl, ?_, ?_⟩
    · exact fun x hx y hy => h.apart x (mem_of_mem_erase hx) y (mem_of_mem_erase hy)
    · intro q
      show q ∈ s.allocated.erase p ↔ _
      rw [h.nodup.mem_erase_iff, h.list.nodup.mem_erase_iff, h.allocated]
    · intro q hq
      obtain ⟨hNe, hq⟩ := (h.list.nodup.mem_erase_iff).mp hq
      exact hKeeps.bound hNe (h.bound q hq)
    · intro q hq hCtx'
      rw [h.apart q hq p hMem ctx hCtx' hCtx]
      exact ⟨hFreeIn, hFreeOut⟩
    · intro id hNot
      have hNone := hNot p hMem hCtx
      rw [Privsound.holds, Bool.or_eq_false_iff, beq_eq_false_iff_ne, beq_eq_false_iff_ne] at hNone
      exact hOthers id hNone.1.symm hNone.2.symm

theorem setInputEnabled_inv (h : Inv s l) (pbuf : Option Nat) (v : Bool) :
    Inv (setInputEnabled s pbuf v) l := by
  cases pbuf with
  | none => exact h
  | some p =>
    have hIn : ∀ q, ((setInputEnabled s (some p) v).bufs q).inCtx = (s.bufs q).inCtx := by
      intro q
      by_cases hEq : q = p
      · subst hEq
        simp [setInputEnabled]
      · simp [setInputEnabled, hEq]
    have hOut : ∀ q, ((setInputEnabled s (some p) v).bufs q).outCtx = (s.bufs q).outCtx := by
      intro q
      by_cases hEq : q = p
      · subst hEq
        simp [setInputEnabled]
      · simp [setInputEnabled, hEq]
    refine ⟨h.list, h.apart.congr (fun q _ => hIn q) fun q _ => hOut q, h.allocated, h.nodup, ?_⟩
    intro q hq
    rw [hIn, hOut]
    exact h.bound q hq

theorem privsoundStore_returns (h : Inv s l) (attr : Attr) (text : List UInt8)
    (pbuf : Option Nat) : ∃ turns r, privsoundStore turns s attr text pbuf = some r := by
  have hFind : ∀ ctx, findPsndBuf (l.length + 1) s ctx = some (l.find? (s.holds ctx)) :=
    fun ctx => h.list.walk _ (Nat.lt_succ_self _)
  refine ⟨l.length + 1, ?_⟩
  cases attr with
  | register =>
    simp only [privsoundStore, hFind]
    split
    next hNone => cases hNone
    next => exact ⟨_, rfl⟩
    next =>
      split
      next hNone => cases hNone
      next => exact ⟨_, rfl⟩
      next => exact ⟨_, rfl⟩
  | remove => exact ⟨_, by rw [privsoundStore, hFind]; rfl⟩
  | enableInput => exact ⟨_, by rw [privsoundStore, hFind]; rfl⟩
  | disableInput => exact ⟨_, by rw [privsoundStore, hFind]; rfl⟩
  | showPointers => exact ⟨_, rfl⟩

/-- **One write.** -/
theorem privsoundStore_spec (h : Inv s l) {attr : Attr} {text : List UInt8} {pbuf : Option Nat}
    (hFresh : ∀ p ∈ pbuf, p ∉ s.allocated) {turns : Nat} {rc : Int}
    (hStore : privsoundStore turns s attr text pbuf = some (rc, t)) :
    (∃ l', Inv t l') ∧ Effect s t l rc text attr := by
  have hFind : ∀ ctx r, findPsndBuf turns s ctx = some r → r = l.find? (s.holds ctx) :=
    fun ctx r hWalk => h.list.walk_some hWalk
  cases attr with
  | register =>
    have hSame : Unchanged s s l := ⟨h.list, fun _ _ => rfl, fun _ => rfl⟩
    simp only [privsoundStore] at hStore
    split at hStore
    next => cases hStore
    next =>
      obtain ⟨-, rfl⟩ := Prod.mk.inj (some.inj hStore)
      exact ⟨⟨l, h⟩, fun _ => hSame⟩
    next hOut =>
      split at hStore
      next => cases hStore
      next =>
        obtain ⟨-, rfl⟩ := Prod.mk.inj (some.inj hStore)
        exact ⟨⟨l, h⟩, fun _ => hSame⟩
      next hIn =>
        -- neither id is in the list
        have hApart : ∀ ctx, findPsndBuf turns s ctx = some none → ∀ p ∈ l, s.holds ctx p = false :=
          fun ctx hWalk => by simpa using (hFind ctx none hWalk).symm
        have hCreate := createPsndBuf_spec h hFresh (hApart _ hIn) (hApart _ hOut)
        obtain ⟨rfl, rfl⟩ := Prod.mk.inj (some.inj hStore)
        split at hCreate
        next => exact ⟨⟨l, hCreate.1⟩, fun _ => hCreate.2⟩
        next hRc =>
          obtain ⟨p, hInv⟩ := hCreate
          refine ⟨⟨p :: l, hInv⟩, fun hNeg => ?_⟩
          rw [if_neg hRc] at hNeg
          exact absurd hNeg (by omega)
  | remove =>
    rw [privsoundStore, map_eq_some_iff] at hStore
    obtain ⟨p, hWalk, hEq⟩ := hStore
    obtain ⟨-, rfl⟩ := Prod.mk.inj hEq
    rw [hFind _ p hWalk]
    obtain ⟨hInv, hRemoved⟩ := removePsndBuf_spec h (parseId 0 text).1
    exact ⟨⟨_, hInv⟩, hRemoved⟩
  | enableInput =>
    rw [privsoundStore, map_eq_some_iff] at hStore
    obtain ⟨p, -, hEq⟩ := hStore
    obtain ⟨-, rfl⟩ := Prod.mk.inj hEq
    exact ⟨⟨l, setInputEnabled_inv h p true⟩, trivial⟩
  | disableInput =>
    rw [privsoundStore, map_eq_some_iff] at hStore
    obtain ⟨p, -, hEq⟩ := hStore
    obtain ⟨-, rfl⟩ := Prod.mk.inj hEq
    exact ⟨⟨l, setInputEnabled_inv h p false⟩, trivial⟩
  | showPointers =>
    obtain ⟨-, rfl⟩ := Prod.mk.inj (some.inj hStore)
    exact ⟨⟨l, h⟩, trivial⟩

theorem step_inv {op : Op} (h : Inv s l) (hStep : Step s op t) : Right s op ∧ ∃ l', Inv t l' := by
  cases op with
  | store attr text pbuf =>
    obtain ⟨hFresh, turns, rc, hStore⟩ := hStep
    refine ⟨⟨privsoundStore_returns h attr text pbuf, ?_⟩, (privsoundStore_spec h hFresh hStore).1⟩
    intro turns' rc' t' hStore' l' hList
    rw [← h.list.unique hList]
    exact (privsoundStore_spec h hFresh hStore').2
  | elsewhere reg =>
    obtain ⟨hHeld, rfl⟩ := hStep
    refine ⟨trivial, l, h.list, h.apart, h.allocated, h.nodup, fun p hp => ?_⟩
    have hp' := (h.allocated p).mpr hp
    exact ⟨(hHeld p hp' _).1 (h.bound p hp).1, (hHeld p hp' _).2 (h.bound p hp).2⟩

end Invariant

/-! ## Main result -/

/-- The list is finite and without a cycle, `prev` and `next` are inverse to
each other, and no id is in two buffers. -/
def WellLinked (s : Privsound) : Prop :=
  ∃ l, IsList s.links s.psndHead l ∧
    (∀ p ∈ l, ∀ q ∈ l, s.links.next p = some q ↔ s.links.prev q = some p) ∧ IdsApart s l

/-- **The channels, whatever is written.** -/
theorem channels_sound {s : Privsound} {tr : Trace Privsound Op} (hHead : s.psndHead = none)
    (hNone : s.allocated = []) (hTr : IsTrace Step s tr) :
    EachState WellLinked s tr ∧ EachStep Right s tr := by
  have hInv : Inv s [] := by
    refine ⟨⟨nodup_nil, hHead, ?_, ?_⟩, ?_, ?_, hNone ▸ nodup_nil, ?_⟩ <;>
      simp [hNone, IdsApart]
  have hStep : ∀ s op t, (∃ l, Inv s l) → Step s op t → True → Right s op ∧ ∃ l, Inv t l :=
    fun s op t ⟨l, h⟩ hStep _ => step_inv h hStep
  have hLinked : ∀ s, (∃ l, Inv s l) → WellLinked s := fun s ⟨l, h⟩ =>
    ⟨l, h.list, fun p hp q hq => h.list.next_iff_prev hp hq, h.apart⟩
  refine ⟨eachState_of_inv hLinked (fun s op t h hs hc => (hStep s op t h hs hc).2)
    ⟨[], hInv⟩ hTr (eachStep_trivial tr), ?_⟩
  exact eachStep_of_inv hStep ⟨[], hInv⟩ hTr (eachStep_trivial tr)

def noChannel : Privsound where
  reg :=
    { emptyRegistry with
      ctxList := [1, 2]
      heap := fun c => { emptyRegistry.heap c with id := UInt32.ofNat c } }
  bufs _ := ⟨0, 0, false⟩
  links := ⟨fun _ => none, fun _ => none⟩
  psndHead := none
  allocated := []

def oneChannel : Privsound := (createPsndBuf noChannel (some 4) 1 2).2

theorem channels_register_remove :
    EachStep Right noChannel
      [(.store .register [49, 44, 50] (some 4), oneChannel),
        (.store .remove [50] none, removePsndBuf oneChannel (some 4))] := by
  have hParse : parseIds [49, 44, 50] = (1, 2) := by decide
  have hParse' : parseId 0 [50] = (2, []) := by decide
  have hTr : IsTrace Step noChannel
      [(.store .register [49, 44, 50] (some 4), oneChannel),
        (.store .remove [50] none, removePsndBuf oneChannel (some 4))] := by
    refine ⟨⟨fun p _ => not_mem_nil, 1, 3, ?_⟩, ⟨fun p hp => (nomatch hp), 2, 1, ?_⟩, trivial⟩
    · simp only [privsoundStore, hParse]
      rfl
    · simp only [privsoundStore, hParse']
      rfl
  exact (channels_sound rfl rfl hTr).2

end Lacuna.Sound.Channels
