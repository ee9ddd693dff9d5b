import Lacuna.Lib.History
import Lacuna.Net.E1000

/-!
# The MAC trie as a table

What `privnet_add_mac`, `privnet_remove_mac` and `privnet_find_mac` come to.
For lookups the trie is a finite map from addresses to pairs of context ids
(`mac_table`). The nodes themselves do not follow the map: `privnet_add_mac` makes
the nodes on its way before it does what can fail, and takes none of them back
(`failed_add_traceless_iff`).
-/

namespace Lacuna.Net

open Lacuna.Lib Lacuna.Crypt

variable {st st' : Privnet}

inductive MacOp where
  | add (mac : MacAddr) (inId outId : UInt32) (mem : Option (Nat × Nat))
  | remove (mac : MacAddr)
  | contexts (reg : Registry)

def MacOp.run (st : Privnet) : MacOp → Int × Privnet
  | .add mac inId outId mem => privnetAddMac st mac.val inId outId mem
  | .remove mac => (0, privnetRemoveMac st mac.val)
  | .contexts reg => (0, { st with reg := reg })

structure MacCall where
  op : MacOp
  rc : Int

def MacStep (st : Privnet) (call : MacCall) (st' : Privnet) : Prop :=
  call.op.run st = (call.rc, st')

def MacCall.Adds (call : MacCall) (mac : MacAddr) (ids : UInt32 × UInt32) : Prop :=
  ∃ mem, call.op = .add mac ids.1 ids.2 mem ∧ 0 ≤ call.rc

def MacCall.Removes (call : MacCall) (mac : MacAddr) : Prop := call.op = .remove mac

/-! ## The map -/

def bindings (st : Privnet) (mac : MacAddr) : Option (UInt32 × UInt32) :=
  (privnetFindMac st mac.val).map fun nid => (nid.inId, nid.outId)

def MacCall.effect (call : MacCall) : Option (MacAddr × Option (UInt32 × UInt32)) :=
  match call.op with
  | .add mac inId outId _ => if 0 ≤ call.rc then some (mac, some (inId, outId)) else none
  | .remove mac => some (mac, none)
  | .contexts _ => none

theorem privnetAddMac_cases (st : Privnet) (mac : MacAddr) (inId outId : UInt32)
    (mem : Option (Nat × Nat)) :
    let r := privnetAddMac st mac.val inId outId mem
    ((privnetFindMac st mac.val).isSome ∧ r = (-EBUSY, st)) ∨
      (privnetFindMac st mac.val = none ∧ r.1 < 0 ∧
        r.2.macTreeRoot = Trie.set 5 st.macTreeRoot mac.val none) ∨
      (privnetFindMac st mac.val = none ∧ r.1 = 0 ∧ ∃ inRef outRef,
        r.2.macTreeRoot = Trie.set 5 (Trie.set 5 st.macTreeRoot mac.val none) mac.val
          (some ⟨inId, inRef, outId, outRef⟩)) := by
  intro r
  cases hFind : privnetFindMac st mac.val with
  | some nid =>
    refine .inl ⟨rfl, ?_⟩
    simp only [r, privnetAddMac, hFind]
  | none =>
    cases mem with
    | none =>
      refine .inr (.inl ⟨rfl, ?_, ?_⟩)
      · simp only [r, privnetAddMac, hFind]
        decide
      · simp only [r, privnetAddMac, hFind]
    | some refs =>
      by_cases hRc : (setupNode st.reg ⟨inId, refs.1, outId, refs.2⟩).1 < 0
      · refine .inr (.inl ⟨rfl, ?_, ?_⟩)
        · simp only [r, privnetAddMac, hFind, if_pos hRc]
          exact hRc
        · simp only [r, privnetAddMac, hFind, if_pos hRc]
      · refine .inr (.inr ⟨rfl, ?_, refs.1, refs.2, ?_⟩)
        · simp only [r, privnetAddMac, hFind, if_neg hRc]
        · simp only [r, privnetAddMac, hFind, if_neg hRc]

theorem find_privnetAddMac (st : Privnet) (mac : MacAddr) (inId outId : UInt32)
    (mem : Option (Nat × Nat)) :
    let r := privnetAddMac st mac.val inId outId mem
    (r.1 < 0 ∧ ∀ mac' : MacAddr, privnetFindMac r.2 mac'.val = privnetFindMac st mac'.val) ∨
      r.1 = 0 ∧ ∃ nid : MacCryptRefs, nid.inId = inId ∧ nid.outId = outId ∧
        ∀ mac' : MacAddr, privnetFindMac r.2 mac'.val =
          if mac'.val = mac.val then some nid else privnetFindMac st mac'.val := by
  intro r
  rcases privnetAddMac_cases st mac inId outId mem with
    ⟨_, hr⟩ | ⟨hFree, hRc, hRoot⟩ | ⟨hFree, hRc, inRef, outRef, hRoot⟩
  · refine .inl ⟨?_, fun mac' => ?_⟩
    · rw [show r = _ from hr]
      exact (by decide : -EBUSY < 0)
    · rw [show r = _ from hr]
  · refine .inl ⟨hRc, fun mac' => ?_⟩
    rw [privnetFindMac, show r.2.macTreeRoot = _ from hRoot, find_touch mac.2 hFree mac'.2]
  · refine .inr ⟨hRc, ⟨inId, inRef, outId, outRef⟩, rfl, rfl, fun mac' => ?_⟩
    rw [privnetFindMac, show r.2.macTreeRoot = _ from hRoot, find_enter mac.2 hFree _ mac'.2]

theorem bindings_update {mac : MacAddr} {nid : Option MacCryptRefs}
    (h : ∀ mac' : MacAddr, privnetFindMac st' mac'.val =
      if mac'.val = mac.val then nid else privnetFindMac st mac'.val) :
    bindings st' =
      Function.update (bindings st) mac (nid.map fun nid => (nid.inId, nid.outId)) := by
  funext mac'
  rw [bindings, h]
  by_cases hMac : mac' = mac
  · rw [hMac, if_pos rfl, Function.update_self]
  · rw [if_neg (fun hEq => hMac (Subtype.ext hEq)), Function.update_of_ne hMac]
    rfl

/-- **One call** does to the map what its result says. -/
theorem bindings_run {call : MacCall} (h : MacStep st call st') :
    bindings st' = replayCall MacCall.effect (bindings st) call := by
  obtain ⟨op, rc⟩ := call
  cases op with
  | add mac inId outId mem =>
    have hRun : privnetAddMac st mac.val inId outId mem = (rc, st') := h
    have hFind := find_privnetAddMac st mac inId outId mem
    rw [hRun] at hFind
    rcases hFind with ⟨hNeg, hSame⟩ | ⟨hZero, nid, rfl, rfl, hNew⟩
    · have hEff : MacCall.effect ⟨.add mac inId outId mem, rc⟩ = none :=
        if_neg (Int.not_le.mpr hNeg)
      rw [replayCall_none hEff]
      funext mac'
      rw [bindings, bindings, hSame]
    · have hEff : MacCall.effect ⟨.add mac nid.inId nid.outId mem, rc⟩ =
          some (mac, some (nid.inId, nid.outId)) := if_pos (Int.le_of_eq hZero.symm)
      rw [replayCall_some hEff]
      exact bindings_update hNew
  | remove mac =>
    obtain rfl : privnetRemoveMac st mac.val = st' := congrArg Prod.snd h
    have hEff : MacCall.effect ⟨.remove mac, rc⟩ = some (mac, none) := rfl
    rw [replayCall_some hEff]
    exact bindings_update fun mac' => find_privnetRemoveMac mac.2 mac'.2
  | contexts reg =>
    obtain rfl : { st with reg := reg } = st' := congrArg Prod.snd h
    have hEff : MacCall.effect ⟨.contexts reg, rc⟩ = none := rfl
    rw [replayCall_none hEff]
    rfl

/-- **A run** replays its calls. -/
theorem bindings_lastState {tr : Trace Privnet MacCall} (hTr : IsTrace MacStep st tr) :
    bindings (lastState st tr) = (tr.map Prod.fst).foldl (replayCall MacCall.effect) (bindings st) := by
  induction tr generalizing st with
  | nil => rfl
  | cons p tr ih =>
    rw [List.map_cons, List.foldl_cons, ← bindings_run hTr.1]
    exact ih hTr.2

/-- A registered address is refused and stays as it is, and the other addresses do too. -/
def CallKeeps (st : Privnet) (call : MacCall) : Prop :=
  ∀ mac, (∀ inId outId mem, call.op = .add mac inId outId mem →
      (privnetFindMac st mac.val).isSome →
        (call.op.run st).1 = -EBUSY ∧ bindings (call.op.run st).2 = bindings st) ∧
    ((∃ inId outId mem, call.op = .add mac inId outId mem) ∨ call.op = .remove mac →
      ∀ mac' : MacAddr, mac' ≠ mac →
        privnetFindMac (call.op.run st).2 mac'.val = privnetFindMac st mac'.val)

theorem callKeeps (st : Privnet) (call : MacCall) : CallKeeps st call := by
  intro mac
  refine ⟨?_, ?_⟩
  · intro inId outId mem hOp hSome
    have hBusy : call.op.run st = (-EBUSY, st) := by
      rw [hOp]
      rcases privnetAddMac_cases st mac inId outId mem with ⟨_, hr⟩ | ⟨hFree, _⟩ | ⟨hFree, _⟩
      · exact hr
      · rw [hFree] at hSome
        cases hSome
      · rw [hFree] at hSome
        cases hSome
    rw [hBusy]
    exact ⟨rfl, rfl⟩
  · rintro (⟨inId, outId, mem, hOp⟩ | hOp) mac' hNe
    · rw [hOp]
      rcases find_privnetAddMac st mac inId outId mem with ⟨_, hSame⟩ | ⟨_, nid, _, _, hNew⟩
      · exact hSame mac'
      · refine (hNew mac').trans (if_neg fun hEq => hNe (Subtype.ext hEq))
    · rw [hOp]
      refine (find_privnetRemoveMac mac.2 mac'.2).trans (if_neg fun hEq => hNe (Subtype.ext hEq))

theorem effect_eq_bind_iff {call : MacCall} {mac : MacAddr} {ids : UInt32 × UInt32} :
    call.effect = some (mac, some ids) ↔ call.Adds mac ids := by
  obtain ⟨op, rc⟩ := call
  cases op with
  | add mac' inId outId mem =>
    simp only [MacCall.effect, MacCall.Adds]
    constructor
    · intro h
      split at h
      · cases h
        exact ⟨mem, rfl, ‹_›⟩
      · cases h
    · rintro ⟨mem', hOp, hRc⟩
      cases hOp
      rw [if_pos hRc]
  | remove mac' =>
    refine ⟨fun h => ?_, ?_⟩
    · cases h
    · rintro ⟨_, hOp, _⟩
      cases hOp
  | contexts reg =>
    refine ⟨fun h => ?_, ?_⟩
    · cases h
    · rintro ⟨_, hOp, _⟩
      cases hOp

theorem effect_eq_unbind_iff {call : MacCall} {mac : MacAddr} :
    call.effect = some (mac, none) ↔ call.Removes mac := by
  obtain ⟨op, rc⟩ := call
  cases op with
  | add mac' inId outId mem =>
    refine ⟨fun h => ?_, fun h => by cases h⟩
    simp only [MacCall.effect] at h
    split at h <;> cases h
  | remove mac' =>
    refine ⟨fun h => ?_, fun h => ?_⟩
    · cases h
      rfl
    · cases h
      rfl
  | contexts reg =>
    refine ⟨fun h => ?_, fun h => ?_⟩
    · cases h
    · cases h

/-- **The trie is a finite map**: an address is found exactly if its last successful
registration has not been followed by a removal, with the ids of that registration. A registered
address is refused, and no call touches other addresses. -/
theorem mac_table {reg : Registry} {tr : Trace Privnet MacCall}
    (hTr : IsTrace MacStep ⟨reg, Trie.empty 5⟩ tr) :
    (∀ mac ids, bindings (lastState ⟨reg, Trie.empty 5⟩ tr) mac = some ids ↔
      ∃ before call after, tr.map Prod.fst = before ++ call :: after ∧ call.Adds mac ids ∧
        ∀ later ∈ after, (∀ ids', ¬ later.Adds mac ids') ∧ ¬ later.Removes mac) ∧
      EachStep CallKeeps ⟨reg, Trie.empty 5⟩ tr := by
  have hEmpty : bindings ⟨reg, Trie.empty 5⟩ = fun _ => none := by
    funext mac
    rw [bindings, privnetFindMac, Trie.find_empty, Option.map_none]
  refine ⟨fun mac ids => ?_, ?_⟩
  · have hRun := bindings_lastState hTr
    rw [hEmpty] at hRun
    rw [hRun, ← replay, replay_eq_some_iff]
    refine exists_congr fun before => exists_congr fun call => exists_congr fun after => ?_
    rw [effect_eq_bind_iff]
    refine and_congr_right fun _ => and_congr_right fun _ => forall₂_congr fun later _ => ?_
    constructor
    · intro h
      exact ⟨fun ids' hAdds => h (some ids') (effect_eq_bind_iff.mpr hAdds),
        fun hRemoves => h none (effect_eq_unbind_iff.mpr hRemoves)⟩
    · rintro ⟨hAdds, hRemoves⟩ w hw
      cases w with
      | none => exact hRemoves (effect_eq_unbind_iff.mp hw)
      | some ids' => exact hAdds ids' (effect_eq_bind_iff.mp hw)
  · have hStep : ∀ st call st', True → MacStep st call st' → True → CallKeeps st call ∧ True :=
      fun st call _ _ _ _ => ⟨callKeeps st call, trivial⟩
    exact eachStep_of_inv hStep trivial hTr (eachStep_trivial tr)

def sampleContexts : Registry := doNewCtx (doNewCtx emptyRegistry 1 16 .enc 7) 2 16 .dec 7

def siblingMac : MacAddr := ⟨[2, 0, 0, 0, 0, 2], rfl⟩

theorem sample_table :
    ∃ tr : Trace Privnet MacCall, tr.map Prod.fst =
        [⟨.add sampleMac 1 2 (some (10, 11)), 0⟩, ⟨.add siblingMac 1 2 (some (12, 13)), -1⟩,
          ⟨.remove siblingMac, 0⟩] ∧
      bindings (lastState ⟨sampleContexts, Trie.empty 5⟩ tr) sampleMac = some (1, 2) := by
  have hTr : IsTrace MacStep ⟨sampleContexts, Trie.empty 5⟩
      [(⟨.add sampleMac 1 2 (some (10, 11)), 0⟩, _),
        (⟨.add siblingMac 1 2 (some (12, 13)), -1⟩, _), (⟨.remove siblingMac, 0⟩, _)] :=
    ⟨rfl, rfl, rfl, trivial⟩
  refine ⟨_, rfl, ((mac_table hTr).1 sampleMac (1, 2)).mpr ?_⟩
  refine ⟨[], _, _, rfl, ⟨_, rfl, Int.le_refl 0⟩, ?_⟩
  intro later hMem
  rcases List.mem_cons.mp hMem with rfl | hMem
  · refine ⟨?_, fun h => nomatch h⟩
    rintro ids ⟨_, _, hRc⟩
    exact absurd hRc (by decide)
  · rw [List.mem_singleton.mp hMem]
    refine ⟨?_, fun h => absurd (MacOp.remove.inj h) (by decide)⟩
    rintro ids ⟨_, hOp, _⟩
    cases hOp

/-! ## Failed registrations -/

/-- The trie is left as it is, node by node, and the contexts as usable as they are. -/
structure Traceless (st st' : Privnet) : Prop where
  trie : st'.macTreeRoot = st.macTreeRoot
  heap : st'.reg.heap = st.reg.heap
  ctxList : st'.reg.ctxList = st.reg.ctxList
  usable : ∀ id ref, (useCtx st'.reg id (some ref)).1 = (useCtx st.reg id (some ref)).1

theorem useCtx_rc_congr {reg reg' : Registry} (hHeap : reg'.heap = reg.heap)
    (hList : reg'.ctxList = reg.ctxList) (id : UInt32) (ref : Nat) :
    (useCtx reg' id (some ref)).1 = (useCtx reg id (some ref)).1 := by
  have hFind : findCtxById reg' id = findCtxById reg id := by
    rw [findCtxById, findCtxById, hHeap, hList]
  simp only [useCtx, hFind]
  cases findCtxById reg id with
  | none => rfl
  | some c =>
    dsimp only
    rw [hHeap]
    split <;> rfl

theorem failed_add_contexts (hInv : PrivnetInv st) {mac : MacAddr}
    {inId outId : UInt32} {mem : Option (Nat × Nat)} (hMem : FreshRefs st mem)
    (hFails : (privnetAddMac st mac.val inId outId mem).1 < 0) :
    (privnetAddMac st mac.val inId outId mem).2.reg.heap = st.reg.heap ∧
      (privnetAddMac st mac.val inId outId mem).2.reg.ctxList = st.reg.ctxList := by
  cases hFind : privnetFindMac st mac.val with
  | some nid =>
    simp only [privnetAddMac, hFind]
    exact ⟨trivial, trivial⟩
  | none =>
    cases mem with
    | none =>
      simp only [privnetAddMac, hFind]
      exact ⟨trivial, trivial⟩
    | some refs =>
      have hNe := (hMem refs.1 refs.2 rfl).1
      rcases @setupNode_cases _ hInv.reg ⟨inId, refs.1, outId, refs.2⟩ hNe with
        ⟨reg', hSetup, hSame⟩ | ⟨reg', hSetup, _⟩
      · simp only [privnetAddMac, hFind, hSetup]
        exact ⟨hSame.heap, hSame.ctxList⟩
      · simp only [privnetAddMac, hFind, hSetup] at hFails
        cases hFails

/-- **A failed registration leaves no trace** exactly if it finds the nodes of
its path. -/
theorem traceless_iff (hInv : PrivnetInv st) {mac : MacAddr} {inId outId : UInt32}
    {mem : Option (Nat × Nat)} (hMem : FreshRefs st mem)
    (hFails : (privnetAddMac st mac.val inId outId mem).1 < 0) :
    Traceless st (privnetAddMac st mac.val inId outId mem).2 ↔
      Trie.HasPath 5 st.macTreeRoot mac.val := by
  obtain ⟨hHeap, hList⟩ := failed_add_contexts hInv hMem hFails
  have hTrie : (privnetAddMac st mac.val inId outId mem).2.macTreeRoot = st.macTreeRoot ↔
      Trie.HasPath 5 st.macTreeRoot mac.val := by
    rcases privnetAddMac_cases st mac inId outId mem with
      ⟨hSome, hr⟩ | ⟨hFree, _, hRoot⟩ | ⟨_, hRc, _⟩
    · rw [hr]
      exact ⟨fun _ => Trie.hasPath_of_find 5 mac.2 hSome, fun _ => rfl⟩
    · rw [hRoot]
      exact Trie.set_none_eq_iff 5 st.macTreeRoot mac.2 hFree
    · rw [hRc] at hFails
      cases hFails
  rw [← hTrie]
  exact ⟨Traceless.trie, fun h => ⟨h, hHeap, hList, useCtx_rc_congr hHeap hList⟩⟩

def PrivnetOp.FailsTraceless (st : Privnet) (op : PrivnetOp) : Prop :=
  ∀ mac inId outId mem, op = .addMac mac inId outId mem →
    (privnetAddMac st mac.val inId outId mem).1 < 0 →
      Traceless st (privnetAddMac st mac.val inId outId mem).2

/-- Registrations that fail find the nodes of their path. -/
def PrivnetOp.FailsOnPath (st : Privnet) (op : PrivnetOp) : Prop :=
  ∀ mac inId outId mem, op = .addMac mac inId outId mem →
    (privnetAddMac st mac.val inId outId mem).1 < 0 → Trie.HasPath 5 st.macTreeRoot mac.val

def NoEmptyNode (st : Privnet) : Prop := Trie.Below 5 st.macTreeRoot

/-- **One event** leaves no empty node exactly if it is not a registration that
fails before it finds its path. -/
theorem PrivnetStep.noEmptyNode_iff {aes : List UInt8 → BlockStream 128 16}
    {op : PrivnetOp} (hStep : PrivnetStep aes st op st') (h : NoEmptyNode st) :
    NoEmptyNode st' ↔ op.FailsOnPath st := by
  -- events that leave the trie alone
  have hKept : st'.macTreeRoot = st.macTreeRoot →
      (∀ mac inId outId mem, op ≠ .addMac mac inId outId mem) →
      (NoEmptyNode st' ↔ op.FailsOnPath st) := by
    intro hRoot hNot
    rw [NoEmptyNode, hRoot]
    exact ⟨fun _ mac inId outId mem hOp => absurd hOp (hNot mac inId outId mem), fun _ => h⟩
  cases hStep with
  | newCtx c keySize dir pid hFree => exact hKept rfl (fun _ _ _ _ => nofun)
  | setActivated c activated => exact hKept rfl (fun _ _ _ _ => nofun)
  | setKey c key ctr => exact hKept rfl (fun _ _ _ _ => nofun)
  | destroy c => exact hKept rfl (fun _ _ _ _ => nofun)
  | pidDeath pid => exact hKept rfl (fun _ _ _ _ => nofun)
  | receive fails skb => exact hKept (macTreeRoot_cryptSkb _ true _ _) (fun _ _ _ _ => nofun)
  | transmit fails skb => exact hKept (macTreeRoot_cryptSkb _ false _ _) (fun _ _ _ _ => nofun)
  | removeMac mac =>
    refine ⟨fun _ _ _ _ _ => nofun, fun _ => ?_⟩
    unfold NoEmptyNode privnetRemoveMac
    cases privnetFindMac st mac.val with
    | none => exact h
    | some nid => exact Trie.below_remove mem_nextBytes 5 mac.val h
  | addMac mac inId outId mem hMem =>
    have hOnPath : PrivnetOp.FailsOnPath st (.addMac mac inId outId mem) ↔
        ((privnetAddMac st mac.val inId outId mem).1 < 0 →
          Trie.HasPath 5 st.macTreeRoot mac.val) := by
      constructor
      · intro hAll
        exact hAll mac inId outId mem rfl
      · rintro hOne _ _ _ _ ⟨⟩
        exact hOne
    rw [hOnPath, NoEmptyNode]
    rcases privnetAddMac_cases st mac inId outId mem with
      ⟨hSome, hr⟩ | ⟨hFree, hRc, hRoot⟩ | ⟨_, hRc, inRef, outRef, hRoot⟩
    · rw [hr]
      exact ⟨fun _ _ => Trie.hasPath_of_find 5 mac.2 hSome, fun _ => h⟩
    · rw [hRoot]
      refine ⟨fun hBelow _ => Trie.hasPath_of_below_set 5 mac.2 hBelow, fun hPath => ?_⟩
      rw [(Trie.set_none_eq_iff 5 st.macTreeRoot mac.2 hFree).mpr (hPath hRc)]
      exact h
    · rw [hRoot, Trie.set_set]
      refine ⟨fun _ hNeg => ?_, fun _ => (Trie.pruned_set 5 h mac.2 _).2⟩
      rw [hRc] at hNeg
      cases hNeg

/-- **Registrations that fail leave no trace**, and equally no node below the root is ever
without children, exactly if each finds the nodes of its path. -/
theorem failed_add_traceless_iff {aes : List UInt8 → BlockStream 128 16} {reg : Registry}
    {tr : Trace Privnet PrivnetOp} (hFresh : reg.ctxList = [])
    (hTr : IsTrace (PrivnetStep aes) ⟨reg, Trie.empty 5⟩ tr) :
    (EachStep (fun st op => op.FailsTraceless st) ⟨reg, Trie.empty 5⟩ tr ↔
        EachStep (fun st op => op.FailsOnPath st) ⟨reg, Trie.empty 5⟩ tr) ∧
      (EachState NoEmptyNode ⟨reg, Trie.empty 5⟩ tr ↔
        EachStep (fun st op => op.FailsOnPath st) ⟨reg, Trie.empty 5⟩ tr) := by
  have hInv : PrivnetInv ⟨reg, Trie.empty 5⟩ :=
    FreshPrivnet.inv ⟨hFresh, fun mac => Trie.find_empty 5 mac.val⟩
  constructor
  · have hIff : ∀ st op st', PrivnetInv st → PrivnetStep aes st op st' →
        (op.FailsTraceless st ↔ op.FailsOnPath st) := by
      intro st op st' hInv hStep
      refine forall₄_congr fun mac inId outId mem => ?_
      constructor
      · rintro hOp rfl hFails
        cases hStep with
        | addMac _ _ _ _ hMem => exact (traceless_iff hInv hMem hFails).mp (hOp rfl hFails)
      · rintro hOp rfl hFails
        cases hStep with
        | addMac _ _ _ _ hMem => exact (traceless_iff hInv hMem hFails).mpr (hOp rfl hFails)
    have hStep : ∀ st op st', PrivnetInv st → PrivnetStep aes st op st' → op.FailsOnPath st →
        op.FailsTraceless st ∧ PrivnetInv st' := by
      intro st op st' hInv hStep hPath
      exact ⟨(hIff st op st' hInv hStep).mpr hPath, hStep.inv hInv⟩
    exact eachStep_iff_of_inv hStep (fun st op st' hInv hStep h => (hIff st op st' hInv hStep).mp h)
      hInv hTr
  · have hStep : ∀ st op st', NoEmptyNode st → PrivnetStep aes st op st' → op.FailsOnPath st →
        NoEmptyNode st' := fun st op st' h hStep hPath => (hStep.noEmptyNode_iff h).mpr hPath
    exact eachState_iff_of_inv (fun _ => id) hStep
      (fun st op st' h hStep hNext => (hStep.noEmptyNode_iff h).mp hNext) (Trie.below_empty 5) hTr

/-- An address is to be registered with contexts that do not exist: five nodes
are left. -/
theorem failed_add_leaves_nodes :
    (privnetAddMac emptyPrivnet sampleMac.val 1 2 (some (10, 11))).1 = -1 ∧
      ¬ Traceless emptyPrivnet (privnetAddMac emptyPrivnet sampleMac.val 1 2 (some (10, 11))).2 := by
  refine ⟨rfl, fun h => ?_⟩
  have hNode := congrFun (congrArg Trie.next h.trie) 2
  cases hNode

theorem failed_add_beside :
    ∃ tr : Trace Privnet PrivnetOp, tr.map Prod.fst =
        [.newCtx 1 16 .enc 7, .newCtx 2 16 .dec 7, .addMac sampleMac 1 2 (some (10, 11)),
          .addMac siblingMac 3 4 none] ∧
      EachStep (fun st op => op.FailsTraceless st) emptyPrivnet tr ∧
      EachState NoEmptyNode emptyPrivnet tr := by
  have hTr : IsTrace (PrivnetStep onesCipher) emptyPrivnet
      [(.newCtx 1 16 .enc 7, _), (.newCtx 2 16 .dec 7, _),
        (.addMac sampleMac 1 2 (some (10, 11)), _), (.addMac siblingMac 3 4 none, _)] :=
    ⟨.newCtx _ _ _ _ _ rfl, .newCtx _ _ _ _ _ rfl,
      .addMac _ _ _ _ _ (freshRefs_of_empty rfl (by decide)), .addMac _ _ _ _ _ nofun, trivial⟩
  obtain ⟨hTraceless, hNoEmpty⟩ := failed_add_traceless_iff rfl hTr
  refine ⟨_, rfl, hTraceless.mpr ?path, hNoEmpty.mpr ?path⟩
  refine ⟨nofun, nofun, ?_, ?_, trivial⟩
  · rintro _ _ _ _ ⟨⟩ hFails
    cases hFails
  · rintro _ _ _ _ ⟨⟩ _
    exact ⟨_, rfl, _, rfl, _, rfl, _, rfl, _, rfl, trivial⟩

end Lacuna.Net
