import Lacuna.Crypt.Control

/-!
# The list of contexts

What is on `ctx_list` when a process dies, and under which names.
`priv_pid_death_action` deletes from the list it walks, and nevertheless visits
every context that was there (`pid_death_exact`). Ids are an `int` counter, so
that contexts have different ones for a limited time (`context_ids_iff`).
-/

namespace Lacuna.Crypt

open Lacuna.Lib Lacuna.Kex Function List

/-! ## The death of a process -/

def Doomed (reg : Registry) (pid c : Nat) : Prop := c ∈ reg.ctxList ∧ (reg.heap c).allocPid = pid

/-- What is left when the contexts of `pid` have gone. -/
structure CleanedUp (reg : Registry) (pid : Nat) (reg' : Registry) : Prop where
  /-- the others are listed as they were -/
  list : reg'.ctxList = reg.ctxList.filter fun c => (reg.heap c).allocPid ≠ pid
  destroyed : ∀ c, Doomed reg pid c → reg'.allocated c = false
  kept : ∀ c, ¬ Doomed reg pid c →
    reg'.heap c = reg.heap c ∧ reg'.allocated c = reg.allocated c
  cut : ∀ ref c, reg.refs ref = some c → Doomed reg pid c → reg'.refs ref = none
  bound : ∀ ref, (∀ c, reg.refs ref = some c → ¬ Doomed reg pid c) → reg'.refs ref = reg.refs ref

def nextCtx (ctxList : List Nat) (c : Nat) : Option Nat := (ctxList.dropWhile (· ≠ c)).tail.head?

/-- `list_for_each_entry_safe` of `priv_pid_death_action`: the next entry is looked up before
`cctx` is taken out. -/
def pidDeathLoop (pid : Nat) : Nat → Option Nat → Registry → Registry
  | 0, _, reg => reg
  | _ + 1, none, reg => reg
  | turns + 1, some c, reg =>
    pidDeathLoop pid turns (nextCtx reg.ctxList c)
      (if (reg.heap c).allocPid = pid then destroyCtx reg c else reg)

/-- `priv_pid_death_action`, along the links of the list. -/
def privPidDeathLoop (reg : Registry) (pid : Nat) : Registry :=
  pidDeathLoop pid reg.ctxList.length reg.ctxList.head? reg

section Death

variable {reg : Registry} {pid : Nat}

variable {c x : Nat}

theorem nextCtx_append {pre rest : List Nat} (h : c ∉ pre) :
    nextCtx (pre ++ c :: rest) c = rest.head? := by
  have hDrop : (pre ++ c :: rest).dropWhile (· ≠ c) = c :: rest := by
    induction pre with
    | nil => simp
    | cons x pre ih =>
      obtain ⟨hNe, hRest⟩ := not_or.mp (mt List.mem_cons.mpr h)
      rw [cons_append, dropWhile_cons, if_pos (by simpa using Ne.symm hNe), ih hRest]
  rw [nextCtx, hDrop, tail_cons]

theorem erase_append_cons {pre rest : List Nat} (h : c ∉ pre) :
    (pre ++ c :: rest).erase c = pre ++ rest := by
  rw [erase_append_right _ h, erase_cons_head]

/-- The contexts of `pid` among `cs`, taken out one by one. -/
def killAll (pid : Nat) (cs : List Nat) (reg : Registry) : Registry :=
  cs.foldl (fun reg c => if (reg.heap c).allocPid = pid then destroyCtx reg c else reg) reg

theorem killAll_cons_of_pid (cs : List Nat) (h : (reg.heap c).allocPid = pid) :
    killAll pid (c :: cs) reg = killAll pid cs (destroyCtx reg c) := by
  rw [killAll, foldl_cons, if_pos h, killAll]

theorem killAll_cons_of_ne (cs : List Nat) (h : (reg.heap c).allocPid ≠ pid) :
    killAll pid (c :: cs) reg = killAll pid cs reg := by
  rw [killAll, foldl_cons, if_neg h, killAll]

/-- The list is what has been walked and kept, `pre`, and what is still to come. -/
theorem pidDeathLoop_eq (pid : Nat) (cs pre : List Nat) (hNodup : (pre ++ cs).Nodup)
    (hList : reg.ctxList = pre ++ cs) :
    pidDeathLoop pid cs.length cs.head? reg = killAll pid cs reg := by
  induction cs generalizing reg pre with
  | nil => rfl
  | cons c cs ih =>
    have hNotIn : c ∉ pre := by
      intro hIn
      exact (List.nodup_append.mp hNodup).2.2 c hIn c mem_cons_self rfl
    rw [length_cons, List.head?_cons, pidDeathLoop, hList, nextCtx_append hNotIn]
    by_cases hPid : (reg.heap c).allocPid = pid
    · rw [if_pos hPid, killAll_cons_of_pid cs hPid]
      have hRest : (pre ++ cs).Nodup := by
        rw [← erase_append_cons hNotIn]
        exact hNodup.erase c
      refine ih pre hRest ?_
      rw [ctxList_destroyCtx, hList, erase_append_cons hNotIn]
    · rw [if_neg hPid, killAll_cons_of_ne cs hPid]
      have hSplit : pre ++ c :: cs = (pre ++ [c]) ++ cs := by
        rw [append_assoc, singleton_append]
      rw [hSplit] at hNodup hList
      exact ih _ hNodup hList

theorem privPidDeathLoop_eq (hNodup : reg.ctxList.Nodup) (pid : Nat) :
    privPidDeathLoop reg pid = privPidDeathAction reg pid :=
  pidDeathLoop_eq pid reg.ctxList [] hNodup rfl

theorem allocPid_destroyCtx (reg : Registry) (c c' : Nat) :
    ((destroyCtx reg c).heap c').allocPid = (reg.heap c').allocPid := by
  by_cases hc : c' = c
  · subst hc
    simp only [destroyCtx, removeCtx, destroyCryptoCtx]
    split
    · simp [Registry.setRef, Registry.modifyCtx]
    · rfl
  · rw [heap_destroyCtx hc]

theorem userRef_destroyCtx_self (reg : Registry) (c : Nat) :
    ((destroyCtx reg c).heap c).userRef = none := by
  simp only [destroyCtx, removeCtx, destroyCryptoCtx]
  split
  · simp [Registry.setRef, Registry.modifyCtx]
  · rename_i hNone
    exact hNone

theorem ctxList_killAll (cs pre : List Nat) (hList : reg.ctxList = pre ++ cs)
    (hPre : ∀ c ∈ pre, (reg.heap c).allocPid ≠ pid) :
    (killAll pid cs reg).ctxList = pre ++ cs.filter fun c => (reg.heap c).allocPid ≠ pid := by
  induction cs generalizing reg pre with
  | nil => exact hList
  | cons c cs ih =>
    by_cases hPid : (reg.heap c).allocPid = pid
    · have hNotIn : c ∉ pre := fun hIn => hPre c hIn hPid
      have hStep : (destroyCtx reg c).ctxList = pre ++ cs := by
        rw [ctxList_destroyCtx, hList, erase_append_cons hNotIn]
      rw [killAll_cons_of_pid cs hPid, ih pre hStep fun c' hc' => by
        rw [allocPid_destroyCtx]
        exact hPre c' hc']
      simp only [allocPid_destroyCtx]
      rw [filter_cons_of_neg (by simp [hPid])]
    · have hStep : reg.ctxList = (pre ++ [c]) ++ cs := by
        rw [hList, append_assoc, singleton_append]
      have hPre' : ∀ c' ∈ pre ++ [c], (reg.heap c').allocPid ≠ pid := by
        intro c' hc'
        rcases List.mem_append.mp hc' with hc' | hc'
        · exact hPre c' hc'
        · rwa [List.mem_singleton.mp hc']
      rw [killAll_cons_of_ne cs hPid, ih _ hStep hPre', filter_cons_of_pos (by simp [hPid]),
        append_assoc, singleton_append]

theorem killAll_kept (cs : List Nat) (h : ¬ (x ∈ cs ∧ (reg.heap x).allocPid = pid)) :
    (killAll pid cs reg).heap x = reg.heap x ∧
      (killAll pid cs reg).allocated x = reg.allocated x := by
  induction cs generalizing reg with
  | nil => exact ⟨rfl, rfl⟩
  | cons c cs ih =>
    have hRest : ¬ (x ∈ cs ∧ (reg.heap x).allocPid = pid) := fun hx =>
      h ⟨mem_cons_of_mem c hx.1, hx.2⟩
    by_cases hPid : (reg.heap c).allocPid = pid
    · have hNe : x ≠ c := by
        rintro rfl
        exact h ⟨mem_cons_self, hPid⟩
      rw [← allocPid_destroyCtx reg c] at hRest
      obtain ⟨hHeap, hAlloc⟩ := ih hRest
      rw [killAll_cons_of_pid cs hPid]
      refine ⟨hHeap.trans (heap_destroyCtx hNe), hAlloc.trans ?_⟩
      rw [allocated_destroyCtx, update_of_ne hNe]
    · rw [killAll_cons_of_ne cs hPid]
      exact ih hRest

theorem killAll_freed (cs : List Nat) (hFree : reg.allocated x = false) :
    (killAll pid cs reg).allocated x = false := by
  induction cs generalizing reg with
  | nil => exact hFree
  | cons c cs ih =>
    by_cases hPid : (reg.heap c).allocPid = pid
    · rw [killAll_cons_of_pid cs hPid]
      refine ih ?_
      rw [allocated_destroyCtx]
      by_cases hx : x = c
      · rw [hx, update_self]
      · rw [update_of_ne hx, hFree]
    · rw [killAll_cons_of_ne cs hPid]
      exact ih hFree

theorem killAll_destroyed (cs : List Nat) (hIn : x ∈ cs)
    (hPidX : (reg.heap x).allocPid = pid) : (killAll pid cs reg).allocated x = false := by
  induction cs generalizing reg with
  | nil => cases hIn
  | cons c cs ih =>
    by_cases hx : x = c
    · subst hx
      rw [killAll_cons_of_pid cs hPidX]
      refine killAll_freed cs ?_
      rw [allocated_destroyCtx, update_self]
    · have hIn : x ∈ cs := (List.mem_cons.mp hIn).resolve_left hx
      by_cases hPid : (reg.heap c).allocPid = pid
      · rw [killAll_cons_of_pid cs hPid]
        exact ih hIn (by rwa [allocPid_destroyCtx])
      · rw [killAll_cons_of_ne cs hPid]
        exact ih hIn hPidX

theorem refs_killAll (cs : List Nat) (r : Nat) :
    ((∃ c ∈ cs, (reg.heap c).allocPid = pid ∧ (reg.heap c).userRef = some r) →
        (killAll pid cs reg).refs r = none) ∧
      ((∀ c ∈ cs, (reg.heap c).allocPid = pid → (reg.heap c).userRef ≠ some r) →
        (killAll pid cs reg).refs r = reg.refs r) := by
  induction cs generalizing reg with
  | nil =>
    refine ⟨?_, fun _ => rfl⟩
    rintro ⟨_, hIn, -⟩
    cases hIn
  | cons c cs ih =>
    by_cases hPid : (reg.heap c).allocPid = pid
    · rw [killAll_cons_of_pid cs hPid]
      obtain ⟨hCut, hKeep⟩ := @ih (destroyCtx reg c)
      -- an entry further on is another context, or it is `c` and names nothing any more
      have hLater : ∀ c' ∈ cs, ((destroyCtx reg c).heap c').userRef = some r →
          c' ≠ c ∧ (reg.heap c').userRef = some r := by
        intro c' _ hUser
        have hNe : c' ≠ c := by
          rintro rfl
          rw [userRef_destroyCtx_self] at hUser
          cases hUser
        rw [heap_destroyCtx hNe] at hUser
        exact ⟨hNe, hUser⟩
      by_cases hLaterCut : ∃ c' ∈ cs, ((destroyCtx reg c).heap c').allocPid = pid ∧
          ((destroyCtx reg c).heap c').userRef = some r
      · refine ⟨fun _ => hCut hLaterCut, fun hNone => ?_⟩
        obtain ⟨c', hIn, hPid', hUser⟩ := hLaterCut
        rw [allocPid_destroyCtx] at hPid'
        exact absurd (hLater c' hIn hUser).2 (hNone c' (mem_cons_of_mem c hIn) hPid')
      · have hSame := hKeep fun c' hIn hPid' hUser => hLaterCut ⟨c', hIn, hPid', hUser⟩
        rw [hSame, refs_destroyCtx]
        refine ⟨fun ⟨c', hIn, hPid', hUser⟩ => ?_, fun hNone => ?_⟩
        · by_cases hc : c' = c
          · rw [← hc, if_pos hUser]
          · refine absurd ⟨c', (List.mem_cons.mp hIn).resolve_left hc, ?_, ?_⟩ hLaterCut
            · rwa [heap_destroyCtx hc]
            · rwa [heap_destroyCtx hc]
        · rw [if_neg (hNone c mem_cons_self hPid)]
    · rw [killAll_cons_of_ne cs hPid]
      obtain ⟨hCut, hKeep⟩ := @ih reg
      refine ⟨fun ⟨c', hIn, hPid', hUser⟩ => hCut ⟨c', ?_, hPid', hUser⟩, fun hNone => hKeep
        fun c' hIn => hNone c' (mem_cons_of_mem c hIn)⟩
      refine (List.mem_cons.mp hIn).resolve_left ?_
      rintro rfl
      exact hPid hPid'

end Death

/-- **The death of a process.** If references and contexts name each other, exactly the contexts
of the process go, and the references that named them. -/
theorem pid_death_exact {reg : Registry}
    (hAgree : ∀ ref c, reg.refs ref = some c ↔ c ∈ reg.ctxList ∧ (reg.heap c).userRef = some ref)
    (pid : Nat) :
    CleanedUp reg pid (privPidDeathAction reg pid) ∧
      (reg.ctxList.Nodup → privPidDeathLoop reg pid = privPidDeathAction reg pid) := by
  refine ⟨⟨?list, ?destroyed, ?kept, ?cut, ?bound⟩, fun hNodup => privPidDeathLoop_eq hNodup pid⟩
  case list => exact ctxList_killAll reg.ctxList [] rfl fun c hc => nomatch hc
  case destroyed => exact fun c hDoomed => killAll_destroyed reg.ctxList hDoomed.1 hDoomed.2
  case kept => exact fun c hNot => killAll_kept reg.ctxList hNot
  case cut =>
    intro ref c hRef hDoomed
    exact (refs_killAll reg.ctxList ref).1 ⟨c, hDoomed.1, hDoomed.2, ((hAgree ref c).mp hRef).2⟩
  case bound =>
    intro ref hOthers
    refine (refs_killAll reg.ctxList ref).2 fun c hIn hPid hUser => ?_
    exact hOthers c ((hAgree ref c).mpr ⟨hIn, hUser⟩) ⟨hIn, hPid⟩

def twoProcesses : Registry :=
  { emptyRegistry with
    heap := fun c => { emptyRegistry.heap c with
      allocPid := if c = 100 then 7 else 8
      userRef := if c = 100 then some 1 else some 2 }
    allocated := fun c => c = 100 ∨ c = 101
    ctxList := [101, 100]
    refs := fun ref => if ref = 1 then some 100 else if ref = 2 then some 101 else none }

theorem pid_death_two :
    CleanedUp twoProcesses 7 (privPidDeathAction twoProcesses 7) ∧
      (privPidDeathAction twoProcesses 7).ctxList = [101] ∧
      (privPidDeathAction twoProcesses 7).refs 1 = none ∧
      (privPidDeathAction twoProcesses 7).refs 2 = some 101 := by
  refine ⟨(pid_death_exact (fun ref c => ?_) 7).1, by decide, by decide, by decide⟩
  simp only [twoProcesses, mem_cons, not_mem_nil, or_false]
  grind

/-! ## Ids -/

def Registry.ids (reg : Registry) : List UInt32 := reg.ctxList.map fun c => (reg.heap c).id

/-- `make_crypto_ctx` completes the context `c` in a `NEW_CTX`. -/
def Completes (d : Control) (arg : Option AlgDesc) (env : MakeEnv) (c : Nat) : Prop :=
  ∃ desc, arg = some desc ∧ (d.makeCryptoCtx desc env).2.1 = some c

/-- `NEW_CTX` stores what it has made, and reports success if it has stored
something. -/
structure NewCtxStores (d : Control) (f pid : Nat) (arg : Option AlgDesc) (env : MakeEnv)
    (junk : Nat) : Prop where
  stored : ∀ c, Completes d arg env c →
    (d.doNewCtx f pid arg env junk).2.2.reg.ctxList = c :: d.reg.ctxList
  reported : (∃ rc, 0 ≤ rc ∧ (d.doNewCtx f pid arg env junk).1 = .ret rc) ↔
    ∃ c, Completes d arg env c ∧
      (d.doNewCtx f pid arg env junk).2.2.reg.ctxList = c :: d.reg.ctxList

/-- Listed contexts have different ids, and `NEW_CTX` does as it says. -/
def ControlOp.Identifies (tls : Tls1Prf) (d : Control) (op : ControlOp) : Prop :=
  (op.run tls d).reg.ids.Nodup ∧
    match op with
    | .ioctl f (.newCtx pid arg env junk) => NewCtxStores d f pid arg env junk
    | _ => True

/-- The id is positive as an `int`, and `kex_buf` is not the first allocation to fail. -/
def ControlOp.CountsUp (d : Control) : ControlOp → Prop
  | .ioctl _ (.newCtx _ arg env _) =>
    (∀ desc, arg = some desc → env.kexBuf = none → env.Fails desc) ∧
      ∀ c, Completes d arg env c → d.reg.lastId.toNat + 1 < 2 ^ 31
  | _ => True

structure SameIds (reg reg' : Registry) : Prop where
  lastId : reg'.lastId = reg.lastId
  sublist : reg'.ctxList.Sublist reg.ctxList
  id : ∀ c, (reg'.heap c).id = (reg.heap c).id

section SameIds

variable {reg reg' : Registry}

theorem SameIds.refl (reg : Registry) : SameIds reg reg := ⟨rfl, List.Sublist.refl _, fun _ => rfl⟩

theorem SameIds.trans {reg'' : Registry} (h : SameIds reg reg') (h' : SameIds reg' reg'') :
    SameIds reg reg'' :=
  ⟨h'.lastId.trans h.lastId, h'.sublist.trans h.sublist, fun c => (h'.id c).trans (h.id c)⟩

theorem sameIds_modifyCtx (reg : Registry) (c : Nat) {f : PrivCryptCtx → PrivCryptCtx}
    (hId : (f (reg.heap c)).id = (reg.heap c).id) : SameIds reg (reg.modifyCtx c f) := by
  refine ⟨rfl, List.Sublist.refl _, fun c' => ?_⟩
  by_cases hc : c' = c
  · subst hc
    simpa only [Registry.modifyCtx, update_self] using hId
  · simp only [Registry.modifyCtx, update_of_ne hc]

theorem sameIds_unuseCtx (reg : Registry) (ref : Nat) : SameIds reg (unuseCtx reg (some ref)) := by
  unfold unuseCtx
  dsimp only
  split
  · exact ⟨rfl, List.Sublist.refl _, fun _ => rfl⟩
  · rename_i c _
    obtain ⟨hLast, hSub, hId⟩ := sameIds_modifyCtx reg c
      (f := fun k => { k with userRef := none, userLock := false }) rfl
    exact ⟨hLast, hSub, hId⟩

theorem sameIds_useCtx (reg : Registry) (id : UInt32) (ref : Nat) :
    SameIds reg (useCtx reg id (some ref)).2 := by
  unfold useCtx
  dsimp only
  split
  · exact SameIds.refl reg
  · rename_i c _
    split
    · exact SameIds.refl reg
    · obtain ⟨hLast, hSub, hId⟩ := sameIds_modifyCtx reg c
        (f := fun k => { k with userLock := true, userRef := some ref }) rfl
      exact ⟨hLast, hSub, hId⟩

theorem sameIds_destroyCtx (reg : Registry) (c : Nat) : SameIds reg (destroyCtx reg c) := by
  refine ⟨?_, ?_, fun c' => ?_⟩
  · simp only [destroyCtx, removeCtx, destroyCryptoCtx]
    split <;> rfl
  · rw [ctxList_destroyCtx]
    exact erase_sublist
  · simp only [destroyCtx, removeCtx, destroyCryptoCtx]
    split
    · exact (sameIds_modifyCtx reg c (f := fun k => { k with userRef := none }) rfl).id c'
    · rfl

theorem sameIds_killAll (reg : Registry) (pid : Nat) (cs : List Nat) :
    SameIds reg (killAll pid cs reg) := by
  induction cs generalizing reg with
  | nil => exact SameIds.refl reg
  | cons c cs ih =>
    by_cases hPid : (reg.heap c).allocPid = pid
    · rw [killAll_cons_of_pid cs hPid]
      exact (sameIds_destroyCtx reg c).trans (ih _)
    · rw [killAll_cons_of_ne cs hPid]
      exact ih reg

end SameIds

theorem sameIds_doSetIv (d : Control) (f : Nat) (arg : Option IvDesc) :
    SameIds d.reg (d.doSetIv f arg).2.2.reg := by
  unfold Control.doSetIv
  split
  · exact SameIds.refl _
  · rename_i c _
    split
    · exact SameIds.refl _
    · rename_i desc
      refine sameIds_modifyCtx d.reg c (f := fun k => (Control.privSetIv desc k).2) ?_
      unfold Control.privSetIv
      split <;> rfl

theorem sameIds_doSetActivated (d : Control) (f : Nat) (activated : Bool) :
    SameIds d.reg (d.doSetActivated f activated).2.2.reg := by
  unfold Control.doSetActivated
  split
  · exact SameIds.refl _
  · rename_i c _
    exact sameIds_modifyCtx d.reg c (f := fun k => privSetActivated k activated) rfl

theorem sameIds_doKex {tls : Tls1Prf} (d : Control) (f : Nat) (env : KernEnv) (inBuf : List UInt8) :
    SameIds d.reg (d.doKex tls f env inBuf).2.2.reg := by
  unfold Control.doKex
  split
  · exact SameIds.refl _
  split
  · exact SameIds.refl _
  split
  · exact SameIds.refl _
  · rename_i c _
    obtain ⟨key, kexBuf, hKey⟩ := kexIoctl_frame tls env (d.kexCctx c) inBuf
    refine sameIds_modifyCtx d.reg c
      (f := fun _ => (kexIoctl tls env (d.kexCctx c) inBuf).2.cctx) ?_
    rw [hKey]
    rfl

theorem sameIds_run {tls : Tls1Prf} (d : Control) {op : ControlOp}
    (hOther : ∀ f pid arg env junk, op ≠ .ioctl f (.newCtx pid arg env junk)) :
    SameIds d.reg (op.run tls d).reg := by
  cases op with
  | openFile f => exact SameIds.refl _
  | pidDeath pid => exact sameIds_killAll d.reg pid d.reg.ctxList
  | deviceCctxIdStore ref id => exact (sameIds_unuseCtx d.reg ref).trans (sameIds_useCtx _ id ref)
  | ioctl f cmd =>
    cases cmd with
    | newCtx pid arg env junk => exact absurd rfl (hOther f pid arg env junk)
    | useCtx arg =>
      show SameIds d.reg (d.doUseCtx f arg).2.2.reg
      unfold Control.doUseCtx
      split
      · exact SameIds.refl _
      · split <;> exact SameIds.refl _
    | setIv arg => exact sameIds_doSetIv d f arg
    | activate => exact sameIds_doSetActivated d f true
    | deactivate => exact sameIds_doSetActivated d f false
    | keyExchange env inBuf => exact sameIds_doKex d f env inBuf
    | destroy =>
      show SameIds d.reg (d.doDestroy f).2.2.reg
      unfold Control.doDestroy
      split
      · exact SameIds.refl _
      · exact sameIds_destroyCtx d.reg _
    | other => exact SameIds.refl _

section NewCtx

variable {d : Control} {f pid junk : Nat} {arg : Option AlgDesc} {env : MakeEnv}

theorem Completes.not_of_none {desc : AlgDesc} (h : (d.makeCryptoCtx desc env).2.1 = none) (c : Nat) :
    ¬ Completes d (some desc) env c := by
  rintro ⟨_, hArg, hSome⟩
  cases hArg
  rw [h] at hSome
  cases hSome

/-- `NEW_CTX` fails and makes nothing; has a context, which it stores if the id is not negative;
or stores a pointer that was never set. -/
theorem doNewCtx_ends (d : Control) (f pid junk : Nat) (arg : Option AlgDesc) (env : MakeEnv) :
    ((∀ c, ¬ Completes d arg env c) ∧ ∃ rc < 0, d.doNewCtx f pid arg env junk = d.refuse rc) ∨
    (∃ c desc kexBuf, env.ctx = some c ∧ env.kexBuf = some kexBuf ∧ Completes d arg env c ∧
      d.doNewCtx f pid arg env junk = let rc := (d.reg.lastId + 1).toBitVec.toInt
        if rc < 0 then (d.addCtx c desc kexBuf).refuse rc
        else (.ret rc, some c, (d.addCtx c desc kexBuf).storeCtx f pid c)) ∨
    ∃ desc, arg = some desc ∧ env.kexBuf = none ∧ ¬ env.Fails desc ∧
      (∀ c, ¬ Completes d arg env c) ∧
      d.doNewCtx f pid arg env junk = (.ret 0, some junk, d.storeCtx f pid junk) := by
  cases arg with
  | none =>
    refine .inl ⟨?_, -EFAULT, by decide, rfl⟩
    rintro c ⟨_, hNone, -⟩
    cases hNone
  | some desc =>
    rcases makeCryptoCtx_cases d desc env with ⟨-, rc, hNeg, hMake⟩ | ⟨hNot, hBuf, hMake⟩ |
      ⟨-, c, kexBuf, hCtx, hBuf, hMake⟩
    · refine .inl ⟨Completes.not_of_none (by rw [hMake]), rc, hNeg, ?_⟩
      simp only [Control.doNewCtx, hMake, if_pos hNeg]
    · exact .inr (.inr ⟨desc, rfl, hBuf, hNot, Completes.not_of_none (by rw [hMake]),
        doNewCtx_junk hBuf hNot⟩)
    · refine .inr (.inl ⟨c, desc, kexBuf, hCtx, hBuf, ⟨desc, rfl, by rw [hMake]⟩, ?_⟩)
      simp only [Control.doNewCtx, hMake, Option.getD_some]

theorem toNat_nextId {lastId : UInt32} (h : lastId.toNat < 2 ^ 31) :
    (lastId + 1).toNat = lastId.toNat + 1 := by
  rw [UInt32.toNat_add]
  exact Nat.mod_eq_of_lt (Nat.lt_of_le_of_lt h (by decide))

theorem nextId_neg_iff {lastId : UInt32} (h : lastId.toNat < 2 ^ 31) :
    (lastId + 1).toBitVec.toInt < 0 ↔ ¬ lastId.toNat + 1 < 2 ^ 31 := by
  rw [BitVec.toInt_eq_toNat_cond, UInt32.toNat_toBitVec, toNat_nextId h]
  split <;> omega

end NewCtx

/-- The listed ids are different ones that have been given. -/
structure IdInv (d : Control) : Prop where
  list : ListInv d.reg
  counter : d.reg.lastId.toNat < 2 ^ 31
  given : ∀ c ∈ d.reg.ctxList, (d.reg.heap c).id.toNat ≤ d.reg.lastId.toNat
  nodup : d.reg.ids.Nodup

section IdInv

variable {tls : Tls1Prf} {d d' : Control}

theorem IdInv.of_sameIds (h : IdInv d) (hList : ListInv d'.reg) (hSame : SameIds d.reg d'.reg) :
    IdInv d' where
  list := hList
  counter := hSame.lastId ▸ h.counter
  given c hc := by
    rw [hSame.id, hSame.lastId]
    exact h.given c (hSame.sublist.subset hc)
  nodup := by
    have hIds : d'.reg.ids = d'.reg.ctxList.map fun c => (d.reg.heap c).id :=
      map_congr_left fun c _ => hSame.id c
    rw [hIds]
    exact (hSame.sublist.map _).nodup h.nodup

theorem IdInv.store (h : IdInv d) {f pid c : Nat} {desc : AlgDesc} {kexBuf : List UInt8}
    (hFree : d.reg.allocated c = false) (hNext : d.reg.lastId.toNat + 1 < 2 ^ 31) :
    IdInv ((d.addCtx c desc kexBuf).storeCtx f pid c) := by
  have hNotIn : c ∉ d.reg.ctxList := fun hIn => by
    rw [h.list.listed c hIn] at hFree
    cases hFree
  have hNat := toNat_nextId h.counter
  have hSelf : (((d.addCtx c desc kexBuf).storeCtx f pid c).reg.heap c).id = d.reg.lastId + 1 := by
    simp [Control.storeCtx, Control.addCtx, Control.modifyCtx, Registry.modifyCtx, Control.setFile,
      makeCryptoCtx]
  have hOther : ∀ c' ∈ d.reg.ctxList,
      (((d.addCtx c desc kexBuf).storeCtx f pid c).reg.heap c').id = (d.reg.heap c').id := by
    intro c' hIn
    have hNe : c' ≠ c := fun hEq => hNotIn (hEq ▸ hIn)
    simp [Control.storeCtx, Control.addCtx, Control.modifyCtx, Registry.modifyCtx, Control.setFile,
      makeCryptoCtx, update_of_ne hNe]
  refine ⟨h.list.store hFree (.inr rfl) rfl, by rwa [← hNat] at hNext, fun c' hc' => ?_, ?_⟩
  · show _ ≤ (d.reg.lastId + 1).toNat
    rw [hNat]
    rcases List.mem_cons.mp hc' with rfl | hIn
    · rw [hSelf, hNat]
    · rw [hOther c' hIn]
      exact Nat.le_succ_of_le (h.given c' hIn)
  · have hIds : ((d.addCtx c desc kexBuf).storeCtx f pid c).reg.ids =
        (d.reg.lastId + 1) :: d.reg.ids := by
      show ((c :: d.reg.ctxList).map _) = _
      rw [map_cons, hSelf]
      exact congrArg _ (map_congr_left hOther)
    rw [hIds]
    refine List.nodup_cons.mpr ⟨fun hIn => ?_, h.nodup⟩
    -- the new id is above all that have been given
    obtain ⟨c', hIn', hEq⟩ := List.mem_map.mp hIn
    have hLe := h.given c' hIn'
    rw [hEq, hNat] at hLe
    omega

/-- **`NEW_CTX`.** It does as it says exactly if the id counts up. -/
theorem IdInv.newCtx (h : IdInv d) {f pid junk : Nat} {arg : Option AlgDesc} {env : MakeEnv}
    (hFree : ∀ c, env.ctx = some c → d.reg.allocated c = false) :
    ((ControlOp.ioctl f (.newCtx pid arg env junk)).CountsUp d →
      NewCtxStores d f pid arg env junk ∧ IdInv (d.doNewCtx f pid arg env junk).2.2) ∧
    (NewCtxStores d f pid arg env junk →
      (ControlOp.ioctl f (.newCtx pid arg env junk)).CountsUp d) := by
  rcases doNewCtx_ends d f pid junk arg env with ⟨hNone, rc, hNeg, hNew⟩ |
    ⟨c, desc, kexBuf, hCtx, hBuf, hDone, hNew⟩ | ⟨desc, hArg, hBuf, hNot, hNone, hNew⟩
  case inl =>
    have hCounts : (ControlOp.ioctl f (.newCtx pid arg env junk)).CountsUp d := by
      refine ⟨fun desc hArg hBuf => ?_, fun c hDone => absurd hDone (hNone c)⟩
      by_contra hNot
      subst hArg
      rw [doNewCtx_junk hBuf hNot] at hNew
      cases hNew
    refine ⟨fun _ => ⟨⟨fun c hDone => absurd hDone (hNone c), ?_⟩, hNew ▸ h⟩, fun _ => hCounts⟩
    rw [hNew]
    refine iff_of_false ?_ fun ⟨c, hDone, _⟩ => hNone c hDone
    rintro ⟨_, hLe, hRet⟩
    cases hRet
    omega
  case inr.inl =>
    have hOnly : ∀ c', Completes d arg env c' → c' = c := by
      rintro c' ⟨desc', rfl, hSome'⟩
      obtain ⟨_, hArg, hSome⟩ := hDone
      cases hArg
      exact Option.some.inj (hSome'.symm.trans hSome)
    have hNegIff := nextId_neg_iff h.counter
    refine ⟨fun hCounts => ?_, fun hStores => ⟨fun _ _ hNone => ?_, fun _ _ => ?_⟩⟩
    · have hNext := hCounts.2 c hDone
      have hPos : ¬ (d.reg.lastId + 1).toBitVec.toInt < 0 := fun hNeg => hNegIff.mp hNeg hNext
      dsimp only at hNew
      rw [if_neg hPos] at hNew
      rw [hNew]
      refine ⟨⟨fun c' hDone' => ?_, ?_⟩, h.store (hFree c hCtx) hNext⟩
      · rw [hNew, hOnly c' hDone']
        rfl
      · rw [hNew]
        exact iff_of_true ⟨_, Int.not_lt.mp hPos, rfl⟩ ⟨c, hDone, rfl⟩
    · rw [hBuf] at hNone
      cases hNone
    · by_contra hLast
      have hStored := hStores.stored c hDone
      dsimp only at hNew
      rw [if_pos (hNegIff.mpr hLast)] at hNew
      rw [hNew] at hStored
      exact cons_ne_self c d.reg.ctxList hStored.symm
  case inr.inr =>
    refine ⟨fun hCounts => absurd (hCounts.1 desc hArg hBuf) hNot, fun hStores => ?_⟩
    obtain ⟨c, hDone, -⟩ := hStores.reported.mp ⟨0, Int.le_refl 0, by rw [hNew]⟩
    exact absurd hDone (hNone c)

theorem IdInv.step (h : IdInv d) {op : ControlOp} (hStep : op.Step tls d d') :
    (op.CountsUp d → op.Identifies tls d ∧ IdInv d') ∧ (op.Identifies tls d → op.CountsUp d) := by
  by_cases hNew : ∃ f pid arg env junk, op = .ioctl f (.newCtx pid arg env junk)
  · obtain ⟨f, pid, arg, env, junk, rfl⟩ := hNew
    obtain ⟨hFree, rfl⟩ := hStep
    obtain ⟨hGood, hBack⟩ := @IdInv.newCtx d h f pid junk arg env hFree
    refine ⟨fun hCounts => ?_, fun hIdent => hBack hIdent.2⟩
    obtain ⟨hStores, hInv⟩ := hGood hCounts
    exact ⟨⟨hInv.nodup, hStores⟩, hInv⟩
  · have hOther : ∀ f pid arg env junk, op ≠ .ioctl f (.newCtx pid arg env junk) :=
      fun f pid arg env junk hEq => hNew ⟨f, pid, arg, env, junk, hEq⟩
    have hList : ListInv d'.reg := h.list.step_of_newCtx hStep fun f pid arg env junk hEq =>
      absurd hEq (hOther f pid arg env junk)
    obtain ⟨-, rfl⟩ := hStep
    have hInv := h.of_sameIds hList (sameIds_run d hOther)
    have hTrivial : op.CountsUp d ∧ (op.Identifies tls d ↔ (op.run tls d).reg.ids.Nodup) := by
      unfold ControlOp.CountsUp ControlOp.Identifies
      split
      · exact absurd rfl (hOther _ _ _ _ _)
      · exact ⟨trivial, and_iff_left trivial⟩
    exact ⟨fun _ => ⟨hTrivial.2.mpr hInv.nodup, hInv⟩, fun _ => hTrivial.1⟩

end IdInv

/-- **The identity of contexts.** From boot, listed contexts have different ids, and `NEW_CTX`
stores what it has made, exactly when ids count up. -/
theorem context_ids_iff {tls : Tls1Prf} {d : Control} {tr : Trace Control ControlOp}
    (hEmpty : d.reg.ctxList = []) (hBoot : d.reg.lastId = 0)
    (hTr : IsTrace (ControlOp.Step tls) d tr) :
    EachStep (fun d op => op.Identifies tls d) d tr ↔ EachStep (fun d op => op.CountsUp d) d tr := by
  have hInv : IdInv d := by
    refine ⟨listInv_of_empty hEmpty, ?_, fun c hc => ?_, ?_⟩
    · rw [hBoot]
      decide
    · rw [hEmpty] at hc
      cases hc
    · rw [Registry.ids, hEmpty]
      exact nodup_nil
  exact eachStep_iff_of_inv (fun _ _ _ h hStep => (h.step hStep).1)
    (fun _ _ _ h hStep => (h.step hStep).2) hInv hTr

theorem context_ids_sample :
    ∃ tr : Trace Control ControlOp, tr.map Prod.fst =
      [.ioctl 1 (sampleNew (some [])), .ioctl 1 .destroy, .ioctl 1 (sampleNew (some []))] ∧
      EachStep (fun d op => op.Identifies noPrf d) emptyControl tr := by
  have hTr : IsTrace (ControlOp.Step noPrf) emptyControl
      [(.ioctl 1 (sampleNew (some [])), _), (.ioctl 1 .destroy, _),
        (.ioctl 1 (sampleNew (some [])), _)] :=
    ⟨⟨fun _ _ => rfl, rfl⟩, ⟨trivial, rfl⟩, ⟨?_, rfl⟩, trivial⟩
  · refine ⟨_, rfl, (context_ids_iff rfl rfl hTr).mpr ⟨?_, trivial, ?_, trivial⟩⟩
    · exact ⟨fun _ _ hNone => (nomatch hNone), fun _ _ => by decide⟩
    · exact ⟨fun _ _ hNone => (nomatch hNone), fun _ _ => by decide⟩
  · rintro c ⟨⟩
    rfl

/-- Nothing is listed, nothing is at the address 100, and `n` contexts have been made. -/
structure Idle (d : Control) (n : Nat) : Prop where
  empty : d.reg.ctxList = []
  free : d.reg.allocated 100 = false
  lastId : d.reg.lastId.toNat = n

theorem doNewCtx_sample (d : Control) :
    d.doNewCtx 1 7 (some ⟨1, 16, 1⟩) ⟨some 100, none, some []⟩ 55 =
      if (d.reg.lastId + 1).toBitVec.toInt < 0 then
        (d.addCtx 100 ⟨1, 16, 1⟩ []).refuse (d.reg.lastId + 1).toBitVec.toInt
      else
        (.ret (d.reg.lastId + 1).toBitVec.toInt, some 100,
          (d.addCtx 100 ⟨1, 16, 1⟩ []).storeCtx 1 7 100) := rfl

theorem freshMemory_sample {d : Control} (hFree : d.reg.allocated 100 = false) :
    (ControlOp.ioctl 1 (sampleNew (some []))).FreshMemory d := by
  rintro c ⟨⟩
  exact hFree

theorem Idle.next {d : Control} {n : Nat} (h : Idle d n) (hn : n + 1 < 2 ^ 31) :
    ∃ d₁ d₂, IsTrace (ControlOp.Step noPrf) d
      [(.ioctl 1 (sampleNew (some [])), d₁), (.ioctl 1 .destroy, d₂)] ∧ Idle d₂ (n + 1) := by
  have hLast : d.reg.lastId.toNat < 2 ^ 31 := h.lastId ▸ Nat.lt_of_succ_lt hn
  have hNotNeg : ¬ (d.reg.lastId + 1).toBitVec.toInt < 0 := by
    rw [nextId_neg_iff hLast, h.lastId]
    exact not_not.mpr hn
  refine ⟨_, _, ⟨⟨freshMemory_sample h.free, rfl⟩, ⟨trivial, rfl⟩, trivial⟩, ?_⟩
  show Idle (Control.doDestroy (d.doNewCtx 1 7 (some ⟨1, 16, 1⟩) ⟨some 100, none, some []⟩ 55).2.2 1).2.2
    (n + 1)
  rw [doNewCtx_sample, if_neg hNotNeg]
  simp only [Control.doDestroy, Control.storeCtx, Control.setFile, update_self]
  refine ⟨?empty, ?free, ?lastId⟩
  case empty =>
    show (destroyCtx _ 100).ctxList = []
    rw [ctxList_destroyCtx]
    show (100 :: d.reg.ctxList).erase 100 = []
    rw [erase_cons_head, h.empty]
  case free =>
    show (destroyCtx _ 100).allocated 100 = false
    rw [allocated_destroyCtx, update_self]
  case lastId =>
    show (destroyCtx _ 100).lastId.toNat = n + 1
    rw [(sameIds_destroyCtx _ 100).lastId]
    show (d.reg.lastId + 1).toNat = n + 1
    rw [toNat_nextId hLast, h.lastId]

def useUp (n : Nat) : List ControlOp :=
  (List.replicate n [.ioctl 1 (sampleNew (some [])), .ioctl 1 .destroy]).flatten

theorem useUp_runs (n : Nat) (hn : n < 2 ^ 31) :
    ∃ tr : Trace Control ControlOp, tr.map Prod.fst = useUp n ∧
      IsTrace (ControlOp.Step noPrf) emptyControl tr ∧ Idle (lastState emptyControl tr) n := by
  induction n with
  | zero => exact ⟨[], rfl, trivial, rfl, rfl, rfl⟩
  | succ n ih =>
    obtain ⟨tr, hOps, hTr, hIdle⟩ := ih (Nat.lt_of_succ_lt hn)
    obtain ⟨d₁, d₂, hStep, hNext⟩ := hIdle.next hn
    refine ⟨tr ++ [(_, d₁), (_, d₂)], ?_, hTr.append hStep, ?_⟩
    · rw [map_append, hOps, useUp, useUp, List.replicate_succ', flatten_concat]
      rfl
    · rw [lastState_append]
      exact hNext

theorem useUp_last {n : Nat} (hn : n + 1 = 2 ^ 31) : ∃ tr : Trace Control ControlOp,
      tr.map Prod.fst = useUp n ++ [.ioctl 1 (sampleNew (some []))] ∧
      IsTrace (ControlOp.Step noPrf) emptyControl tr ∧
      (lastState emptyControl tr).reg.allocated 100 = true ∧
      (lastState emptyControl tr).reg.ctxList = [] ∧
      ¬ EachStep (fun d op => op.Identifies noPrf d) emptyControl tr := by
  obtain ⟨tr, hOps, hTr, hIdle⟩ := useUp_runs n (by omega)
  generalize hLast : lastState emptyControl tr = d at hIdle
  have hLt : d.reg.lastId.toNat < 2 ^ 31 := by
    rw [hIdle.lastId]
    omega
  have hNeg : (d.reg.lastId + 1).toBitVec.toInt < 0 := by
    rw [nextId_neg_iff hLt, hIdle.lastId]
    omega
  have hNew := doNewCtx_sample d
  rw [if_pos hNeg] at hNew
  have hAfter : lastState emptyControl (tr ++ [(.ioctl 1 (sampleNew (some [])),
      d.addCtx 100 ⟨1, 16, 1⟩ [])]) = d.addCtx 100 ⟨1, 16, 1⟩ [] := by
    rw [lastState_append]
    rfl
  refine ⟨tr ++ [(.ioctl 1 (sampleNew (some [])), d.addCtx 100 ⟨1, 16, 1⟩ [])], ?_, ?_, ?_, ?_, ?_⟩
  · rw [map_append, hOps]
    rfl
  · refine hTr.append ⟨?_, trivial⟩
    rw [hLast]
    exact ⟨freshMemory_sample hIdle.free, (congrArg (·.2.2) hNew).symm⟩
  · rw [hAfter]
    exact update_self 100 true d.reg.allocated
  · rw [hAfter]
    exact hIdle.empty
  · intro hAll
    have hEnd := hAll.of_append
    rw [hLast] at hEnd
    have hStored := hEnd.1.2.stored 100 ⟨_, rfl, rfl⟩
    rw [hNew] at hStored
    exact cons_ne_self 100 d.reg.ctxList hStored.symm

/-- After 2³¹ − 1 contexts, each of them destroyed, the next one is lost. -/
theorem context_ids_run_out :
    ∃ tr : Trace Control ControlOp,
      tr.map Prod.fst = useUp (2 ^ 31 - 1) ++ [.ioctl 1 (sampleNew (some []))] ∧
      IsTrace (ControlOp.Step noPrf) emptyControl tr ∧
      (lastState emptyControl tr).reg.allocated 100 = true ∧
      (lastState emptyControl tr).reg.ctxList = [] ∧
      ¬ EachStep (fun d op => op.Identifies noPrf d) emptyControl tr :=
  useUp_last (by decide)

end Lacuna.Crypt
