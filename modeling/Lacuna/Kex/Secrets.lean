import Lacuna.Kex.Agreement

/-!
# What an exchange leaves in memory

`process_kex_msg` of the kernel and `do_kex` of the library, seen from the blocks of
memory that receive a secret; each number of a `dhm_context` owns the block of its
limbs. A block holds a secret until it is cleared; to free it changes nothing.

The buffers for the pre-master secret, the master secret and the key are cleared on
every path. The limbs are not: `cm_dhm_destroy` and `polarssl_destroy` clear the
structure that points to them and do not call `dhm_free`.
-/

namespace Lacuna.Kex

open Lacuna.Lib Lacuna.Crypt Option Function

inductive Secret where
  /-- `X` -/
  | exponent
  /-- `K` -/
  | shared
  | preMaster
  | master
  | key
  deriving DecidableEq

inductive DhmNum where
  | P
  | G
  | X
  | GX
  | GY
  | K
  | RP
  deriving DecidableEq

inductive Block where
  | limbs (n : DhmNum)
  /-- `struct dhm_kex`, `struct polarssl_kex_ctx` -/
  | kexCtx
  /-- `ctx->key` of `struct polarssl_kex_ctx` -/
  | kexKey
  /-- `pre_master` and `master` of `calc_secret` -/
  | preMaster
  | master
  /-- `key_buf` of `process_kex_msg` and of `do_kex` -/
  | keyBuf
  /-- the key of the context, installed in its cipher -/
  | installed
  deriving DecidableEq

abbrev SecretMem := Block → Option Secret

namespace SecretMem

def put (m : SecretMem) (b : Block) (s : Secret) : SecretMem := update m b (some s)

def wipe (m : SecretMem) (b : Block) : SecretMem := update m b none

/-- No block holds a secret, other than the key that is installed. -/
def Clean (m : SecretMem) : Prop := ∀ b, b ≠ .installed → m b = none

end SecretMem

/-- `calc_secret`, which puts the key into the block `dst`. -/
def calcSecretMem (tls : Tls1Prf) (fault : Fault) (keyLen : Nat) (ctx : DhmContext) (dst : Block)
    (m : SecretMem) : SecretMem :=
  let preMaster := beBytes (mpiSize ctx.K) ctx.K
  let random := (List.range 64).map UInt8.ofNat
  match fault with
  | some _ => m.wipe .master
  | none =>
    let m := m.put .preMaster .preMaster
    match tls.prf preMaster "master secret" random 48 with
    | none => (m.wipe .preMaster).wipe .master
    | some master =>
      let m := m.put .master .master
      let m := match tls.prf master "key expansion" (random.drop 32 ++ random.take 32) keyLen with
        | none => m
        | some _ => m.put dst .key
      (m.wipe .preMaster).wipe .master

/-- `K` is there before the range of the public value is checked. -/
def dhmCalcSecretMem (fault : Fault) (ctx : DhmContext) (m : SecretMem) : SecretMem :=
  match mpiExpMod fault ctx.GY ctx.X ctx.P with
  | .error _ => m
  | .ok _ => m.put (.limbs .K) .shared

/-- What an end draws. If there is no memory for limbs, `mpi_fill_random` leaves `X` at 0. -/
structure Draw where
  random : Nat
  filled : Bool
  zero_of_not_filled : filled = false → random = 0

/-- `mpi_fill_random` in `dhm_make_public` and `dhm_make_params`. -/
def Draw.fill (draw : Draw) (m : SecretMem) : SecretMem :=
  if draw.filled then m.put (.limbs .X) .exponent else m

/-! ## The kernel -/

structure KernRun where
  fault : KernCall → Fault
  draw : Draw

def KernRun.env (run : KernRun) : KernEnv where
  fault := run.fault
  random := run.draw.random

def cmDhmRespondMem (run : KernRun) (outBufLen inBufLen : Nat) (buf : List UInt8)
    (m : SecretMem) : SecretMem :=
  match dhmReadParams (run.fault .readP) (run.fault .readG) (run.fault .readGY)
      (buf.take inBufLen) with
  | .error _ => m
  | .ok ctx =>
    if outBufLen < ctx.len then m
    else if ctx.len < 1 then m
    else
      let m := run.draw.fill m
      match dhmMakePublic (run.fault .makePublic) ctx ctx.len run.draw.random with
      | .error _ => m
      | .ok (ctx, _) => dhmCalcSecretMem (run.fault .calcSecret) ctx m

/-- `cm_dhm_destroy`: the structure, and not what it points to. -/
def cmDhmDestroyMem (m : SecretMem) : SecretMem := m.wipe .kexCtx

def processKexMsgMem (tls : Tls1Prf) (run : KernRun) (k : KexCctx) (outSz inSz : Nat)
    (m : SecretMem) : SecretMem :=
  let m :=
    if inSz < 1 then m
    else if k.kexBuf.headD 0 = PRIV_CRYPT_KEX_PARAMS then
      if (run.fault .symbolRequest).isSome then m
      else if (run.fault .init).isSome then m
      else
        let m := cmDhmRespondMem run (outSz - 1) (inSz - 1) k.kexBuf.tail m
        let m := match (cmDhmRespond run.env (outSz - 1) (inSz - 1) k.kexBuf.tail).1 with
          | .error _ => m
          | .ok (ctx, _) =>
            let m := calcSecretMem tls (run.fault .preMaster) k.keySize ctx .keyBuf m
            match cmDhmGetKey tls run.env ctx k.keySize with
            | .error _ => m
            | .ok _ => m.put .installed .key
        cmDhmDestroyMem m
    else m
  m.wipe .keyBuf

/-- The message has parameters that can be read and answered, and there is memory for limbs. -/
def KernRun.Draws (run : KernRun) (k : KexCctx) (outSz inSz : Nat) : Prop :=
  1 ≤ inSz ∧ k.kexBuf.headD 0 = PRIV_CRYPT_KEX_PARAMS ∧ run.fault .symbolRequest = none ∧
    run.fault .init = none ∧ run.draw.filled = true ∧
    ∃ ctx, dhmReadParams (run.fault .readP) (run.fault .readG) (run.fault .readGY)
        (k.kexBuf.tail.take (inSz - 1)) = .ok ctx ∧ ctx.len ≤ outSz - 1 ∧ 1 ≤ ctx.len

/-! ## The library -/

structure UserRun where
  fault : UserCall → Fault
  draw : Draw

def UserRun.env (run : UserRun) : UserEnv where
  fault := run.fault
  random := run.draw.random

def sendParamsMem (run : UserRun) (u : UserKex) (m : SecretMem) : SecretMem :=
  match getPublic run.env u.ctx.dhmCtx with
  | .error _ => m
  | .ok dhm => if MAX_KEX_MSG_LEN - 1 < maxDhmBufSize dhm then m else run.draw.fill m

def recvResponseMem (tls : Tls1Prf) (run : UserRun) (u : UserKex) (m : SecretMem) : SecretMem :=
  if u.kexInLen < 1 then m
  else if u.kexBuf.headD 0 ≠ PRIV_CRYPT_KEX_RESPONSE then m
  else
    match dhmReadPublic (run.fault .readPublic) u.ctx.dhmCtx
        (u.kexBuf.tail.take (u.kexInLen - 1)) with
    | .error _ => m
    | .ok dhm =>
      let m := dhmCalcSecretMem (run.fault .calcSecret) dhm m
      match dhmCalcSecretNoExport (run.fault .calcSecret) dhm with
      | .error _ => m
      | .ok dhm => calcSecretMem tls (run.fault .preMaster) u.ctx.keySize dhm .kexKey m

def polarsslProcessMsgMem (tls : Tls1Prf) (run : UserRun) (u : UserKex) (m : SecretMem) :
    SecretMem :=
  match u.ctx.state with
  | .start => sendParamsMem run u m
  | .initSent => recvResponseMem tls run u m
  | .done => m

def polarsslDestroyMem (m : SecretMem) : SecretMem := (m.wipe .kexKey).wipe .kexCtx

section Library

variable {β : Type} (tls : Tls1Prf) (run : UserRun)
  (send : UserKex → β → Int × (List UInt8 × Nat) × β)

/-- The loop of `do_kex` with any backend, for at most so many turns. -/
def kexLoopMem : Nat → UserKex → β → SecretMem → Option ((Int × UserKex × β) × SecretMem)
  | 0, _, _, _ => none
  | turns + 1, u, k, m =>
    let (rc, u') := polarsslProcessMsg tls run.env u
    let m := polarsslProcessMsgMem tls run u m
    if rc < 1 then some ((rc, u', k), m)
    else
      let (rc, reply, k) := send u' k
      let u' := { u' with kexBuf := reply.1, kexInLen := reply.2 }
      if 0 ≤ rc then kexLoopMem turns u' k m else some ((rc, u', k), m)

def kernReply (env : KernEnv) (u : UserKex) (k : KexCctx) : Int × (List UInt8 × Nat) × KexCctx :=
  let r := kernSendKexMsg tls env u k
  (r.1, (r.2.1.kexBuf, r.2.1.kexInLen), r.2.2)

def doKexMem (turns keySize : Nat) (stack : List UInt8) (kexOutLen : Nat) (k : β)
    (m : SecretMem) : Option SecretMem :=
  if (run.fault .init).isSome then some (m.wipe .keyBuf)
  else
    match kexLoopMem tls run send turns
        { ctx := polarsslInit keySize, kexBuf := stack, kexInLen := 0, kexOutLen := kexOutLen }
        k m with
    | none => none
    | some ((rc, _, _), m) =>
      -- `polarssl_get_key`, and `set_key` of the cipher
      let m := if rc = 0 then m.put .keyBuf .key else m
      let m := polarsslDestroyMem m
      let m := if rc = 0 ∧ (run.fault .setKey).isSome = false then m.put .installed .key else m
      some (m.wipe .keyBuf)

end Library

/-- The library draws an exponent: it has memory for it. -/
def UserRun.Draws (run : UserRun) : Prop :=
  run.fault .init = none ∧ run.fault .readString = none ∧ run.draw.filled = true

theorem kernSendKexMsg_frame (tls : Tls1Prf) (env : KernEnv) (u : UserKex) (k : KexCctx) : { u with
      kexBuf := (kernSendKexMsg tls env u k).2.1.kexBuf
      kexInLen := (kernSendKexMsg tls env u k).2.1.kexInLen } =
      (kernSendKexMsg tls env u k).2.1 := by
  unfold kernSendKexMsg
  split <;> rfl

/-- With the kernel as the backend, the loop is the one of the exchange. -/
theorem kexLoopMem_kern (tls : Tls1Prf) (run : UserRun) (env : KernEnv) (turns : Nat) (u : UserKex)
    (k : KexCctx) (m : SecretMem) :
    (kexLoopMem tls run (kernReply tls env) turns u k m).map Prod.fst =
      kexLoop tls run.env env turns u k := by
  induction turns generalizing u k m with
  | zero => rfl
  | succ turns ih =>
    rw [kexLoopMem, kexLoop]
    simp only [kernReply, kernSendKexMsg_frame]
    split
    · rfl
    split
    · exact ih ..
    · rfl

/-- The limbs of `X` hold `x`. Other secrets are in the limbs of `K`, if `X` has been drawn, and
in `bs`. -/
structure SecretMem.Tidy (m : SecretMem) (x : Option Secret) (bs : List Block) : Prop where
  exponent : m (.limbs .X) = x
  drawn : m (.limbs .K) ≠ none → x ≠ none
  only : ∀ b, b ≠ .limbs .X → b ≠ .limbs .K → b ∉ bs → m b = none

def Block.IsBuffer (b : Block) : Prop := b ≠ .limbs .X ∧ b ≠ .limbs .K

instance (b : Block) : Decidable b.IsBuffer := inferInstanceAs (Decidable (_ ∧ _))

namespace SecretMem

variable {m : SecretMem} {x : Option Secret} {b b' : Block} {bs : List Block}

theorem put_self (m : SecretMem) (b : Block) (s : Secret) : m.put b s b = some s :=
  update_self ..

theorem put_of_ne (h : b' ≠ b) (m : SecretMem) (s : Secret) : m.put b s b' = m b' :=
  update_of_ne h ..

theorem wipe_self (m : SecretMem) (b : Block) : m.wipe b b = none := update_self ..

theorem wipe_of_ne (h : b' ≠ b) (m : SecretMem) : m.wipe b b' = m b' := update_of_ne h ..

theorem Clean.tidy (h : m.Clean) : m.Tidy none [.installed] where
  exponent := h _ (by decide)
  drawn hK := absurd (h _ (by decide)) hK
  only b _ _ hb := h b fun hEq => hb (List.mem_singleton.mpr hEq)

theorem Tidy.clean_iff (h : m.Tidy x [.installed]) : m.Clean ↔ x = none := by
  constructor
  · intro hClean
    rw [← h.exponent]
    exact hClean _ (by decide)
  · intro hx b hb
    by_cases hbX : b = .limbs .X
    · rw [hbX, h.exponent, hx]
    by_cases hbK : b = .limbs .K
    · rw [hbK]
      exact not_not.mp fun hK => h.drawn hK hx
    · exact h.only b hbX hbK fun hMem => hb (List.mem_singleton.mp hMem)

theorem Tidy.mono {bs' : List Block} (h : m.Tidy x bs) (hSub : bs ⊆ bs') : m.Tidy x bs' :=
  ⟨h.exponent, h.drawn, fun b hX hK hb => h.only b hX hK fun hMem => hb (hSub hMem)⟩

theorem Tidy.put (h : m.Tidy x bs) (hb : b.IsBuffer) (s : Secret) : (m.put b s).Tidy x (b :: bs) where
  exponent := by
    rw [put_of_ne hb.1.symm]
    exact h.exponent
  drawn := by
    rw [put_of_ne hb.2.symm]
    exact h.drawn
  only b' hX hK hb' := by
    rw [List.mem_cons, not_or] at hb'
    rw [put_of_ne hb'.1]
    exact h.only b' hX hK hb'.2

theorem Tidy.wipe (h : m.Tidy x (b :: bs)) (hb : b.IsBuffer) : (m.wipe b).Tidy x bs where
  exponent := by
    rw [wipe_of_ne hb.1.symm]
    exact h.exponent
  drawn := by
    rw [wipe_of_ne hb.2.symm]
    exact h.drawn
  only b' hX hK hb' := by
    by_cases hEq : b' = b
    · rw [hEq, wipe_self]
    · rw [wipe_of_ne hEq]
      exact h.only b' hX hK fun hMem => (List.mem_cons.mp hMem).elim hEq hb'

end SecretMem

section Steps

variable {m : SecretMem} {x : Option Secret} {bs : List Block}

open SecretMem

variable {random : Nat}

theorem calcSecretMem_tidy {tls : Tls1Prf} {fault : Fault} {keyLen : Nat} {ctx : DhmContext}
    {dst : Block} (h : m.Tidy x bs) (hDst : dst.IsBuffer) :
    (calcSecretMem tls fault keyLen ctx dst m).Tidy x (dst :: bs) := by
  have hPre : Block.preMaster.IsBuffer := by decide
  have hMaster : Block.master.IsBuffer := by decide
  have hWipe : ∀ {m : SecretMem}, m.Tidy x (dst :: .master :: .preMaster :: bs) →
      ((m.wipe .preMaster).wipe .master).Tidy x (dst :: bs) := by
    intro m h
    refine Tidy.wipe (Tidy.wipe (h.mono ?_) hPre) hMaster
    intro b hb
    simp only [List.mem_cons] at hb ⊢
    tauto
  unfold calcSecretMem
  cases fault with
  | some n => exact Tidy.wipe (h.mono (by simp)) hMaster
  | none =>
    have hFirst := h.put hPre .preMaster
    dsimp only
    split
    · exact hWipe (hFirst.mono (by simp))
    · have hSecond := hFirst.put hMaster .master
      refine hWipe ?_
      split
      · exact hSecond.mono (by simp)
      · exact hSecond.put hDst .key

def Draw.drawn (draw : Draw) : Option Secret := if draw.filled then some .exponent else none

theorem Draw.fill_tidy (draw : Draw) (h : m.Tidy none bs) : (draw.fill m).Tidy draw.drawn bs := by
  unfold Draw.fill Draw.drawn
  split
  · refine ⟨put_self .., fun _ => some_ne_none _, fun b hX hK hb => ?_⟩
    rw [put_of_ne hX]
    exact h.only b hX hK hb
  · exact h

theorem dhmCalcSecretMem_tidy {fault : Fault} {ctx : DhmContext} (h : m.Tidy x bs) (hx : x ≠ none) :
    (dhmCalcSecretMem fault ctx m).Tidy x bs := by
  unfold dhmCalcSecretMem
  split
  · exact h
  · refine ⟨?_, fun _ => hx, fun b hX hK hb => ?_⟩
    · rw [put_of_ne (by decide)]
      exact h.exponent
    · rw [put_of_ne hK]
      exact h.only b hX hK hb

theorem dhmCheckRange_exponent {G P : Nat} {u : Unit}
    (h : dhmCheckRange (G ^ dhmExponent P random % P) P = .ok u) : random ≠ 0 := by
  rintro rfl
  obtain ⟨hLow, hHigh⟩ := dhmCheckRange_ok h
  have hZero : dhmExponent P 0 = 0 := rfl
  rw [hZero, Nat.pow_zero] at hLow
  have hMod := Nat.mod_le 1 P
  omega

theorem dhmMakePublic_random {fault : Fault} {ctx ctx' : DhmContext} {olen : Nat}
    {out : List UInt8} (h : dhmMakePublic fault ctx olen random = .ok (ctx', out)) :
    random ≠ 0 := by
  unfold dhmMakePublic at h
  split at h
  · cases h
  · obtain ⟨GX, hExp, h⟩ := bind_ok h
    obtain ⟨_, hRange, _⟩ := bind_ok h
    rw [mpiExpMod_ok (chk_ok hExp)] at hRange
    exact dhmCheckRange_exponent hRange

theorem dhmMakeParams_random {fault : Fault} {ctx ctx' : DhmContext}
    {msg : List UInt8} (h : dhmMakeParams fault ctx random = .ok (ctx', msg)) : random ≠ 0 := by
  obtain ⟨GX, hExp, h⟩ := bind_ok h
  obtain ⟨_, hRange, _⟩ := bind_ok h
  rw [mpiExpMod_ok (chk_ok hExp)] at hRange
  exact dhmCheckRange_exponent hRange

theorem Draw.drawn_of_random (draw : Draw) (h : draw.random ≠ 0) : draw.drawn ≠ none := by
  have hFilled : draw.filled = true := by
    by_contra hNot
    exact h (draw.zero_of_not_filled (Bool.eq_false_iff.mpr hNot))
  rw [drawn, if_pos hFilled]
  exact some_ne_none _

end Steps

/-! ## The ends -/

section Ends

variable {m : SecretMem} {bs : List Block}

open SecretMem

/-- The parameters of a message that can be answered. -/
def KernRun.Answers (run : KernRun) (outBufLen inBufLen : Nat) (buf : List UInt8) : Prop :=
  ∃ ctx, dhmReadParams (run.fault .readP) (run.fault .readG) (run.fault .readGY)
      (buf.take inBufLen) = .ok ctx ∧ ctx.len ≤ outBufLen ∧ 1 ≤ ctx.len

theorem Draw.drawn_ne_none (draw : Draw) : draw.drawn ≠ none ↔ draw.filled = true := by
  unfold drawn
  split <;> simp [*]

theorem cmDhmRespondMem_tidy {run : KernRun} {outBufLen inBufLen : Nat} {buf : List UInt8}
    (h : m.Tidy none bs) :
    ∃ x, (cmDhmRespondMem run outBufLen inBufLen buf m).Tidy x bs ∧
      (x ≠ none ↔ run.draw.filled = true ∧ run.Answers outBufLen inBufLen buf) := by
  unfold cmDhmRespondMem KernRun.Answers
  cases hRead : dhmReadParams (run.fault .readP) (run.fault .readG) (run.fault .readGY)
      (buf.take inBufLen) with
  | error rc => exact ⟨none, h, by simp⟩
  | ok ctx =>
    dsimp only
    by_cases hRoom : outBufLen < ctx.len
    · rw [if_pos hRoom]
      refine ⟨none, h, ?_⟩
      simp only [ne_eq, not_true_eq_false, Except.ok.injEq, exists_eq_left', false_iff]
      omega
    rw [if_neg hRoom]
    by_cases hEmpty : ctx.len < 1
    · rw [if_pos hEmpty]
      refine ⟨none, h, ?_⟩
      simp only [ne_eq, not_true_eq_false, Except.ok.injEq, exists_eq_left', false_iff]
      omega
    rw [if_neg hEmpty]
    have hFill := run.draw.fill_tidy h
    refine ⟨run.draw.drawn, ?_, ?_⟩
    · cases hMake : dhmMakePublic (run.fault .makePublic) ctx ctx.len run.draw.random with
      | error rc => exact hFill
      | ok r =>
        exact dhmCalcSecretMem_tidy hFill (run.draw.drawn_of_random (dhmMakePublic_random hMake))
    · rw [run.draw.drawn_ne_none]
      simp only [Except.ok.injEq, exists_eq_left', iff_self_and]
      omega

/-- **The kernel end.** -/
theorem processKexMsgMem_tidy {tls : Tls1Prf} {run : KernRun} {k : KexCctx} {outSz inSz : Nat}
    (h : m.Clean) :
    ∃ x, (processKexMsgMem tls run k outSz inSz m).Tidy x [.installed] ∧
      (x ≠ none ↔ run.Draws k outSz inSz) := by
  have hBuf : Block.keyBuf.IsBuffer := by decide
  have hTidy := h.tidy
  have hStop : (m.wipe .keyBuf).Tidy none [.installed] := (hTidy.mono (by simp)).wipe hBuf
  unfold processKexMsgMem KernRun.Draws
  dsimp only
  by_cases hShort : inSz < 1
  · rw [if_pos hShort]
    exact ⟨none, hStop, by simp [Nat.not_le.mpr hShort]⟩
  rw [if_neg hShort]
  by_cases hType : k.kexBuf.headD 0 = PRIV_CRYPT_KEX_PARAMS
  swap
  · rw [if_neg hType]
    exact ⟨none, hStop, fun hx => absurd rfl hx, fun hDraws => absurd hDraws.2.1 hType⟩
  rw [if_pos hType]
  cases hSymbol : run.fault .symbolRequest with
  | some n =>
    rw [isSome_some, if_pos rfl]
    exact ⟨none, hStop, by simp⟩
  | none =>
  rw [isSome_none, if_neg Bool.false_ne_true]
  cases hInit : run.fault .init with
  | some n =>
    rw [isSome_some, if_pos rfl]
    exact ⟨none, hStop, by simp⟩
  | none =>
  rw [isSome_none, if_neg Bool.false_ne_true]
  obtain ⟨x, hResp, hx⟩ := @cmDhmRespondMem_tidy m _ run (outSz - 1) (inSz - 1) k.kexBuf.tail hTidy
  refine ⟨x, ?_, ?_⟩
  · -- every path clears the structure and the buffer of the key
    have hEnd : ∀ {m : SecretMem}, m.Tidy x [.keyBuf, .installed] →
        ((cmDhmDestroyMem m).wipe .keyBuf).Tidy x [.installed] := by
      intro m h
      exact Tidy.wipe (Tidy.wipe (h.mono (by simp)) (by decide)) hBuf
    refine hEnd ?_
    split
    · exact hResp.mono (by simp)
    · rename_i ctx _ _
      have hSecret := @calcSecretMem_tidy _ x [.installed] tls (run.fault .preMaster) k.keySize ctx
        .keyBuf hResp hBuf
      split
      · exact hSecret
      · exact (hSecret.put (by decide) .key).mono (by simp)
  · rw [hx]
    simp only [true_and, Nat.not_lt.mp hShort, hType]
    rfl

theorem sendParams_cases (run : UserRun) (u : UserKex) :
    (sendParams run.env u).1 < 1 ∨ (sendParams run.env u).1 = 1 ∧
      (sendParams run.env u).2.ctx.state = .initSent ∧ run.fault .readString = none ∧
      run.draw.filled = true := by
  unfold sendParams
  cases hPublic : getPublic run.env u.ctx.dhmCtx with
  | error rc =>
    refine .inl ?_
    unfold getPublic at hPublic
    split at hPublic
    · cases hPublic
      show (-1 : Int) < 1
      decide
    · cases hPublic
  | ok dhm =>
    dsimp only
    split
    · exact .inl (by show -PRIV_CRYPT_SOME_ERR < 1; decide)
    unfold makeParams
    cases hMake : dhmMakeParams (run.env.fault .makeParams) dhm run.env.random with
    | error rc =>
      have hNeg := dhmMakeParams_error hMake
      exact .inl (by show rc < 1; omega)
    | ok r =>
      have hDrawn := run.draw.drawn_of_random (dhmMakeParams_random hMake)
      refine .inr ⟨rfl, rfl, ?_, run.draw.drawn_ne_none.mp hDrawn⟩
      unfold getPublic at hPublic
      split at hPublic
      · cases hPublic
      · rename_i hRead
        exact Option.not_isSome_iff_eq_none.mp hRead

theorem sendParamsMem_tidy {run : UserRun} {u : UserKex} (h : m.Tidy none bs) :
    ∃ x, (sendParamsMem run u m).Tidy x bs ∧
      (x ≠ none ↔ run.fault .readString = none ∧ run.draw.filled = true) := by
  unfold sendParamsMem getPublic
  cases hRead : run.fault .readString with
  | some n =>
    have hEnv : run.env.fault .readString = some n := hRead
    simp only [hEnv, isSome_some, if_true]
    exact ⟨none, h, by simp⟩
  | none =>
    have hEnv : run.env.fault .readString = none := hRead
    simp only [hEnv, isSome_none, Bool.false_eq_true, if_false]
    have hRoom : ¬ MAX_KEX_MSG_LEN - 1 <
        maxDhmBufSize { u.ctx.dhmCtx with P := dhmSampleP, G := dhmSampleG } := by
      simp only [maxDhmBufSize, mpiSize_dhmSampleP, MAX_KEX_MSG_LEN]
      decide
    rw [if_neg hRoom]
    exact ⟨run.draw.drawn, run.draw.fill_tidy h, by rw [run.draw.drawn_ne_none]; simp⟩

theorem recvResponse_last (tls : Tls1Prf) (env : UserEnv) (u : UserKex) :
    (recvResponse tls env u).1 < 1 := by
  unfold recvResponse
  split
  · show -PRIV_CRYPT_SOME_ERR < 1
    decide
  split
  · show -PRIV_CRYPT_SOME_ERR < 1
    decide
  split
  · show (-1 : Int) < 1
    decide
  split
  · show (-1 : Int) < 1
    decide
  split
  · show (-1 : Int) < 1
    decide
  · show (0 : Int) < 1
    decide

theorem recvResponseMem_tidy {tls : Tls1Prf} {run : UserRun} {u : UserKex} {x : Option Secret}
    (h : m.Tidy x bs) (hx : x ≠ none) : (recvResponseMem tls run u m).Tidy x (.kexKey :: bs) := by
  have hMore : m.Tidy x (.kexKey :: bs) := h.mono (by simp)
  unfold recvResponseMem
  split
  · exact hMore
  split
  · exact hMore
  split
  · exact hMore
  · rename_i dhm _
    have hCalc := @dhmCalcSecretMem_tidy _ _ _ (run.fault .calcSecret) dhm h hx
    split
    · exact hCalc.mono (by simp)
    · exact calcSecretMem_tidy hCalc (by decide)

theorem kexLoopMem_tidy {β : Type} {tls : Tls1Prf} {run : UserRun}
    {send : UserKex → β → Int × (List UInt8 × Nat) × β} {turns : Nat} (hTurns : 2 ≤ turns)
    {u : UserKex} (hState : u.ctx.state = .start) (k : β) (h : m.Tidy none bs) :
    ∃ r m' x, kexLoopMem tls run send turns u k m = some (r, m') ∧ m'.Tidy x (.kexKey :: bs) ∧
      (x ≠ none ↔ run.fault .readString = none ∧ run.draw.filled = true) := by
  obtain ⟨turns, rfl⟩ := Nat.exists_eq_add_of_le hTurns
  obtain ⟨x, hFirst, hx⟩ := @sendParamsMem_tidy m bs run u h
  have hMore : (sendParamsMem run u m).Tidy x (.kexKey :: bs) := hFirst.mono (by simp)
  rw [Nat.add_comm, kexLoopMem]
  simp only [polarsslProcessMsg, polarsslProcessMsgMem, hState]
  rcases sendParams_cases run u with hStop | ⟨hRc, hSent, hDrawn⟩
  · rw [if_pos hStop]
    exact ⟨_, _, x, rfl, hMore, hx⟩
  rw [if_neg (by rw [hRc]; decide)]
  split
  · -- the answer
    rw [kexLoopMem]
    simp only [polarsslProcessMsg, polarsslProcessMsgMem, hSent]
    rw [if_pos (recvResponse_last _ _ _)]
    exact ⟨_, _, x, rfl, recvResponseMem_tidy hFirst (hx.mpr hDrawn), hx⟩
  · exact ⟨_, _, x, rfl, hMore, hx⟩

/-- **The library end**, which comes to an end. -/
theorem doKexMem_tidy {β : Type} {tls : Tls1Prf} {run : UserRun}
    {send : UserKex → β → Int × (List UInt8 × Nat) × β} {turns : Nat} (hTurns : 2 ≤ turns)
    (keySize : Nat) (stack : List UInt8) (kexOutLen : Nat) (k : β) (h : m.Clean) :
    ∃ m' x, doKexMem tls run send turns keySize stack kexOutLen k m = some m' ∧
      m'.Tidy x [.installed] ∧ (x ≠ none ↔ run.Draws) := by
  have hBuf : Block.keyBuf.IsBuffer := by decide
  unfold doKexMem UserRun.Draws
  cases hInit : run.fault .init with
  | some n =>
    rw [isSome_some, if_pos rfl]
    exact ⟨_, none, rfl, (h.tidy.mono (by simp)).wipe hBuf, by simp⟩
  | none =>
    rw [isSome_none, if_neg Bool.false_ne_true]
    obtain ⟨⟨rc, u, k⟩, m', x, hLoop, hTidy, hx⟩ :=
      @kexLoopMem_tidy m [.installed] β tls run send turns hTurns
        { ctx := polarsslInit keySize, kexBuf := stack, kexInLen := 0, kexOutLen := kexOutLen }
        rfl k h.tidy
    rw [hLoop]
    refine ⟨_, x, rfl, ?_, by rw [hx]; simp⟩
    -- the key is in two buffers, which are both cleared
    refine Tidy.wipe ?_ hBuf
    have hCopy : (if rc = 0 then m'.put .keyBuf .key else m').Tidy x
        (.keyBuf :: .kexKey :: [.installed]) := by
      split
      · exact hTidy.put hBuf .key
      · exact hTidy.mono (by simp)
    have hDestroy : (polarsslDestroyMem (if rc = 0 then m'.put .keyBuf .key else m')).Tidy x
        [.keyBuf, .installed] := by
      refine Tidy.wipe (Tidy.wipe (hCopy.mono ?_) (by decide)) (by decide)
      intro b hb
      simp only [List.mem_cons, List.not_mem_nil, or_false] at hb ⊢
      tauto
    split
    · exact (hDestroy.put (by decide) .key).mono (by simp)
    · exact hDestroy

end Ends

/-- **Secrets after the exchange.** `process_kex_msg` and the library's `do_kex` leave no secret
in memory, other than the key that is installed, exactly if they have not drawn an exponent. -/
theorem secrets_left_iff {β : Type} {tls : Tls1Prf} {m : SecretMem} (hClean : m.Clean)
    (kern : KernRun) (k : KexCctx) (outSz inSz : Nat) (user : UserRun)
    (send : UserKex → β → Int × (List UInt8 × Nat) × β) {turns : Nat} (hTurns : 2 ≤ turns)
    (keySize : Nat) (stack : List UInt8) (kexOutLen : Nat) (backend : β) :
    ((processKexMsgMem tls kern k outSz inSz m).Clean ↔ ¬ kern.Draws k outSz inSz) ∧
      ∃ m', doKexMem tls user send turns keySize stack kexOutLen backend m = some m' ∧
        (m'.Clean ↔ ¬ user.Draws) := by
  constructor
  · obtain ⟨x, hTidy, hx⟩ := @processKexMsgMem_tidy m tls kern k outSz inSz hClean
    rw [hTidy.clean_iff, ← hx, not_not]
  · obtain ⟨m', x, hRun, hTidy, hx⟩ := @doKexMem_tidy m β tls user send turns hTurns keySize stack
      kexOutLen backend hClean
    refine ⟨m', hRun, ?_⟩
    rw [hTidy.clean_iff, ← hx, not_not]

def sixDraw : Draw := ⟨6, true, fun h => nomatch h⟩

/-- The parameters 23, 5 and 8 are answered, and the library sends its own in vain: the
exponents are left, and in the kernel the shared secret. -/
theorem limbs_left :
    let k : KexCctx := { blankKern with kexBuf := [1, 0, 1, 23, 0, 1, 5, 0, 1, 8, 0, 0] }
    let kern := processKexMsgMem repeatPrf ⟨fun _ => none, sixDraw⟩ k 4096 12 fun _ => none
    let user := doKexMem repeatPrf ⟨fun _ => none, sixDraw⟩
      (fun u (_ : Unit) => (-1, (u.kexBuf, u.kexInLen), ())) 2 16 [] 0 () fun _ => none
    kern (.limbs .X) = some .exponent ∧ kern (.limbs .K) = some .shared ∧
      user.map (· (.limbs .X)) = some (some .exponent) := by
  decide +kernel

theorem nothing_drawn_clean :
    let m : SecretMem := fun _ => none
    (processKexMsgMem repeatPrf ⟨fun _ => some 0, sixDraw⟩ blankKern 4096 12 m).Clean ∧
      ∃ m', doKexMem repeatPrf ⟨fun _ => some 0, sixDraw⟩
        (fun u (_ : Unit) => (-1, (u.kexBuf, u.kexInLen), ())) 2 16 [] 0 () m = some m' ∧
        m'.Clean := by
  intro m
  obtain ⟨hKern, m', hRun, hUser⟩ := @secrets_left_iff Unit repeatPrf m (fun _ _ => rfl)
    ⟨fun _ => some 0, sixDraw⟩ blankKern 4096 12 ⟨fun _ => some 0, sixDraw⟩
    (fun u (_ : Unit) => (-1, (u.kexBuf, u.kexInLen), ())) 2 (Nat.le_refl 2) 16 [] 0 ()
  refine ⟨hKern.mpr fun hDraws => ?_, m', hRun, hUser.mpr fun hDraws => ?_⟩
  · exact absurd hDraws.2.2.1 (some_ne_none _)
  · exact absurd hDraws.1 (some_ne_none _)

end Lacuna.Kex
