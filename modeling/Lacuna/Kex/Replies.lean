import Lacuna.Kex.User

/-!
# The library against any backend

`do_kex` of `libprivcrypt/priv_crypt.c`, with the exchange of `polarssl_kex.c` and
a backend that may answer anything. `replyLoop` is the loop of `do_kex` when the
backend gives a sequence of replies; `kexLoop_replies` says that the kernel is such
a backend.
-/

namespace Lacuna.Kex

open Lacuna.Lib Lacuna.Crypt

/-! ## The loop -/

/-- What `send_kex_msg` comes to: its return code, and `kex_buf` and `kex_in_len`
afterwards. -/
structure Reply where
  rc : Int
  kexBuf : List UInt8
  kexInLen : Nat

structure Calls where
  processMsg : Nat
  sendKexMsg : Nat
  deriving DecidableEq

def UserKex.receive (u : UserKex) (r : Reply) : UserKex :=
  { u with kexBuf := r.kexBuf, kexInLen := r.kexInLen }

/-- The loop of `do_kex`, for at most so many turns, against a sequence of replies. -/
def replyLoop (tls : Tls1Prf) (uenv : UserEnv) :
    Nat → (Nat → Reply) → Calls → UserKex → Option (Int × UserKex × Calls)
  | 0, _, _, _ => none
  | turns + 1, reply, n, u =>
    let (rc, u) := polarsslProcessMsg tls uenv u
    let n := { n with processMsg := n.processMsg + 1 }
    if rc < 1 then some (rc, u, n)
    else
      let u := u.receive (reply 0)
      let n := { n with sendKexMsg := n.sendKexMsg + 1 }
      if 0 ≤ (reply 0).rc then replyLoop tls uenv turns (fun i => reply (i + 1)) n u
      else some ((reply 0).rc, u, n)

/-- `do_kex` against a sequence of replies: the return code, the cipher and the calls. -/
def doKexReplies (tls : Tls1Prf) (uenv : UserEnv) (reply : Nat → Reply) (turns keySize : Nat)
    (stack : List UInt8) (kexOutLen : Nat) (userCtx : Option AesniState) :
    Option (Int × Option AesniState × Calls) :=
  if (uenv.fault .init).isSome then some (-PRIV_CRYPT_SOME_ERR, userCtx, ⟨0, 0⟩)
  else
    match replyLoop tls uenv turns reply ⟨0, 0⟩
        { ctx := polarsslInit keySize, kexBuf := stack, kexInLen := 0, kexOutLen := kexOutLen } with
    | none => none
    | some (rc, u, n) =>
      if rc = 0 then
        let (rc, userCtx) := privAesniSetKey uenv userCtx (u.ctx.key.take keySize)
        some (rc, userCtx, n)
      else some (rc, userCtx, n)

/-! ## The kernel is a backend -/

section Kernel

variable (tls : Tls1Prf) (uenv : UserEnv) (kenv : KernEnv)

theorem kernSendKexMsg_receive (u : UserKex) (k : KexCctx) :
    ∃ r : Reply, (kernSendKexMsg tls kenv u k).1 = r.rc ∧
      (kernSendKexMsg tls kenv u k).2.1 = u.receive r := by
  unfold kernSendKexMsg
  split
  · exact ⟨⟨_, u.kexBuf, u.kexInLen⟩, rfl, rfl⟩
  · exact ⟨⟨_, _, _⟩, rfl, rfl⟩

/-- What the kernel answers, turn by turn, is a sequence of replies. -/
theorem kexLoop_replies (turns : Nat) (u : UserKex) (k : KexCctx) (n : Calls) :
    ∃ reply : Nat → Reply, (kexLoop tls uenv kenv turns u k).map (fun r => (r.1, r.2.1)) =
      (replyLoop tls uenv turns reply n u).map fun r => (r.1, r.2.1) := by
  induction turns generalizing u k n with
  | zero => exact ⟨fun _ => ⟨0, [], 0⟩, rfl⟩
  | succ turns ih =>
    simp only [kexLoop, replyLoop]
    by_cases hStop : (polarsslProcessMsg tls uenv u).1 < 1
    · simp only [if_pos hStop]
      exact ⟨fun _ => ⟨0, [], 0⟩, rfl⟩
    simp only [if_neg hStop]
    obtain ⟨r, hRc, hReceive⟩ := kernSendKexMsg_receive tls kenv (polarsslProcessMsg tls uenv u).2 k
    rw [hRc, hReceive]
    by_cases hGo : 0 ≤ r.rc
    · obtain ⟨reply, hRest⟩ := ih ((polarsslProcessMsg tls uenv u).2.receive r)
        (kernSendKexMsg tls kenv (polarsslProcessMsg tls uenv u).2 k).2.2
        ⟨n.processMsg + 1, n.sendKexMsg + 1⟩
      refine ⟨fun i => if i = 0 then r else reply (i - 1), ?_⟩
      simp only [if_pos hGo, ↓reduceIte, Nat.add_sub_cancel, Nat.succ_ne_zero]
      exact hRest
    · refine ⟨fun _ => r, ?_⟩
      simp only [if_neg hGo]
      rfl

theorem doKex_replies (turns keySize : Nat) (stack : List UInt8) (kexOutLen : Nat)
    (userCtx : Option AesniState) (k : KexCctx) :
    ∃ reply : Nat → Reply,
      (doKex tls uenv kenv turns keySize stack kexOutLen userCtx k).map (fun r => (r.1, r.2.1)) =
        (doKexReplies tls uenv reply turns keySize stack kexOutLen userCtx).map
          fun r => (r.1, r.2.1) := by
  obtain ⟨reply, hLoop⟩ := kexLoop_replies tls uenv kenv turns
    { ctx := polarsslInit keySize, kexBuf := stack, kexInLen := 0, kexOutLen := kexOutLen } k ⟨0, 0⟩
  refine ⟨reply, ?_⟩
  unfold doKex doKexReplies
  split
  · rfl
  revert hLoop
  cases kexLoop tls uenv kenv turns _ k with
  | none =>
    cases replyLoop tls uenv turns reply _ _ with
    | none => exact fun _ => rfl
    | some r => exact fun h => nomatch h
  | some r =>
    cases replyLoop tls uenv turns reply _ _ with
    | none => exact fun h => nomatch h
    | some r' =>
      obtain ⟨rc, u, k'⟩ := r
      obtain ⟨rc', u', n⟩ := r'
      intro h
      cases h
      dsimp only
      split <;> rfl

end Kernel

/-! ## Any backend -/

def Reply.GY (r : Reply) : Nat := ofBeBytes (r.kexBuf.tail.take (r.kexInLen - 1))

/-- An answer to the parameters, with a public value that `dhm_check_range` lets pass. -/
structure Reply.Answers (r : Reply) (P : Nat) : Prop where
  accepted : 0 ≤ r.rc
  nonempty : 1 ≤ r.kexInLen
  type : r.kexBuf.headD 0 = PRIV_CRYPT_KEX_RESPONSE
  lower : 2 ≤ r.GY
  upper : r.GY + 2 ≤ P

structure KexOutcome (tls : Tls1Prf) (keySize : Nat) (reply : Reply) (userCtx : Option AesniState)
    (rc : Int) (userCtx' : Option AesniState) (n : Calls) : Prop where
  processMsg_le : n.processMsg ≤ 2
  sendKexMsg_le : n.sendKexMsg ≤ 1
  /-- the cipher gets the key of a secret shared with the public value -/
  installs : rc = 0 → ∃ st X fault ctx key, userCtx = some st ∧
    ctx.K = reply.GY ^ X % dhmSampleP ∧ calcSecret tls fault keySize ctx = some key ∧
    userCtx' = some { st with key := key.take keySize }
  untouched : rc ≠ 0 → userCtx' = userCtx
  answered : rc = 0 → n.sendKexMsg = 1 ∧ reply.Answers dhmSampleP

theorem KexOutcome.failed {tls : Tls1Prf} {keySize : Nat} {reply : Reply} {userCtx : Option AesniState} {rc : Int}
    {n : Calls} (hProc : n.processMsg ≤ 2) (hSend : n.sendKexMsg ≤ 1) (hNeg : rc < 0) :
    KexOutcome tls keySize reply userCtx rc userCtx n := by
  have hNe : rc ≠ 0 := by omega
  exact ⟨hProc, hSend, fun hRc => absurd hRc hNe, fun _ => rfl, fun hRc => absurd hRc hNe⟩

/-- **The loop ends**, in its second turn at the latest: with an error, or an answer. -/
theorem replyLoop_ends (tls : Tls1Prf) (uenv : UserEnv) {u : UserKex} (hState : u.ctx.state = .start) (reply : Nat → Reply) :
    ∃ rc u' n, (∀ turns, replyLoop tls uenv (turns + 2) reply ⟨0, 0⟩ u = some (rc, u', n)) ∧
      n.processMsg ≤ 2 ∧ n.sendKexMsg ≤ 1 ∧
      (rc < 0 ∨ rc = 0 ∧ n.sendKexMsg = 1 ∧ (reply 0).Answers dhmSampleP ∧
        ∃ X ctx, ctx.K = (reply 0).GY ^ X % dhmSampleP ∧
          calcSecret tls (uenv.fault .preMaster) u.ctx.keySize ctx = some u'.ctx.key) := by
  simp only [replyLoop, polarsslProcessMsg, hState]
  cases hParams : sendParams uenv u with
  | mk rc u₁ =>
  dsimp only
  rcases sendParams_spec hParams with hNeg | ⟨rfl, X, GX, -, hSent, -⟩
  · refine ⟨rc, u₁, ⟨1, 0⟩, fun _ => if_pos (by omega), ?_⟩
    exact ⟨by decide, by decide, .inl hNeg⟩
  simp only [if_neg (show ¬ (1 : Int) < 1 by decide)]
  by_cases hGo : 0 ≤ (reply 0).rc
  · simp only [if_pos hGo]
    have hState₂ : (u₁.receive (reply 0)).ctx.state = .initSent := hSent.state
    simp only [hState₂]
    -- the second turn does not ask for another one
    cases hRecv : recvResponse tls uenv (u₁.receive (reply 0)) with
    | mk rc u₂ =>
    dsimp only
    rcases recvResponse_cases hRecv with hNeg | ⟨rfl, hLen, hType, hLower, hUpper, ctx, hK, hSecret⟩
    · refine ⟨rc, u₂, ⟨2, 1⟩, fun _ => if_pos (by omega), ?_⟩
      exact ⟨by decide, by decide, .inl hNeg⟩
    · refine ⟨0, u₂, ⟨2, 1⟩, fun _ => if_pos (by decide), by decide, by decide, ?_⟩
      have hP : (u₁.receive (reply 0)).ctx.dhmCtx.P = dhmSampleP := hSent.prime
      have hSize : (u₁.receive (reply 0)).ctx.keySize = u.ctx.keySize := hSent.keySize_eq
      rw [hP] at hUpper hK
      rw [hSize] at hSecret
      exact .inr ⟨rfl, rfl, ⟨hGo, hLen, hType, hLower, hUpper⟩, X, ctx, hSent.exponent ▸ hK, hSecret⟩
  · simp only [if_neg hGo]
    exact ⟨_, _, ⟨1, 1⟩, fun _ => rfl, by decide, by decide, .inl (Int.not_le.mp hGo)⟩

theorem privAesniSetKey_cases (env : UserEnv) (userCtx : Option AesniState) (key : List UInt8) :
    (∃ rc < 0, privAesniSetKey env userCtx key = (rc, userCtx)) ∨
      ∃ st, userCtx = some st ∧ privAesniSetKey env userCtx key = (0, some { st with key := key }) := by
  unfold privAesniSetKey
  cases userCtx with
  | none => exact .inl ⟨-PRIV_CRYPT_SOME_ERR, by decide, rfl⟩
  | some st =>
    by_cases hFault : (env.fault .setKey).isSome
    · simp only [if_pos hFault]
      exact .inl ⟨-PRIV_CRYPT_SOME_ERR, by decide, rfl⟩
    · simp only [if_neg hFault]
      exact .inr ⟨st, rfl, rfl⟩

/-- **Any backend.** `do_kex` ends after two turns; the cipher gets a key exactly if it returns
0, and that only after an answer in range. -/
theorem kex_any_backend (tls : Tls1Prf) (uenv : UserEnv) (reply : Nat → Reply) (keySize : Nat)
    (stack : List UInt8) (kexOutLen : Nat) (userCtx : Option AesniState) :
    ∃ rc userCtx' n,
      (∀ turns, doKexReplies tls uenv reply (turns + 2) keySize stack kexOutLen userCtx =
        some (rc, userCtx', n)) ∧
      KexOutcome tls keySize (reply 0) userCtx rc userCtx' n := by
  unfold doKexReplies
  by_cases hInit : (uenv.fault .init).isSome
  · simp only [if_pos hInit]
    exact ⟨-PRIV_CRYPT_SOME_ERR, userCtx, ⟨0, 0⟩, fun _ => rfl,
      KexOutcome.failed (by decide) (by decide) (by decide)⟩
  simp only [if_neg hInit]
  obtain ⟨rc, u', n, hLoop, hProc, hSend, hEnd⟩ := replyLoop_ends tls uenv
    (u := { ctx := polarsslInit keySize, kexBuf := stack, kexInLen := 0, kexOutLen := kexOutLen })
    rfl reply
  rcases hEnd with hNeg | ⟨rfl, hSent, hAnswers, X, ctx, hK, hSecret⟩
  · refine ⟨rc, userCtx, n, fun turns => ?_, KexOutcome.failed hProc hSend hNeg⟩
    simp only [hLoop turns, if_neg (show rc ≠ 0 by omega)]
  -- the library has a key, and the cipher may refuse it
  rcases privAesniSetKey_cases uenv userCtx (u'.ctx.key.take keySize) with
    ⟨rc, hNeg, hSet⟩ | ⟨st, hCtx, hSet⟩
  · refine ⟨rc, userCtx, n, fun turns => ?_, KexOutcome.failed hProc hSend hNeg⟩
    simp only [hLoop turns, ↓reduceIte, hSet]
  · refine ⟨0, some { st with key := u'.ctx.key.take keySize }, n, fun turns => ?_, hProc, hSend,
      ?_, ?_, ?_⟩
    · simp only [hLoop turns, ↓reduceIte, hSet]
    · exact fun _ => ⟨st, X, _, ctx, _, hCtx, hK, hSecret, rfl⟩
    · exact fun hRc => absurd rfl hRc
    · exact fun _ => ⟨hSent, hAnswers⟩

end Lacuna.Kex
