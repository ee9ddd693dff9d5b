import Mathlib.Algebra.Order.Ring.Nat
import Lacuna.Kex.User

/-!
# Key agreement

The two ends of a key exchange, run against each other: the loop ends in its second
turn at the latest, and if it ends with success the library has the key that the
kernel has installed (`key_agreement`).
-/

namespace Lacuna.Kex

open Lacuna.Lib Lacuna.Crypt

theorem pow_mod_comm (G P X Y : Nat) : (G ^ Y % P) ^ X % P = (G ^ X % P) ^ Y % P := by
  calc (G ^ Y % P) ^ X % P = (G ^ Y) ^ X % P := (Nat.pow_mod _ _ _).symm
    _ = (G ^ X) ^ Y % P := by rw [← Nat.pow_mul, ← Nat.pow_mul, Nat.mul_comm]
    _ = (G ^ X % P) ^ Y % P := Nat.pow_mod _ _ _

theorem mpiSize_public (X : Nat) : mpiSize (dhmSampleG ^ X % dhmSampleP) < 65536 := by
  have hLt : dhmSampleG ^ X % dhmSampleP < dhmSampleP := Nat.mod_lt _ (by decide +kernel)
  have hSize := mpiSize_le (Nat.lt_trans hLt (lt_pow_mpiSize dhmSampleP))
  rw [mpiSize_dhmSampleP] at hSize
  omega

section Exchange

variable (tls : Tls1Prf) (uenv : UserEnv) (kenv : KernEnv)

theorem kernSendKexMsg_spec {u u' : UserKex} {k k' : KexCctx} {rc : Int} {X : Nat}
    (hMsg : u.kexBuf.take u.kexOutLen =
      PRIV_CRYPT_KEX_PARAMS :: paramsMsg dhmSampleP dhmSampleG (dhmSampleG ^ X % dhmSampleP))
    (h : kernSendKexMsg tls kenv u k = (rc, u', k')) :
    rc < 0 ∨ rc = 1 ∧ u'.ctx = u.ctx ∧
      ∃ a : Answer tls k.keySize dhmSampleP dhmSampleG (dhmSampleG ^ X % dhmSampleP)
        (u'.kexBuf.take u'.kexInLen) k'.cctx.key, u'.kexInLen = a.len + 1 := by
  unfold kernSendKexMsg at h
  rw [hMsg] at h
  split at h
  · cases h
    exact .inl (by decide)
  · rename_i outSize out k₁ hIoctl
    obtain ⟨a, hLen⟩ := kexIoctl_ok (by rw [mpiSize_dhmSampleP]; omega)
      (by rw [mpiSize_dhmSampleG]; omega) (mpiSize_public X) hIoctl
    cases h
    have hOut : outSize = out.length := hLen.trans a.length_out.symm
    refine .inr ⟨if_pos (by omega), rfl, ?_⟩
    dsimp only
    rw [hOut, take_overwrite]
    exact ⟨a, by omega⟩

/-- **The loop ends**, in its second turn at the latest; on success the library has the key that
the kernel has installed. -/
theorem kexLoop_agree (turns : Nat) {u : UserKex} {k : KexCctx} (hState : u.ctx.state = .start)
    (hSize : u.ctx.keySize = k.keySize) :
    ∃ rc u' k', kexLoop tls uenv kenv (turns + 2) u k = some (rc, u', k') ∧
      (rc = 0 → u'.ctx.key.take k.keySize = k'.cctx.key ∧ k'.cctx.key.length = k.keySize) := by
  rw [kexLoop]
  simp only [polarsslProcessMsg, hState]
  -- the first turn sends the parameters
  cases hParams : sendParams uenv u with
  | mk rc u₁ =>
  dsimp only
  rcases sendParams_spec hParams with hNeg | ⟨rfl, X, GX, rfl, hSent, hMsg⟩
  · rw [if_pos (by omega)]
    exact ⟨rc, u₁, k, rfl, fun hRc => by omega⟩
  rw [if_neg (by decide)]
  cases hSend : kernSendKexMsg tls kenv u₁ k with
  | mk rc r =>
  obtain ⟨u₂, k₂⟩ := r
  dsimp only
  rcases kernSendKexMsg_spec tls kenv hMsg hSend with hNeg | ⟨rfl, hCtx, a, hLen⟩
  · rw [if_neg (by omega)]
    exact ⟨rc, u₂, k₂, rfl, fun hRc => by omega⟩
  rw [if_pos (by decide), kexLoop]
  -- the second reads the answer
  have hState₂ : u₂.ctx.state = .initSent := by rw [hCtx, hSent.state]
  simp only [polarsslProcessMsg, hState₂]
  cases hRecv : recvResponse tls uenv u₂ with
  | mk rc u₃ =>
  dsimp only
  rcases recvResponse_spec a.out_eq hLen a.fits hRecv with hNeg | ⟨rfl, ctx, hK, hKey⟩
  · rw [if_pos (by omega)]
    exact ⟨rc, u₃, k₂, rfl, fun hRc => by omega⟩
  · rw [if_pos (by decide)]
    refine ⟨0, u₃, k₂, rfl, fun _ => ?_⟩
    have hSecret : ctx.K = a.ctx.K := by
      rw [hK, hCtx, hSent.prime, hSent.exponent, a.secret, pow_mod_comm]
    rw [hCtx, hSent.keySize_eq, hSize] at hKey
    obtain ⟨hEq, hLength⟩ := calcSecret_eq hSecret hKey a.key_eq
    rw [a.installed, ← hEq]
    exact ⟨rfl, by rw [List.length_take, hLength, Nat.min_self]⟩

theorem doKex_agree (turns : Nat) (stack : List UInt8) (kexOutLen : Nat)
    (userCtx : Option AesniState) (k : KexCctx) :
    ∃ rc userCtx' k', doKex tls uenv kenv (turns + 2) k.keySize stack kexOutLen userCtx k =
        some (rc, userCtx', k') ∧
      (rc = 0 → ∃ st, userCtx' = some st ∧ st.key = k'.cctx.key ∧ st.key.length = k.keySize) := by
  unfold doKex
  by_cases hInit : (uenv.fault .init).isSome = true
  · rw [if_pos hInit]
    exact ⟨_, _, _, rfl, fun hRc => absurd hRc (by decide)⟩
  rw [if_neg hInit]
  obtain ⟨rc, u, k', hLoop, hAgree⟩ := kexLoop_agree tls uenv kenv turns
    (u := { ctx := polarsslInit k.keySize, kexBuf := stack, kexInLen := 0, kexOutLen := kexOutLen })
    (k := k) rfl rfl
  rw [hLoop]
  dsimp only
  by_cases hRc : rc = 0
  · rw [if_pos hRc]
    obtain ⟨hKey, hLength⟩ := hAgree hRc
    refine ⟨_, _, _, rfl, ?_⟩
    unfold privAesniSetKey
    split
    · exact fun h => absurd h (by decide)
    split
    · dsimp only
      exact fun h => absurd h (by decide)
    · intro _
      exact ⟨_, rfl, hKey, by rw [hKey, hLength]⟩
  · rw [if_neg hRc]
    exact ⟨rc, userCtx, k', rfl, fun h => absurd h hRc⟩

/-- **Key agreement.** Whatever is drawn and whatever fails, `do_kex` returns, and if it returns
0 both ends have one key, of the size of a key. -/
theorem key_agreement {turns : Nat} (hTurns : 2 ≤ turns) (stack : List UInt8) (kexOutLen : Nat)
    (userCtx : Option AesniState) (k : KexCctx) :
    ∃ rc userCtx' k', doKex tls uenv kenv turns k.keySize stack kexOutLen userCtx k =
        some (rc, userCtx', k') ∧
      (rc = 0 → ∃ st, userCtx' = some st ∧ st.key = k'.cctx.key ∧ st.key.length = k.keySize) := by
  obtain ⟨turns, rfl⟩ : ∃ n, turns = n + 2 := ⟨turns - 2, by omega⟩
  exact doKex_agree tls uenv kenv turns stack kexOutLen userCtx k

end Exchange

def repeatPrf : Tls1Prf where
  prf secret _ _ dlen := some (List.replicate dlen (UInt8.ofNat (ofBeBytes secret)))
  length_prf h := by
    cases h
    exact List.length_replicate

def blankKern : KexCctx where
  cctx := { id := 1, allocPid := 0, userLock := true, userRef := none, activated := false,
            dir := .enc, key := List.replicate 16 0, ctr := 0 }
  keySize := 16
  kexBuf := List.replicate MAX_KEX_MSG_LEN 0

theorem small_exponents_agree : ∃ st k',
    doKex repeatPrf { fault := fun _ => none, random := 1 }
        { fault := fun _ => none, random := 2 } 2 blankKern.keySize
        (List.replicate MAX_KEX_MSG_LEN 0) 0 (some { key := [], iv := 0 }) blankKern =
      some (0, some st, k') ∧ st.key = k'.cctx.key ∧ st.key.length = 16 := by
  obtain ⟨rc, userCtx, k', hRun, hAgree⟩ := key_agreement repeatPrf
    { fault := fun _ => none, random := 1 } { fault := fun _ => none, random := 2 }
    (Nat.le_refl 2) (List.replicate MAX_KEX_MSG_LEN 0) 0 (some { key := [], iv := 0 }) blankKern
  have hRc : (doKex repeatPrf { fault := fun _ => none, random := 1 }
      { fault := fun _ => none, random := 2 } 2 blankKern.keySize
      (List.replicate MAX_KEX_MSG_LEN 0) 0 (some { key := [], iv := 0 }) blankKern).map
      Prod.fst = some 0 := by decide +kernel
  rw [hRun] at hRc
  obtain rfl : rc = 0 := Option.some.inj hRc
  obtain ⟨st, rfl, hKey, hLength⟩ := hAgree rfl
  exact ⟨st, k', hRun, hKey, hLength⟩

end Lacuna.Kex
