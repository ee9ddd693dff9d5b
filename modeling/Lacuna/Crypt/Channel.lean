import Mathlib.Algebra.BigOperators.Group.List.Basic
import Lacuna.Crypt.Aesni

/-!
# Encrypted channels

A channel is a kernel context and a context of libprivcrypt. The kernel end
processes messages by pages, the other end by whole blocks and a padded tail;
both are counter mode over the whole message, so the ends stay in step
(`channel_in_step`).
-/

namespace Lacuna.Crypt

open Lacuna.Lib

structure Channel where
  kern : PrivCryptCtx
  user : PrivCctx

/-- What can be seen of one message at the two ends. -/
structure Delivery where
  kernRc : Int
  userRc : Int
  recovered : List UInt8
  kernCtr : BitVec 128
  userCtr : Option (BitVec 128)
  deriving DecidableEq

section Channel

variable (aes : List UInt8 → BlockStream 128 16)

/-- One message, encrypted by the one end and decrypted by the other. -/
def Channel.send (ch : Channel) (last : AesBlock) (msg : List UInt8) : Delivery × Channel :=
  match ch.kern.dir with
  | .enc =>
    let k := privCrypt (.ctr aes) ch.kern msg
    let u := userPrivCrypt aes last ch.user k.2.1
    ({ kernRc := k.1, userRc := u.1, recovered := u.2.1, kernCtr := k.2.2.ctr,
       userCtr := u.2.2.userCtx.map AesniState.iv }, { kern := k.2.2, user := u.2.2 })
  | .dec =>
    let u := userPrivCrypt aes last ch.user msg
    let k := privCrypt (.ctr aes) ch.kern u.2.1
    ({ kernRc := k.1, userRc := u.1, recovered := k.2.1, kernCtr := k.2.2.ctr,
       userCtr := u.2.2.userCtx.map AesniState.iv }, { kern := k.2.2, user := u.2.2 })

/-- Messages in order, each with what the buffer of its tail held before. -/
def Channel.sendAll : Channel → List (AesBlock × List UInt8) → List Delivery
  | _, [] => []
  | ch, (last, msg) :: msgs =>
    (ch.send aes last msg).1 :: (ch.send aes last msg).2.sendAll msgs

/-- Both ends hold the same key, direction and counter, and the kernel's is activated. -/
structure Paired (ch : Channel) (key : List UInt8) (iv : BitVec 128) : Prop where
  activated : ch.kern.activated = true
  kern_key : ch.kern.key = key
  kern_ctr : ch.kern.ctr = iv
  user : ch.user = { dir := ch.kern.dir, userCtx := some { key := key, iv := iv } }

variable {aes}

theorem privCrypt_ctr {cctx : PrivCryptCtx} (h : cctx.activated = true) (buf : List UInt8) :
    privCrypt (.ctr aes) cctx buf = (0, (ctrCrypt (aes cctx.key) cctx.ctr buf).1,
        { cctx with ctr := (ctrCrypt (aes cctx.key) cctx.ctr buf).2 }) := by
  rw [privCrypt, if_pos h, privCryptLoop_ctr]

/-- **One message** arrives, and the ends stay paired. -/
theorem Paired.send {ch : Channel} {key : List UInt8} {iv : BitVec 128} (h : Paired ch key iv)
    (last : AesBlock) (msg : List UInt8) :
    let ctr := iv + BitVec.ofNat 128 (blocksOf 16 msg.length)
    (ch.send aes last msg).1 =
        { kernRc := 0, userRc := 0, recovered := msg, kernCtr := ctr, userCtr := some ctr } ∧
      Paired (ch.send aes last msg).2 key ctr := by
  obtain ⟨kern, user⟩ := ch
  obtain ⟨hAct, hKey, hCtr, hUserEq⟩ := h
  dsimp only at hAct hKey hCtr hUserEq ⊢
  subst hKey hCtr hUserEq
  have hKern := fun buf => @privCrypt_ctr aes kern hAct buf
  have hUser := fun buf => userPrivCrypt_eq aes last kern.dir
    { key := kern.key, iv := kern.ctr } buf
  -- the second end undoes the first from the same counter
  have hTwice := @ctrCrypt_ctrCrypt _ _ (aes kern.key) kern.ctr (by decide) msg
  cases hDir : kern.dir with
  | enc =>
    rw [hDir] at hUser
    simp only [Channel.send, hDir, hKern, hUser, hTwice]
    exact ⟨rfl, hAct, rfl, rfl, by simp [ctrCrypt]⟩
  | dec =>
    rw [hDir] at hUser
    simp only [Channel.send, hDir, hKern, hUser, hTwice]
    exact ⟨rfl, hAct, rfl, rfl, by simp [ctrCrypt]⟩

theorem Paired.delivers {ch : Channel} {key : List UInt8} {iv : BitVec 128} (h : Paired ch key iv)
    (msgs : List (AesBlock × List UInt8)) :
    (ch.sendAll aes msgs).map (fun x => (x.kernRc, x.userRc, x.recovered)) =
      msgs.map fun m => (0, 0, m.2) := by
  induction msgs generalizing ch iv with
  | nil => rfl
  | cons m msgs ih =>
    obtain ⟨hFirst, hPaired⟩ := @Paired.send aes _ _ _ h m.1 m.2
    simp only [Channel.sendAll, List.map_cons, hFirst, ih hPaired]

def blocksSpent (msgs : List (AesBlock × List UInt8)) : Nat :=
  (msgs.map fun m => (m.2.length + 15) / 16).sum

/-- **Channels stay in step.** Ends with one key and one counter deliver every message, and
after each one both counters are the first one plus the blocks spent so far. -/
theorem channel_in_step {ch : Channel} {key : List UInt8} {iv : BitVec 128}
    (h : Paired ch key iv) (msgs : List (AesBlock × List UInt8)) :
    (ch.sendAll aes msgs).length = msgs.length ∧
      ∀ (i : Nat) (hi : i < msgs.length),
        let ctr := iv + BitVec.ofNat 128 (blocksSpent (msgs.take (i + 1)))
        (ch.sendAll aes msgs)[i]? = some
          { kernRc := 0, userRc := 0, recovered := msgs[i].2, kernCtr := ctr,
            userCtr := some ctr } := by
  induction msgs generalizing ch iv with
  | nil => exact ⟨rfl, fun i hi => absurd hi (Nat.not_lt_zero i)⟩
  | cons m msgs ih =>
    obtain ⟨last, msg⟩ := m
    obtain ⟨hFirst, hPaired⟩ := @Paired.send aes _ _ _ h last msg
    obtain ⟨hLen, hRest⟩ := ih hPaired
    simp only [Channel.sendAll]
    refine ⟨by rw [List.length_cons, List.length_cons, hLen], fun i hi => ?_⟩
    cases i with
    | zero =>
      rw [List.getElem?_cons_zero, hFirst]
      simp [blocksSpent, blocksOf]
    | succ i =>
      -- the counter of the rest starts where this message left it
      have hAt := hRest i (by simpa using hi)
      simp only [List.getElem?_cons_succ, hAt, List.getElem_cons_succ, List.take_succ_cons]
      have hSum : iv + BitVec.ofNat 128 (blocksOf 16 msg.length) +
            BitVec.ofNat 128 (blocksSpent (msgs.take (i + 1))) =
          iv + BitVec.ofNat 128 (blocksSpent ((last, msg) :: msgs.take (i + 1))) := by
        rw [BitVec.add_assoc, ← BitVec.ofNat_add]
        simp only [blocksSpent, blocksOf, List.map_cons, List.sum_cons]
        rfl
      rw [hSum]

end Channel

def repeatCtr : List UInt8 → BlockStream 128 16 := fun _ =>
  { block := fun ctr => List.replicate 16 (UInt8.ofNat ctr.toNat),
    length_block := fun _ => List.length_replicate }

def wrapChannel : Channel where
  kern := { id := 1, allocPid := 7, userLock := false, userRef := none, activated := true,
            dir := .dec, key := List.replicate 16 9, ctr := -1 }
  user := { dir := .dec, userCtx := some { key := List.replicate 16 9, iv := -1 } }

theorem wrapChannel_paired : Paired wrapChannel (List.replicate 16 9) (-1) :=
  ⟨rfl, rfl, rfl, rfl⟩

theorem wrapChannel_in_step :
    (wrapChannel.sendAll repeatCtr
      [(⟨List.replicate 16 0, rfl⟩, []), (⟨List.replicate 16 1, rfl⟩, [1, 2, 3]),
        (⟨List.replicate 16 2, rfl⟩, List.replicate 20 4)])[2]? =
      some { kernRc := 0, userRc := 0, recovered := List.replicate 20 4, kernCtr := 2,
             userCtr := some 2 } :=
  (channel_in_step wrapChannel_paired _).2 2 (by decide)

end Lacuna.Crypt
