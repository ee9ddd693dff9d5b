import Lacuna.Lib.Ctr

/-!
# Encryption contexts of the kernel

`drivers/priv/crypto.c`: a context has a key, the counter of its cipher, a
direction and an activation flag, and `priv_crypt` processes a message one
page at a time. The block cipher is a parameter (`Blkcipher`), since a call of
it may fail; `Blkcipher.ctr` is `ctr(aes)` when it does not.
-/

namespace Lacuna.Crypt

open Lacuna.Lib List

variable {blk : Blkcipher}

def EINVAL : Int := 22
def ENODEV : Int := 19
def EBUSY : Int := 16
def EPIPE : Int := 32

def PAGE_SIZE : Nat := 4096

/-- `PRIV_CRYPT_DIR_ENC`, `PRIV_CRYPT_DIR_DEC`: what the kernel does with the messages. -/
inductive Dir where
  | enc
  | dec
  deriving DecidableEq

/-- Less its buffers. `ctr` is the counter of the cipher. -/
structure PrivCryptCtx where
  id : UInt32
  allocPid : Nat
  userLock : Bool
  userRef : Option Nat
  activated : Bool
  dir : Dir
  key : List UInt8
  ctr : BitVec 128
  deriving DecidableEq

/-- `crypto_blkcipher_encrypt` and `crypto_blkcipher_decrypt`: a negative error, or the result
and the new counter. -/
structure Blkcipher where
  encrypt : List UInt8 → BitVec 128 → List UInt8 → Except Int (List UInt8 × BitVec 128)
  decrypt : List UInt8 → BitVec 128 → List UInt8 → Except Int (List UInt8 × BitVec 128)

/-- `ctr(aes)`, over the keystream that AES makes of a key and a counter. -/
def Blkcipher.ctr (aes : List UInt8 → BlockStream 128 16) : Blkcipher where
  encrypt key ctr data := .ok (ctrCrypt (aes key) ctr data)
  decrypt key ctr data := .ok (ctrCrypt (aes key) ctr data)

def Blkcipher.run (blk : Blkcipher) (cctx : PrivCryptCtx) (data : List UInt8) :
    Except Int (List UInt8 × BitVec 128) :=
  match cctx.dir with
  | .enc => blk.encrypt cctx.key cctx.ctr data
  | .dec => blk.decrypt cctx.key cctx.ctr data

/-- The loop of `priv_crypt`. When the cipher fails, the pages before have been replaced. -/
def privCryptLoop (blk : Blkcipher) (cctx : PrivCryptCtx) (buf : List UInt8) :
    Int × List UInt8 × PrivCryptCtx :=
  if buf = [] then (0, [], cctx)
  else
    let amt := min buf.length PAGE_SIZE
    match blk.run cctx (buf.take amt) with
    | .error rc => (rc, buf, cctx)
    | .ok (out, ctr) =>
      let (rc, rest, cctx) := privCryptLoop blk { cctx with ctr := ctr } (buf.drop amt)
      (rc, out ++ rest, cctx)
  termination_by buf.length
  decreasing_by
    rename_i hNe
    have hPos : 0 < buf.length := List.length_pos_iff.mpr hNe
    simp only [List.length_drop, PAGE_SIZE]
    omega

/-- In place: the return code, the buffer and the context afterwards. -/
def privCrypt (blk : Blkcipher) (cctx : PrivCryptCtx) (buf : List UInt8) :
    Int × List UInt8 × PrivCryptCtx :=
  if cctx.activated then privCryptLoop blk cctx buf else (-EINVAL, buf, cctx)

theorem privCryptLoop_frame (blk : Blkcipher) (cctx : PrivCryptCtx) (buf : List UInt8) :
    ∃ ctr, (privCryptLoop blk cctx buf).2.2 = { cctx with ctr := ctr } := by
  fun_induction privCryptLoop blk cctx buf with
  | case1 cctx => exact ⟨cctx.ctr, rfl⟩
  | case2 cctx buf hNe amt rc hRun => exact ⟨cctx.ctr, rfl⟩
  | case3 cctx buf hNe amt out ctr hRun rc rest cctx' hLoop ih =>
    rw [hLoop] at ih
    exact ih

theorem privCrypt_frame (blk : Blkcipher) (cctx : PrivCryptCtx) (buf : List UInt8) :
    ∃ ctr, (privCrypt blk cctx buf).2.2 = { cctx with ctr := ctr } := by
  unfold privCrypt
  split
  · exact privCryptLoop_frame blk cctx buf
  · exact ⟨cctx.ctr, rfl⟩

def privSetActivated (cctx : PrivCryptCtx) (activated : Bool) : PrivCryptCtx :=
  { cctx with activated := activated }

/-! ## Page by page -/

section Pages

variable {blk : Blkcipher} {cctx : PrivCryptCtx} {buf : List UInt8}

theorem privCryptLoop_nil (blk : Blkcipher) (cctx : PrivCryptCtx) :
    privCryptLoop blk cctx [] = (0, [], cctx) := by
  rw [privCryptLoop, if_pos rfl]

theorem take_page (buf : List UInt8) : buf.take (min buf.length PAGE_SIZE) = buf.take PAGE_SIZE := by
  rw [Nat.min_comm, ← take_eq_take_min]

theorem drop_page (buf : List UInt8) : buf.drop (min buf.length PAGE_SIZE) = buf.drop PAGE_SIZE := by
  rw [Nat.min_comm, ← drop_eq_drop_min]

theorem length_drop_page (hNe : buf ≠ []) : (buf.drop PAGE_SIZE).length < buf.length := by
  have hPos : 0 < buf.length := List.length_pos_iff.mpr hNe
  rw [length_drop, PAGE_SIZE]
  omega

theorem privCryptLoop_error (hNe : buf ≠ []) {rc : Int}
    (hRun : blk.run cctx (buf.take PAGE_SIZE) = .error rc) :
    privCryptLoop blk cctx buf = (rc, buf, cctx) := by
  rw [privCryptLoop, if_neg hNe]
  simp only [take_page, hRun]

theorem privCryptLoop_ok (hNe : buf ≠ []) {page : List UInt8 × BitVec 128}
    (hRun : blk.run cctx (buf.take PAGE_SIZE) = .ok page) :
    privCryptLoop blk cctx buf =
      ((privCryptLoop blk { cctx with ctr := page.2 } (buf.drop PAGE_SIZE)).1,
        page.1 ++ (privCryptLoop blk { cctx with ctr := page.2 } (buf.drop PAGE_SIZE)).2.1,
        (privCryptLoop blk { cctx with ctr := page.2 } (buf.drop PAGE_SIZE)).2.2) := by
  rw [privCryptLoop, if_neg hNe]
  simp only [take_page, drop_page, hRun]

end Pages

/-! ## Pages do not matter -/

section Ctr

variable (aes : List UInt8 → BlockStream 128 16)

theorem Blkcipher.run_ctr (cctx : PrivCryptCtx) (data : List UInt8) :
    (Blkcipher.ctr aes).run cctx data = .ok (ctrCrypt (aes cctx.key) cctx.ctr data) := by
  cases hDir : cctx.dir <;> simp only [Blkcipher.run, Blkcipher.ctr, hDir]

/-- **The kernel side of a channel**: if the cipher does not fail, pages cannot be seen. -/
theorem privCryptLoop_ctr (cctx : PrivCryptCtx) (buf : List UInt8) :
    privCryptLoop (.ctr aes) cctx buf = (0, (ctrCrypt (aes cctx.key) cctx.ctr buf).1,
        { cctx with ctr := (ctrCrypt (aes cctx.key) cctx.ctr buf).2 }) := by
  -- strong induction on the length: every turn of the loop takes a page off
  induction hn : buf.length using Nat.strong_induction_on generalizing cctx buf with
  | _ n ih =>
  subst hn
  by_cases hNil : buf = []
  · rw [hNil, privCryptLoop_nil, ctrCrypt_nil (by decide)]
  · -- a page is a whole number of blocks
    have hPage : 16 ∣ PAGE_SIZE := ⟨256, rfl⟩
    rw [privCryptLoop_ok hNil (Blkcipher.run_ctr aes ..), ih _ (length_drop_page hNil) _ _ rfl]
    rw [ctrCrypt_take_drop (by decide) hPage buf]

end Ctr

/-! ## The length of a message -/

/-- A stream cipher: the result is as long as the data. -/
structure Blkcipher.KeepsLength (blk : Blkcipher) : Prop where
  encrypt : ∀ {key ctr data out ctr'}, blk.encrypt key ctr data = .ok (out, ctr') →
    out.length = data.length
  decrypt : ∀ {key ctr data out ctr'}, blk.decrypt key ctr data = .ok (out, ctr') →
    out.length = data.length

theorem Blkcipher.keepsLength_ctr (aes : List UInt8 → BlockStream 128 16) :
    (Blkcipher.ctr aes).KeepsLength := by
  have hLen : ∀ {key ctr data out ctr'},
      Except.ok (ctrCrypt (aes key) ctr data) = (Except.ok (out, ctr') : Except Int _) →
      out.length = data.length := by
    intro key ctr data out ctr' h
    have hPair := Except.ok.inj h
    have hOut : (ctrCrypt (aes key) ctr data).1 = out := congrArg Prod.fst hPair
    rw [← hOut, length_ctrCrypt (by decide)]
  exact ⟨hLen, hLen⟩

theorem Blkcipher.KeepsLength.run (h : blk.KeepsLength) {cctx : PrivCryptCtx}
    {data out : List UInt8} {ctr : BitVec 128} (hRun : blk.run cctx data = .ok (out, ctr)) :
    out.length = data.length := by
  unfold Blkcipher.run at hRun
  split at hRun
  · exact h.encrypt hRun
  · exact h.decrypt hRun

theorem length_privCryptLoop (h : blk.KeepsLength) (cctx : PrivCryptCtx)
    (buf : List UInt8) : (privCryptLoop blk cctx buf).2.1.length = buf.length := by
  fun_induction privCryptLoop blk cctx buf with
  | case1 cctx => rfl
  | case2 cctx buf hNe amt rc hRun => rfl
  | case3 cctx buf hNe amt out ctr hRun rc rest cctx' hLoop ih =>
    rw [hLoop] at ih
    have hRest : rest.length = (buf.drop amt).length := ih
    rw [length_append, h.run hRun, hRest, ← length_append, take_append_drop]

theorem length_privCrypt (h : blk.KeepsLength) (cctx : PrivCryptCtx)
    (buf : List UInt8) : (privCrypt blk cctx buf).2.1.length = buf.length := by
  unfold privCrypt
  split
  · exact length_privCryptLoop h cctx buf
  · rfl

/-! ## A cipher that may fail -/

section Faulty

variable (fails : List UInt8 → BitVec 128 → List UInt8 → Bool)
variable (aes : List UInt8 → BlockStream 128 16)

variable {buf : List UInt8}

def Blkcipher.faulty : Blkcipher where
  encrypt key ctr data := if fails key ctr data then .error (-EINVAL) else .ok (ctrCrypt (aes key) ctr data)
  decrypt key ctr data := if fails key ctr data then .error (-EINVAL) else .ok (ctrCrypt (aes key) ctr data)

/-- The cipher fails on no page of the message; a page is 256 blocks. -/
def CipherWorks (cctx : PrivCryptCtx) (buf : List UInt8) : Prop :=
  ∀ i, i * PAGE_SIZE < buf.length →
    fails cctx.key (cctx.ctr + BitVec.ofNat 128 (i * 256))
      ((buf.drop (i * PAGE_SIZE)).take PAGE_SIZE) = false

variable {fails aes}

theorem Blkcipher.run_faulty (cctx : PrivCryptCtx) (data : List UInt8) :
    (Blkcipher.faulty fails aes).run cctx data =
      if fails cctx.key cctx.ctr data then .error (-EINVAL)
      else .ok (ctrCrypt (aes cctx.key) cctx.ctr data) := by
  cases hDir : cctx.dir <;> simp only [Blkcipher.run, Blkcipher.faulty, hDir]

theorem Blkcipher.keepsLength_faulty : (Blkcipher.faulty fails aes).KeepsLength := by
  have hLen : ∀ {key ctr data out ctr'}, (if fails key ctr data then Except.error (-EINVAL)
        else Except.ok (ctrCrypt (aes key) ctr data)) = (Except.ok (out, ctr') : Except Int _) →
      out.length = data.length := by
    intro key ctr data out ctr' h
    split at h
    · cases h
    · exact (Blkcipher.keepsLength_ctr aes).encrypt h
  exact ⟨hLen, hLen⟩

theorem cipherWorks_iff (aes : List UInt8 → BlockStream 128 16) {cctx : PrivCryptCtx} (hNe : buf ≠ []) :
    CipherWorks fails cctx buf ↔ fails cctx.key cctx.ctr (buf.take PAGE_SIZE) = false ∧
        CipherWorks fails
          { cctx with ctr := (ctrCrypt (aes cctx.key) cctx.ctr (buf.take PAGE_SIZE)).2 }
          (buf.drop PAGE_SIZE) := by
  have hPos : 0 < buf.length := List.length_pos_iff.mpr hNe
  -- a page with something behind it is a full one
  have hPage : ∀ i, i * PAGE_SIZE < (buf.drop PAGE_SIZE).length → (i + 1) * PAGE_SIZE < buf.length ∧
      (ctrCrypt (aes cctx.key) cctx.ctr (buf.take PAGE_SIZE)).2 + BitVec.ofNat 128 (i * 256) =
        cctx.ctr + BitVec.ofNat 128 ((i + 1) * 256) := by
    intro i hi
    rw [length_drop] at hi
    have hFull : (buf.take PAGE_SIZE).length = 256 * 16 := length_take_of_le (by omega)
    refine ⟨by rw [Nat.succ_mul]; omega, ?_⟩
    simp only [ctrCrypt]
    rw [hFull, blocksOf_mul (by decide), BitVec.add_assoc, ← BitVec.ofNat_add, Nat.succ_mul,
      Nat.add_comm 256]
  have hDrop : ∀ i, (buf.drop PAGE_SIZE).drop (i * PAGE_SIZE) = buf.drop ((i + 1) * PAGE_SIZE) := by
    intro i
    rw [drop_drop, Nat.succ_mul, Nat.add_comm]
  constructor
  · refine fun h => ⟨by simpa using h 0 (by rwa [Nat.zero_mul]), fun i hi => ?_⟩
    obtain ⟨hLt, hCtr⟩ := hPage i hi
    rw [hDrop, hCtr]
    exact h (i + 1) hLt
  · rintro ⟨hFirst, hRest⟩ i hi
    cases i with
    | zero => simpa using hFirst
    | succ i =>
      have hi' : i * PAGE_SIZE < (buf.drop PAGE_SIZE).length := by
        rw [Nat.succ_mul] at hi
        rw [length_drop]
        omega
      have hNext := hRest i hi'
      rw [hDrop] at hNext
      dsimp only at hNext
      rwa [(hPage i hi').2] at hNext

theorem privCryptLoop_of_works {cctx : PrivCryptCtx} (h : CipherWorks fails cctx buf) :
    privCryptLoop (.faulty fails aes) cctx buf = privCryptLoop (.ctr aes) cctx buf := by
  induction hn : buf.length using Nat.strong_induction_on generalizing cctx buf with
  | _ n ih =>
  subst hn
  by_cases hNil : buf = []
  · rw [hNil, privCryptLoop_nil, privCryptLoop_nil]
  · obtain ⟨hFirst, hRest⟩ := (cipherWorks_iff aes hNil).mp h
    have hRun : (Blkcipher.faulty fails aes).run cctx (buf.take PAGE_SIZE) =
        .ok (ctrCrypt (aes cctx.key) cctx.ctr (buf.take PAGE_SIZE)) := by
      rw [Blkcipher.run_faulty, hFirst]
      rfl
    rw [privCryptLoop_ok hNil hRun, privCryptLoop_ok hNil (Blkcipher.run_ctr aes ..)]
    rw [ih _ (length_drop_page hNil) hRest rfl]

theorem privCryptLoop_of_not_works {cctx : PrivCryptCtx} (h : ¬ CipherWorks fails cctx buf) :
    (privCryptLoop (.faulty fails aes) cctx buf).1 < 0 ∧
      Shows buf (privCryptLoop (.faulty fails aes) cctx buf).2.1 := by
  induction hn : buf.length using Nat.strong_induction_on generalizing cctx buf with
  | _ n ih =>
  subst hn
  have hNil : buf ≠ [] := by
    rintro rfl
    exact h fun i hi => absurd hi (Nat.not_lt_zero _)
  cases hFails : fails cctx.key cctx.ctr (buf.take PAGE_SIZE) with
  | true =>
    have hRun : (Blkcipher.faulty fails aes).run cctx (buf.take PAGE_SIZE) = .error (-EINVAL) := by
      rw [Blkcipher.run_faulty, hFails]
      rfl
    rw [privCryptLoop_error hNil hRun]
    exact ⟨(by decide : -EINVAL < 0), shows_self hNil⟩
  | false =>
    have hRun : (Blkcipher.faulty fails aes).run cctx (buf.take PAGE_SIZE) =
        .ok (ctrCrypt (aes cctx.key) cctx.ctr (buf.take PAGE_SIZE)) := by
      rw [Blkcipher.run_faulty, hFails]
      rfl
    have hRest := fun hRest => h ((cipherWorks_iff aes hNil).mpr ⟨hFails, hRest⟩)
    rw [privCryptLoop_ok hNil hRun]
    have hLen : (ctrCrypt (aes cctx.key) cctx.ctr (buf.take PAGE_SIZE)).1.length =
        (buf.take PAGE_SIZE).length := length_ctrCrypt (by decide) _
    obtain ⟨hRc, hShows⟩ := ih _ (length_drop_page hNil) hRest rfl
    refine ⟨hRc, ?_⟩
    have hAll := hShows.append_left hLen
    rwa [take_append_drop] at hAll

end Faulty

end Lacuna.Crypt
