import Mathlib.Data.List.Pairwise
import Lacuna.Lib.Trace
import Lacuna.Lib.Ctr
import Lacuna.Swap.Privos

/-!
# Private swap — the keystream

`priv_encrypt_page` with the cipher it uses, `ctr(aes)` of the kernel: each
context has a transform with a key, which `priv_ctx_alloc` draws, and an IV,
which `crypto_blkcipher_set_iv` sets and every call advances by one for each
block of 16 bytes. `Cryptor` adds to the tree of swapped pages the transforms
and the history of all encryptions. The IV is zero for every page, so any two
encryptions under one context spend the same counter blocks.
-/

namespace Lacuna.Swap

open Lacuna.Lib Function

def PAGE_SIZE : Nat := 4096

abbrev PageData := { bytes : List UInt8 // bytes.length = PAGE_SIZE }

structure Tfm where
  key : List UInt8
  iv : BitVec 128

/-- One call of `crypto_blkcipher_encrypt`: the context, its first counter block, and the page. -/
structure Encryption where
  ctx : Nat
  iv : BitVec 128
  page : PageData

def Encryption.counterBlocks (x : Encryption) : List (BitVec 128) :=
  (List.range (blocksOf 16 PAGE_SIZE)).map fun i => x.iv + BitVec.ofNat 128 i

structure Cryptor where
  priv : Privos PageData
  tfm : Nat → Option Tfm
  /-- history: the encryptions so far, the last one first -/
  log : List Encryption

/-! ## Encryption and decryption -/

section Cipher

variable (aes : List UInt8 → BlockStream 128 16)

/-- `crypto_blkcipher_encrypt` and `crypto_blkcipher_decrypt` on a page. -/
def cryptoBlkcipherCrypt (tfm : Tfm) (page : PageData) : PageData × Tfm :=
  (⟨(ctrCrypt (aes tfm.key) tfm.iv page.1).1, (length_ctrCrypt (by decide) page.1).trans page.2⟩,
    { tfm with iv := (ctrCrypt (aes tfm.key) tfm.iv page.1).2 })

def cryptoBlkcipherSetIv (tfm : Tfm) (iv : BitVec 128) : Tfm := { tfm with iv := iv }

/-- The encrypting part of `priv_encrypt_page`. `none` is a NULL
dereference. -/
def encryptInto (s : Cryptor) (swpd : PrivSwappedPage) (page scratch : Nat) : Option Cryptor := do
  let tfm := cryptoBlkcipherSetIv (← s.tfm swpd.ctx) 0
  let plain := s.priv.mem page
  let (out, tfm') := cryptoBlkcipherCrypt aes tfm plain
  return {
    priv := setSwappedBit { s.priv with mem := update s.priv.mem scratch out }
      (s.priv.pagePrivate page) 1
    tfm := update s.tfm swpd.ctx (some tfm')
    log := ⟨swpd.ctx, tfm.iv, plain⟩ :: s.log }

def cryptorEncryptPage (s : Cryptor) (page : Nat) : Option (Nat × Cryptor) :=
  let entry := s.priv.pagePrivate page
  match findPrivPage s.priv entry with
  | none => some (page, s)
  | some swpd =>
    if swpd.page ≠ some page then
      some (page, { s with priv := deleteFromPriv (setSwappedBit s.priv entry 0) entry })
    else
      match swpd.scratch with
      | none => some (page, { s with priv := deleteFromPriv (setSwappedBit s.priv entry 0) entry })
      | some scratch =>
        if s.priv.pagePrivate scratch ≠ entry then none
        else (encryptInto aes s swpd page scratch).map (scratch, ·)

def cryptorDecryptPage (s : Cryptor) (page : Nat) : Option Cryptor :=
  match findPrivPage s.priv (s.priv.pagePrivate page) with
  | none => some s
  | some swpd =>
    match s.priv.ctxs swpd.ctx with
    | none => some s
    | some k =>
      if k.mapcount = 0 then some s
      else do
        let tfm := cryptoBlkcipherSetIv (← s.tfm swpd.ctx) 0
        let (out, tfm') := cryptoBlkcipherCrypt aes tfm (s.priv.mem page)
        return { s with
          priv := { s.priv with mem := update s.priv.mem page out }
          tfm := update s.tfm swpd.ctx (some tfm') }

/-- What the transforms of `s` do to a page, from an IV of zero. -/
def zeroIvCrypt (s : Cryptor) (ctx : Nat) (page : PageData) : PageData :=
  match s.tfm ctx with
  | some tfm => (cryptoBlkcipherCrypt aes (cryptoBlkcipherSetIv tfm 0) page).1
  | none => page

inductive CryptorOp where
  /-- `priv_ctx_alloc` with the key it draws -/
  | privCtxAlloc (ctx : Nat) (key : List UInt8)
  /-- the page enters the swap cache under `entry`, or leaves it (0) -/
  | setPagePrivate (page entry : Nat)
  | addToPriv (o : PrivAlloc) (page mapcount : Nat) (vmas : Option (List AnonVma))
  /-- someone writes to the page -/
  | setPage (page : Nat) (data : PageData)
  | setSwappedBit (entry val : Nat)
  | deleteFromPriv (entry : Nat)
  | deleteScratchPage (entry : Nat)
  | privEncryptPage (page : Nat)
  | privDecryptPage (page : Nat)

/-- `none` if the call is not made in this state or does not return. -/
def cryptorStep (s : Cryptor) : CryptorOp → Option Cryptor
  | .privCtxAlloc ctx key =>
    if (s.priv.ctxs ctx).isSome ∨ (s.tfm ctx).isSome then none
    else some { s with
      priv := { s.priv with ctxs := update s.priv.ctxs ctx (some ⟨1, 0⟩) }
      tfm := update s.tfm ctx (some ⟨key, 0⟩) }
  | .setPagePrivate page entry =>
    some { s with priv :=
      { s.priv with pagePrivate := update s.priv.pagePrivate page entry } }
  | .addToPriv o page mapcount vmas =>
    some { s with priv := (addToPriv s.priv o page mapcount vmas).2 }
  | .setPage page data =>
    some { s with priv := { s.priv with mem := update s.priv.mem page data } }
  | .setSwappedBit entry val => some { s with priv := setSwappedBit s.priv entry val }
  | .deleteFromPriv entry => some { s with priv := deleteFromPriv s.priv entry }
  | .deleteScratchPage entry => some { s with priv := deleteScratchPage s.priv entry }
  | .privEncryptPage page => (cryptorEncryptPage aes s page).map Prod.snd
  | .privDecryptPage page => cryptorDecryptPage aes s page

def CryptorStep (s : Cryptor) (op : CryptorOp) (t : Cryptor) : Prop :=
  cryptorStep aes s op = some t

end Cipher

/-! ## Reuse -/

/-- No two encryptions of different pages under one context have a counter
block in common. -/
def NoReuse (s : Cryptor) : Prop :=
  s.log.Pairwise fun x y =>
    x.ctx = y.ctx → x.page ≠ y.page → x.counterBlocks.Disjoint y.counterBlocks

/-- `priv_encrypt_page(page)` encrypts, and does so under `ctx`. -/
def EncryptsUnder (st : Privos PageData) (page ctx : Nat) : Prop :=
  ∃ swpd, findPrivPage st (st.pagePrivate page) = some swpd ∧ swpd.ctx = ctx ∧
    swpd.page = some page ∧ swpd.scratch.isSome

/-- A page about to be encrypted is like all that have been under the same context. -/
def SameContents (s : Cryptor) : CryptorOp → Prop
  | .privEncryptPage page => ∀ ctx, EncryptsUnder s.priv page ctx →
      ∀ x ∈ s.log, x.ctx = ctx → x.page = s.priv.mem page
  | _ => True

theorem first_mem_counterBlocks (x : Encryption) : x.iv ∈ x.counterBlocks := by
  refine List.mem_map.mpr ⟨0, List.mem_range.mpr (by decide), ?_⟩
  simp

section Reuse

variable {aes : List UInt8 → BlockStream 128 16} {s t : Cryptor}

variable {op : CryptorOp}

theorem cryptorDecryptPage_log {page : Nat} (h : cryptorDecryptPage aes s page = some t) :
    t.log = s.log := by
  unfold cryptorDecryptPage at h
  split at h
  · cases h
    rfl
  · split at h
    · cases h
      rfl
    · split at h
      · cases h
        rfl
      · obtain ⟨tfm, -, h⟩ := Option.bind_eq_some_iff.mp h
        cases h
        rfl

/-- **What `priv_encrypt_page` does**: without the cipher it is the function as the page's life
has it, and it adds to the history the page it encrypts, from an IV of zero. -/
theorem cryptorEncryptPage_spec {page out : Nat}
    (h : cryptorEncryptPage aes s page = some (out, t)) :
    privEncryptPage (zeroIvCrypt aes s) s.priv page = some (out, t.priv) ∧
      (((∀ ctx, ¬ EncryptsUnder s.priv page ctx) ∧ t.log = s.log) ∨
        ∃ ctx, EncryptsUnder s.priv page ctx ∧ t.log = ⟨ctx, 0, s.priv.mem page⟩ :: s.log) := by
  unfold cryptorEncryptPage at h
  unfold privEncryptPage
  cases hFind : findPrivPage s.priv (s.priv.pagePrivate page) with
  | none =>
    simp only [hFind] at h ⊢
    cases h
    refine ⟨rfl, .inl ⟨?_, rfl⟩⟩
    rintro ctx ⟨swpd, hSome, -⟩
    rw [hFind] at hSome
    cases hSome
  | some swpd =>
    have hOnly : ∀ ctx, EncryptsUnder s.priv page ctx →
        swpd.page = some page ∧ swpd.scratch.isSome := by
      rintro ctx ⟨swpd', hSome, -, hPage, hScratch⟩
      rw [hFind] at hSome
      cases hSome
      exact ⟨hPage, hScratch⟩
    simp only [hFind] at h ⊢
    by_cases hPage : swpd.page = some page
    · simp only [hPage, ne_eq, not_true_eq_false, if_false] at h ⊢
      cases hScratch : swpd.scratch with
      | none =>
        simp only [hScratch] at h ⊢
        cases h
        refine ⟨rfl, .inl ⟨fun ctx hEnc => ?_, rfl⟩⟩
        have hSome := (hOnly ctx hEnc).2
        rw [hScratch] at hSome
        exact Bool.false_ne_true hSome
      | some scratch =>
        simp only [hScratch] at h ⊢
        split at h
        · cases h
        · rename_i hEntry
          rw [if_neg hEntry]
          obtain ⟨u, hInto, hu⟩ := Option.map_eq_some_iff.mp h
          cases hu
          obtain ⟨tfm, hTfm, hInto⟩ := Option.bind_eq_some_iff.mp hInto
          cases hInto
          refine ⟨?_, .inr ⟨swpd.ctx, ⟨swpd, hFind, rfl, hPage, by rw [hScratch]; rfl⟩, rfl⟩⟩
          simp only [zeroIvCrypt, hTfm]
          rfl
    · simp only [hPage, ne_eq, not_false_eq_true, if_true] at h ⊢
      cases h
      exact ⟨rfl, .inl ⟨fun ctx hEnc => hPage (hOnly ctx hEnc).1, rfl⟩⟩

theorem CryptorStep.log (h : CryptorStep aes s op t) : (t.log = s.log ∧ SameContents s op) ∨
      ∃ page ctx, op = .privEncryptPage page ∧ EncryptsUnder s.priv page ctx ∧
        t.log = ⟨ctx, 0, s.priv.mem page⟩ :: s.log := by
  cases op with
  | privEncryptPage page =>
    obtain ⟨⟨out, u⟩, hEnc, rfl⟩ := Option.map_eq_some_iff.mp h
    rcases (cryptorEncryptPage_spec hEnc).2 with ⟨hNot, hLog⟩ | ⟨ctx, hUnder, hLog⟩
    · exact .inl ⟨hLog, fun ctx hUnder => absurd hUnder (hNot ctx)⟩
    · exact .inr ⟨page, ctx, rfl, hUnder, hLog⟩
  | privDecryptPage page => exact .inl ⟨cryptorDecryptPage_log h, trivial⟩
  | privCtxAlloc ctx key =>
    simp only [CryptorStep, cryptorStep] at h
    split at h
    · cases h
    · cases h
      exact .inl ⟨rfl, trivial⟩
  | setPagePrivate | addToPriv | setPage | setSwappedBit | deleteFromPriv | deleteScratchPage =>
    cases h
    exact .inl ⟨rfl, trivial⟩

/-- What a run keeps as long as it never encrypts two different pages under
one context. -/
structure ReuseInv (s : Cryptor) : Prop where
  noReuse : NoReuse s
  iv : ∀ x ∈ s.log, x.iv = 0

theorem CryptorStep.reuseInv (hInv : ReuseInv s) (h : CryptorStep aes s op t)
    (hSame : SameContents s op) : ReuseInv t := by
  rcases h.log with ⟨hLog, -⟩ | ⟨page, ctx, rfl, hUnder, hLog⟩
  · exact ⟨by rw [NoReuse, hLog]; exact hInv.noReuse, by rw [hLog]; exact hInv.iv⟩
  · refine ⟨?_, ?_⟩
    · rw [NoReuse, hLog, List.pairwise_cons]
      refine ⟨fun x hx hCtx hNe => ?_, hInv.noReuse⟩
      exact absurd (hSame ctx hUnder x hx hCtx.symm).symm hNe
    · rw [hLog]
      exact List.forall_mem_cons.mpr ⟨rfl, hInv.iv⟩

theorem CryptorStep.reuses (hInv : ReuseInv s) (h : CryptorStep aes s op t)
    (hNo : NoReuse t) : SameContents s op := by
  rcases h.log with ⟨-, hSame⟩ | ⟨page, ctx, rfl, hUnder, hLog⟩
  · exact hSame
  · intro ctx' hUnder' x hx hCtx
    obtain ⟨swpd, hFind, rfl, -⟩ := hUnder
    obtain ⟨swpd', hFind', rfl, -⟩ := hUnder'
    obtain rfl : swpd = swpd' := Option.some.inj (hFind.symm.trans hFind')
    rw [NoReuse, hLog, List.pairwise_cons] at hNo
    by_contra hNe
    have hDisjoint := hNo.1 x hx hCtx.symm (Ne.symm hNe)
    refine hDisjoint (first_mem_counterBlocks _) ?_
    have hFirst := first_mem_counterBlocks x
    rw [hInv.iv x hx] at hFirst
    exact hFirst

/-- **Keystream of the private swap.** Along every run, no counter block is
used for two different pages of a context exactly if no two different pages are
ever encrypted under one context. -/
theorem no_keystream_reuse_iff {tr : Trace Cryptor CryptorOp} (hLog : s.log = [])
    (hTr : IsTrace (CryptorStep aes) s tr) :
    EachState NoReuse s tr ↔ EachStep SameContents s tr := by
  have hInit : ReuseInv s :=
    ⟨by rw [NoReuse, hLog]; exact List.Pairwise.nil, by rw [hLog]; simp⟩
  exact eachState_iff_of_inv (fun _ hInv => hInv.noReuse)
    (fun _ _ _ hInv hStep hSame => hStep.reuseInv hInv hSame)
    (fun _ _ _ hInv hStep hNo => hStep.reuses hInv hNo) hInit hTr

end Reuse

/-! ## What reuse gives away -/

/-! ## Two pages of one process -/

def counterStream : BlockStream 128 16 := ⟨fun ctr => leBytes 16 ctr.toNat, fun _ => by simp⟩

def filledPage (b : UInt8) : PageData := ⟨List.replicate PAGE_SIZE b, List.length_replicate⟩

/-- A system without private processes; page 2 is filled with ones. -/
def noContexts : Cryptor where
  priv :=
    { tree := fun _ => none
      ctxs := fun _ => none
      pagePrivate := fun _ => 0
      mem := fun page => if page = 2 then filledPage 1 else filledPage 0 }
  tfm _ := none
  log := []

def swapOutBoth : List CryptorOp :=
  [.privCtxAlloc 1 [], .setPagePrivate 1 1, .setPagePrivate 2 2,
    .addToPriv ⟨some 11, true, true, true⟩ 1 1 (some [⟨1, some 1⟩]),
    .addToPriv ⟨some 12, true, true, true⟩ 2 1 (some [⟨1, some 1⟩]),
    .privEncryptPage 1, .privEncryptPage 2]

theorem filledPage_ne : filledPage 0 ≠ filledPage 1 := by
  intro h
  have hByte := (List.replicate_inj.mp (congrArg Subtype.val h)).2
  revert hByte
  decide

/-- Both pages are encrypted from the counter block 0. -/
theorem swapOutBoth_reuses : ∃ tr : Trace Cryptor CryptorOp, tr.map Prod.fst = swapOutBoth ∧
    IsTrace (CryptorStep fun _ => counterStream) noContexts tr ∧
    ¬ EachState NoReuse noContexts tr := by
  refine ⟨[(_, _), (_, _), (_, _), (_, _), (_, _), (_, _), (_, _)], rfl,
    ⟨rfl, rfl, rfl, rfl, rfl, rfl, rfl, trivial⟩, fun hNo => ?_⟩
  have hPair := hNo.last
  have hDisjoint := (List.pairwise_cons.mp hPair).1 ⟨1, 0, filledPage 0⟩ List.mem_cons_self rfl
    filledPage_ne.symm
  exact hDisjoint (first_mem_counterBlocks _) (first_mem_counterBlocks ⟨1, 0, filledPage 0⟩)

theorem swapOutOne_noReuse : ∃ tr : Trace Cryptor CryptorOp,
    tr.map Prod.fst = [.privCtxAlloc 1 [], .setPagePrivate 1 1,
      .addToPriv ⟨some 11, true, true, true⟩ 1 1 (some [⟨1, some 1⟩]), .privEncryptPage 1] ∧
    IsTrace (CryptorStep fun _ => counterStream) noContexts tr ∧
    EachState NoReuse noContexts tr := by
  have hTr : IsTrace (CryptorStep fun _ => counterStream) noContexts
      [(.privCtxAlloc 1 [], _), (.setPagePrivate 1 1, _),
        (.addToPriv ⟨some 11, true, true, true⟩ 1 1 (some [⟨1, some 1⟩]), _),
        (.privEncryptPage 1, _)] := ⟨rfl, rfl, rfl, rfl, trivial⟩
  refine ⟨_, rfl, hTr, (no_keystream_reuse_iff rfl hTr).mpr ⟨trivial, trivial, trivial, ?_, trivial⟩⟩
  intro ctx _ x hx
  cases hx

end Lacuna.Swap
