import Lacuna.Lib.Bytes

/-!
# Diffie-Hellman as both ends have it

`polarssl/dhm.c`, which the kernel has a port of, over the multi-precision
integers of `polarssl/bignum.c`: numbers are natural numbers, `mpi_size` is the
length of the shortest big-endian encoding, and `mpi_exp_mod` is modular
exponentiation. A call that may run out of memory is told whether it does
(`Fault`).
-/

namespace Lacuna.Kex

open Lacuna.Lib

variable {α : Type} {fault : Fault} {n x P random : Nat} {ctx' : DhmContext}

/-- Whether a call fails for a reason outside the model: `some n` is the error `-(n + 1)`. -/
abbrev Fault := Option Nat

def Fault.rc (n : Nat) : Int := -(n + 1)

def Fault.run : Fault → Except Int Unit
  | none => .ok ()
  | some n => .error (Fault.rc n)

theorem bind_ok {β : Type} {x : Except Int α} {f : α → Except Int β} {b : β}
    (h : x >>= f = .ok b) : ∃ a, x = .ok a ∧ f a = .ok b := by
  cases x with
  | ok a => exact ⟨a, rfl, h⟩
  | error e => cases h

theorem Fault.run_error {rc : Int} (h : fault.run = .error rc) : rc < 0 := by
  cases fault with
  | none => cases h
  | some n =>
    cases h
    unfold Fault.rc
    omega

theorem bind_error {β : Type} {x : Except Int α} {f : α → Except Int β} {rc : Int}
    (h : x >>= f = .error rc) : x = .error rc ∨ ∃ a, x = .ok a ∧ f a = .error rc := by
  cases x with
  | ok a => exact .inr ⟨a, rfl, h⟩
  | error e =>
    cases h
    exact .inl rfl

def POLARSSL_ERR_MPI_BAD_INPUT_DATA : Int := -0x0004
def POLARSSL_ERR_MPI_BUFFER_TOO_SMALL : Int := -0x0008
def POLARSSL_ERR_DHM_BAD_INPUT_DATA : Int := -0x3080
def POLARSSL_ERR_DHM_READ_PARAMS_FAILED : Int := -0x3100
def POLARSSL_ERR_DHM_MAKE_PARAMS_FAILED : Int := -0x3180
def POLARSSL_ERR_DHM_READ_PUBLIC_FAILED : Int := -0x3200
def POLARSSL_ERR_DHM_MAKE_PUBLIC_FAILED : Int := -0x3280
def POLARSSL_ERR_DHM_CALC_SECRET_FAILED : Int := -0x3300

/-! ## Numbers -/

def mpiMsb (x : Nat) : Nat := if x = 0 then 0 else x.log2 + 1

def mpiSize (x : Nat) : Nat := (mpiMsb x + 7) / 8

def mpiWriteBinary (x buflen : Nat) : Except Int (List UInt8) :=
  if buflen < mpiSize x then .error POLARSSL_ERR_MPI_BUFFER_TOO_SMALL
  else .ok (beBytes buflen x)

def mpiReadBinary (fault : Fault) (buf : List UInt8) : Except Int Nat := do
  fault.run
  return ofBeBytes buf

def mpiExpMod (fault : Fault) (a e n : Nat) : Except Int Nat := do
  if n % 2 = 0 then throw POLARSSL_ERR_MPI_BAD_INPUT_DATA
  fault.run
  return a ^ e % n

theorem mpiExpMod_ok {a e r : Nat} (h : mpiExpMod fault a e n = .ok r) : r = a ^ e % n := by
  unfold mpiExpMod at h
  split at h
  · cases h
  · obtain ⟨_, _, h⟩ := bind_ok h
    cases h
    rfl

theorem mpiExpMod_error {a e : Nat} {rc : Int}
    (h : mpiExpMod fault a e n = .error rc) : rc < 0 := by
  unfold mpiExpMod at h
  split at h
  · cases h
    decide
  · rcases bind_error h with h | ⟨_, _, h⟩
    · exact Fault.run_error h
    · cases h

theorem mpiReadBinary_ok {buf : List UInt8}
    (h : mpiReadBinary fault buf = .ok x) : x = ofBeBytes buf := by
  obtain ⟨_, _, h⟩ := bind_ok h
  cases h
  rfl

theorem lt_pow_mpiSize (x : Nat) : x < 256 ^ mpiSize x := by
  unfold mpiSize mpiMsb
  split
  · rename_i hZero
    simp [hZero]
  · have hBits : x < 2 ^ (x.log2 + 1) := Nat.lt_log2_self
    refine Nat.lt_of_lt_of_le hBits ?_
    rw [show (256 : Nat) = 2 ^ 8 from rfl, ← Nat.pow_mul]
    exact Nat.pow_le_pow_right (by decide) (by omega)

theorem mpiSize_le (h : x < 256 ^ n) : mpiSize x ≤ n := by
  unfold mpiSize mpiMsb
  split
  · omega
  · rename_i hNe
    rw [show (256 : Nat) = 2 ^ 8 from rfl, ← Nat.pow_mul] at h
    have hLog : x.log2 < 8 * n := (Nat.log2_lt hNe).mpr h
    omega

theorem ofBeBytes_write {buflen : Nat} (h : mpiSize x ≤ buflen) :
    ofBeBytes (beBytes buflen x) = x := by
  rw [ofBeBytes_beBytes]
  refine Nat.mod_eq_of_lt (Nat.lt_of_lt_of_le (lt_pow_mpiSize x) ?_)
  exact Nat.pow_le_pow_right (by decide) h

/-! ## Fields of a message -/

def dhmMpiExport (x : Nat) : List UInt8 :=
  UInt8.ofNat (mpiSize x / 256) :: UInt8.ofNat (mpiSize x) :: beBytes (mpiSize x) x

def dhmReadBignum (fault : Fault) : List UInt8 → Except Int (Nat × List UInt8)
  | hi :: lo :: p =>
    let n := hi.toNat * 256 + lo.toNat
    if p.length < n then .error POLARSSL_ERR_DHM_BAD_INPUT_DATA
    else
      match mpiReadBinary fault (p.take n) with
      | .error ret => .error (POLARSSL_ERR_DHM_READ_PARAMS_FAILED + ret)
      | .ok x => .ok (x, p.drop n)
  | _ => .error POLARSSL_ERR_DHM_BAD_INPUT_DATA

theorem dhmReadBignum_export (hSize : mpiSize x < 65536) (rest : List UInt8) {r : Nat × List UInt8}
    (h : dhmReadBignum fault (dhmMpiExport x ++ rest) = .ok r) : r = (x, rest) := by
  have hLen : (UInt8.ofNat (mpiSize x / 256)).toNat * 256 + (UInt8.ofNat (mpiSize x)).toNat =
      mpiSize x := by
    simp only [UInt8.toNat_ofNat']
    omega
  simp only [dhmMpiExport, List.cons_append, dhmReadBignum, hLen] at h
  have hFits : ¬ (beBytes (mpiSize x) x ++ rest).length < mpiSize x := by
    rw [List.length_append, length_beBytes]
    omega
  have hTake : (beBytes (mpiSize x) x ++ rest).take (mpiSize x) = beBytes (mpiSize x) x := by
    rw [List.take_left' (length_beBytes _ _)]
  have hDrop : (beBytes (mpiSize x) x ++ rest).drop (mpiSize x) = rest := by
    rw [List.drop_left' (length_beBytes _ _)]
  rw [if_neg hFits, hTake, hDrop] at h
  cases hRead : mpiReadBinary fault (beBytes (mpiSize x) x) with
  | error ret =>
    rw [hRead] at h
    cases h
  | ok y =>
    rw [hRead, mpiReadBinary_ok hRead, ofBeBytes_write (Nat.le_refl _)] at h
    cases h
    rfl

/-! ## `dhm_context` -/

structure DhmContext where
  len : Nat
  P : Nat
  G : Nat
  X : Nat
  GX : Nat
  GY : Nat
  K : Nat
  deriving DecidableEq

def dhmCheckRange (publicParam P : Nat) : Except Int Unit :=
  if 2 ≤ publicParam ∧ publicParam + 2 ≤ P then .ok ()
  else .error POLARSSL_ERR_DHM_BAD_INPUT_DATA

/-- `while (X >= P) X >>= 1`, at most so many times. -/
def shiftBelow : Nat → Nat → Nat → Nat
  | 0, _, X => X
  | bits + 1, P, X => if P ≤ X then shiftBelow bits P (X / 2) else X

def dhmExponent (P random : Nat) : Nat := shiftBelow (mpiMsb random) P random

def chk {α : Type} (failed : Int) : Except Int α → Except Int α
  | .ok a => .ok a
  | .error ret => .error (failed + ret)

theorem chk_ok {failed : Int} {r : Except Int α} {a : α}
    (h : chk failed r = .ok a) : r = .ok a := by
  cases r with
  | ok b => exact h
  | error ret => cases h

theorem dhmCheckRange_ok {u : Unit} (h : dhmCheckRange x P = .ok u) : 2 ≤ x ∧ x + 2 ≤ P := by
  unfold dhmCheckRange at h
  split at h
  · assumption
  · cases h

def dhmMakeParams (fault : Fault) (ctx : DhmContext) (random : Nat) :
    Except Int (DhmContext × List UInt8) := do
  let X := dhmExponent ctx.P random
  let GX ← chk POLARSSL_ERR_DHM_MAKE_PARAMS_FAILED (mpiExpMod fault ctx.G X ctx.P)
  dhmCheckRange GX ctx.P
  return ({ ctx with X := X, GX := GX, len := mpiSize ctx.P },
    dhmMpiExport ctx.P ++ (dhmMpiExport ctx.G ++ dhmMpiExport GX))

theorem dhmMakeParams_ok {ctx : DhmContext} {msg : List UInt8}
    (h : dhmMakeParams fault ctx random = .ok (ctx', msg)) :
    ∃ X GX, GX = ctx.G ^ X % ctx.P ∧ GX + 2 ≤ ctx.P ∧
      ctx' = { ctx with X := X, GX := GX, len := mpiSize ctx.P } ∧
      msg = dhmMpiExport ctx.P ++ (dhmMpiExport ctx.G ++ dhmMpiExport GX) := by
  obtain ⟨GX, hExp, h⟩ := bind_ok h
  obtain ⟨_, hRange, h⟩ := bind_ok h
  cases h
  exact ⟨_, GX, mpiExpMod_ok (chk_ok hExp), (dhmCheckRange_ok hRange).2, rfl, rfl⟩

theorem dhmMakeParams_error {ctx : DhmContext} {rc : Int}
    (h : dhmMakeParams fault ctx random = .error rc) : rc < 0 := by
  rcases bind_error h with h | ⟨GX, _, h⟩
  · cases hExp : mpiExpMod fault ctx.G (dhmExponent ctx.P random) ctx.P with
    | ok GX =>
      rw [hExp] at h
      cases h
    | error ret =>
      rw [hExp] at h
      cases h
      have hNeg := mpiExpMod_error hExp
      unfold POLARSSL_ERR_DHM_MAKE_PARAMS_FAILED
      omega
  · rcases bind_error h with h | ⟨_, _, h⟩
    · unfold dhmCheckRange at h
      split at h
      · cases h
      · cases h
        decide
    · cases h

def dhmReadParams (faultP faultG faultGY : Fault) (msg : List UInt8) : Except Int DhmContext := do
  let (P, msg) ← dhmReadBignum faultP msg
  let (G, msg) ← dhmReadBignum faultG msg
  let (GY, msg) ← dhmReadBignum faultGY msg
  dhmCheckRange GY P
  match msg with
  | hi :: lo :: rest =>
    if rest.length = hi.toNat * 256 + lo.toNat then
      .ok { len := mpiSize P, P := P, G := G, X := 0, GX := 0, GY := GY, K := 0 }
    else .error POLARSSL_ERR_DHM_BAD_INPUT_DATA
  | _ => .error POLARSSL_ERR_DHM_BAD_INPUT_DATA

/-- What `dhm_make_params` writes, and no bytes of extra data. -/
def paramsMsg (P G GX : Nat) : List UInt8 :=
  dhmMpiExport P ++ (dhmMpiExport G ++ (dhmMpiExport GX ++ [0, 0]))

theorem dhmReadParams_export {G GY : Nat} (hP : mpiSize P < 65536) (hG : mpiSize G < 65536)
    (hGY : mpiSize GY < 65536) {faultP faultG faultGY : Fault} {ctx : DhmContext}
    (h : dhmReadParams faultP faultG faultGY (paramsMsg P G GY) = .ok ctx) :
    ctx = { len := mpiSize P, P := P, G := G, X := 0, GX := 0, GY := GY, K := 0 } := by
  obtain ⟨r, hRead, h⟩ := bind_ok h
  obtain rfl := dhmReadBignum_export hP _ hRead
  obtain ⟨r, hRead, h⟩ := bind_ok h
  obtain rfl := dhmReadBignum_export hG _ hRead
  obtain ⟨r, hRead, h⟩ := bind_ok h
  obtain rfl := dhmReadBignum_export hGY _ hRead
  obtain ⟨_, _, h⟩ := bind_ok h
  have hEnd : ([] : List UInt8).length = (0 : UInt8).toNat * 256 + (0 : UInt8).toNat := rfl
  dsimp only at h
  rw [if_pos hEnd] at h
  exact (Except.ok.inj h).symm

def dhmMakePublic (fault : Fault) (ctx : DhmContext) (olen random : Nat) :
    Except Int (DhmContext × List UInt8) := do
  if olen < 1 ∨ ctx.len < olen then throw POLARSSL_ERR_DHM_BAD_INPUT_DATA
  let X := dhmExponent ctx.P random
  let GX ← chk POLARSSL_ERR_DHM_MAKE_PUBLIC_FAILED (mpiExpMod fault ctx.G X ctx.P)
  dhmCheckRange GX ctx.P
  let out ← chk POLARSSL_ERR_DHM_MAKE_PUBLIC_FAILED (mpiWriteBinary GX olen)
  return ({ ctx with X := X, GX := GX }, out)

theorem dhmMakePublic_ok {ctx : DhmContext} {olen : Nat}
    {out : List UInt8} (h : dhmMakePublic fault ctx olen random = .ok (ctx', out)) :
    ∃ X GX, GX = ctx.G ^ X % ctx.P ∧ mpiSize GX ≤ olen ∧
      ctx' = { ctx with X := X, GX := GX } ∧ out = beBytes olen GX := by
  unfold dhmMakePublic at h
  split at h
  · cases h
  · obtain ⟨GX, hExp, h⟩ := bind_ok h
    obtain ⟨_, _, h⟩ := bind_ok h
    obtain ⟨bytes, hWrite, h⟩ := bind_ok h
    cases h
    have hWrite := chk_ok hWrite
    unfold mpiWriteBinary at hWrite
    split at hWrite
    · cases hWrite
    · cases hWrite
      exact ⟨_, GX, mpiExpMod_ok (chk_ok hExp), by omega, rfl, rfl⟩

def dhmReadPublic (fault : Fault) (ctx : DhmContext) (input : List UInt8) :
    Except Int DhmContext := do
  if input.length < 1 ∨ ctx.len < input.length then throw POLARSSL_ERR_DHM_BAD_INPUT_DATA
  let GY ← chk POLARSSL_ERR_DHM_READ_PUBLIC_FAILED (mpiReadBinary fault input)
  return { ctx with GY := GY }

theorem dhmReadPublic_ok {ctx : DhmContext} {input : List UInt8}
    (h : dhmReadPublic fault ctx input = .ok ctx') :
    ctx' = { ctx with GY := ofBeBytes input } := by
  unfold dhmReadPublic at h
  split at h
  · cases h
  · obtain ⟨GY, hRead, h⟩ := bind_ok h
    cases h
    rw [mpiReadBinary_ok (chk_ok hRead)]

/-- `calc_pre_secret` of the library, `dhm_calc_secret_no_export` of the kernel. -/
def dhmCalcSecretNoExport (fault : Fault) (ctx : DhmContext) : Except Int DhmContext := do
  let K ← chk POLARSSL_ERR_DHM_CALC_SECRET_FAILED (mpiExpMod fault ctx.GY ctx.X ctx.P)
  dhmCheckRange ctx.GY ctx.P
  return { ctx with K := K }

theorem dhmCalcSecretNoExport_ok {ctx : DhmContext}
    (h : dhmCalcSecretNoExport fault ctx = .ok ctx') :
    ctx' = { ctx with K := ctx.GY ^ ctx.X % ctx.P } := by
  obtain ⟨K, hExp, h⟩ := bind_ok h
  obtain ⟨_, _, h⟩ := bind_ok h
  cases h
  rw [mpiExpMod_ok (chk_ok hExp)]

theorem dhmCalcSecretNoExport_range {ctx : DhmContext}
    (h : dhmCalcSecretNoExport fault ctx = .ok ctx') : 2 ≤ ctx.GY ∧ ctx.GY + 2 ≤ ctx.P := by
  obtain ⟨K, -, h⟩ := bind_ok h
  obtain ⟨_, hRange, -⟩ := bind_ok h
  exact dhmCheckRange_ok hRange

/-! ## The key -/

/-- From the secret, a label and a seed, so many bytes, or an error. -/
structure Tls1Prf where
  prf : List UInt8 → String → List UInt8 → Nat → Option (List UInt8)
  length_prf : ∀ {secret label random dlen out},
    prf secret label random dlen = some out → out.length = dlen

/-- `fault` is that of the buffer for the shared secret. -/
def calcSecret (tls : Tls1Prf) (fault : Fault) (keyLen : Nat) (ctx : DhmContext) :
    Option (List UInt8) :=
  let preMaster := beBytes (mpiSize ctx.K) ctx.K
  let random := (List.range 64).map UInt8.ofNat
  match fault with
  | some _ => none
  | none =>
    (tls.prf preMaster "master secret" random 48).bind fun master =>
      tls.prf master "key expansion" (random.drop 32 ++ random.take 32) keyLen

theorem calcSecret_eq {tls : Tls1Prf} {fault' : Fault} {keyLen : Nat}
    {ctx : DhmContext} {key key' : List UInt8} (hK : ctx.K = ctx'.K)
    (h : calcSecret tls fault keyLen ctx = some key)
    (h' : calcSecret tls fault' keyLen ctx' = some key') : key = key' ∧ key.length = keyLen := by
  cases fault with
  | some n => cases h
  | none =>
  cases fault' with
  | some n => cases h'
  | none =>
    simp only [calcSecret, ← hK] at h h'
    obtain ⟨master, _, hKey⟩ := Option.bind_eq_some_iff.mp h
    exact ⟨Option.some.inj (h.symm.trans h'), tls.length_prf hKey⟩

end Lacuna.Kex
