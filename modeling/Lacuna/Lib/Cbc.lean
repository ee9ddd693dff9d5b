import Lacuna.Lib.Bytes
import Lacuna.Lib.Blockwise

/-!
# Cipher block chaining over byte strings

A block cipher on `w`-byte blocks, and its CBC mode over whole blocks. Decryption
under the same IV undoes encryption (`cbcDecrypt_cbcEncrypt`), and decryption under
any other IV does not (`cbcDecrypt_ne_of_iv_ne`).
-/

namespace Lacuna.Lib

variable {n : Nat} {iv data : List UInt8}

/-! ## Block ciphers and the mode -/

structure BlockCipher (w : Nat) where
  encrypt : List UInt8 → List UInt8
  decrypt : List UInt8 → List UInt8
  length_encrypt : ∀ b, b.length = w → (encrypt b).length = w
  length_decrypt : ∀ b, b.length = w → (decrypt b).length = w
  decrypt_encrypt : ∀ b, b.length = w → decrypt (encrypt b) = b

variable {w : Nat} (E : BlockCipher w)

def cbcEncrypt : Nat → List UInt8 → List UInt8 → List UInt8
  | 0, _, _ => []
  | n + 1, iv, data =>
    let c := E.encrypt (xorBytes (data.take w) iv)
    c ++ cbcEncrypt n c (data.drop w)

def cbcDecrypt : Nat → List UInt8 → List UInt8 → List UInt8
  | 0, _, _ => []
  | n + 1, iv, data =>
    xorBytes (E.decrypt (data.take w)) iv ++ cbcDecrypt n (data.take w) (data.drop w)

section Lengths

variable {n : Nat} {iv data : List UInt8}

theorem length_xor_block (hIv : iv.length = w) (hData : data.length = (n + 1) * w) :
    (xorBytes (data.take w) iv).length = w := by
  rw [length_xorBytes, length_take_block hData, hIv, Nat.min_self]

theorem length_cbcEncrypt (hIv : iv.length = w) (hData : data.length = n * w) :
    (cbcEncrypt E n iv data).length = n * w := by
  induction n generalizing iv data with
  | zero => simp [cbcEncrypt]
  | succ n ih =>
    have hBlock := E.length_encrypt _ (length_xor_block hIv hData)
    rw [cbcEncrypt, List.length_append, hBlock, ih hBlock (length_drop_block hData),
      Nat.add_mul, Nat.one_mul, Nat.add_comm]

theorem length_cbcDecrypt (hIv : iv.length = w) (hData : data.length = n * w) :
    (cbcDecrypt E n iv data).length = n * w := by
  induction n generalizing iv data with
  | zero => simp [cbcDecrypt]
  | succ n ih =>
    have hTake := length_take_block hData
    rw [cbcDecrypt, List.length_append, length_xorBytes, E.length_decrypt _ hTake, hIv,
      Nat.min_self, ih hTake (length_drop_block hData), Nat.add_mul, Nat.one_mul, Nat.add_comm]

end Lengths

theorem cbcDecrypt_cbcEncrypt_succ {iv' : List UInt8}
    (hIv : iv.length = w) (hData : data.length = (n + 1) * w)
    (hRest : ∀ {iv data : List UInt8}, iv.length = w → data.length = n * w →
      cbcDecrypt E n iv (cbcEncrypt E n iv data) = data) :
    cbcDecrypt E (n + 1) iv' (cbcEncrypt E (n + 1) iv data) =
      xorBytes (xorBytes (data.take w) iv) iv' ++ data.drop w := by
  have hPad := length_xor_block hIv hData
  have hBlock := E.length_encrypt _ hPad
  rw [cbcEncrypt, cbcDecrypt]
  simp only [List.take_left' hBlock, List.drop_left' hBlock, E.decrypt_encrypt _ hPad]
  rw [hRest hBlock (length_drop_block hData)]

theorem cbcDecrypt_cbcEncrypt (hIv : iv.length = w) (hData : data.length = n * w) :
    cbcDecrypt E n iv (cbcEncrypt E n iv data) = data := by
  induction n generalizing iv data with
  | zero =>
    have : data = [] := List.length_eq_zero_iff.mp (by omega)
    simp [this, cbcDecrypt]
  | succ n ih =>
    have hLe : (data.take w).length ≤ iv.length := by
      have := length_take_block hData
      omega
    rw [cbcDecrypt_cbcEncrypt_succ E hIv hData ih, xorBytes_cancel hLe, List.take_append_drop]

theorem cbcDecrypt_ne_of_iv_ne {iv' : List UInt8} (hn : 0 < n)
    (hIv : iv.length = w) (hIv' : iv'.length = w) (hData : data.length = n * w)
    (hNe : iv ≠ iv') : cbcDecrypt E n iv' (cbcEncrypt E n iv data) ≠ data := by
  obtain ⟨m, rfl⟩ : ∃ m, n = m + 1 := ⟨n - 1, by omega⟩
  rw [cbcDecrypt_cbcEncrypt_succ E hIv hData (cbcDecrypt_cbcEncrypt E)]
  intro hEq
  have hTake := length_take_block hData
  have hPad := length_xor_block hIv hData
  have hLen : (xorBytes (xorBytes (data.take w) iv) iv').length = w := by
    rw [length_xorBytes, hPad, hIv', Nat.min_self]
  -- compare the first block only: `p ⊕ iv ⊕ iv' = p`
  have hFirst : xorBytes (xorBytes (data.take w) iv) iv' = data.take w := by
    have := congrArg (List.take w) hEq
    rwa [List.take_left' hLen] at this
  have hSame : xorBytes (data.take w) iv = xorBytes (data.take w) iv' := by
    rw [← hFirst, xorBytes_cancel (by omega), hFirst]
  exact hNe (xorBytes_right_inj (by rw [hIv, hTake]) (by rw [hIv', hTake]) hSame)

end Lacuna.Lib
