import Mathlib.Logic.Function.Iterate
import Mathlib.Data.List.Basic

/-!
# The field of 256 elements

Bytes as polynomials over the field of two elements, modulo
`x⁸ + x⁴ + x³ + x + 1`: addition is `^^^`, `xtime` is multiplication by `x`, and
`gfMul` adds up the multiples of its second argument that the bits of the first
ask for. Inverses are given by their table, which `gfMul_gfInv` checks.
-/

namespace Lacuna.Lib

def lookup (table : List (List (BitVec 8))) (b : BitVec 8) : BitVec 8 :=
  (table.getD (b.toNat / 16) []).getD (b.toNat % 16) 0#8

def xtime (b : BitVec 8) : BitVec 8 := (b <<< 1) ^^^ (if b.msb then 0x1b#8 else 0#8)

/-- The multiples of `b` that the bits of `c` in `l` ask for. -/
def gfSum (c b : BitVec 8) (l : List Nat) : BitVec 8 :=
  l.foldr (fun i acc => (if c.getLsbD i then xtime^[i] b else 0#8) ^^^ acc) 0#8

def gfMul (c b : BitVec 8) : BitVec 8 := gfSum c b (List.range 8)

def gfInvTable : List (List (BitVec 8)) :=
  [[0x00,0x01,0x8d,0xf6,0xcb,0x52,0x7b,0xd1,0xe8,0x4f,0x29,0xc0,0xb0,0xe1,0xe5,0xc7],
   [0x74,0xb4,0xaa,0x4b,0x99,0x2b,0x60,0x5f,0x58,0x3f,0xfd,0xcc,0xff,0x40,0xee,0xb2],
   [0x3a,0x6e,0x5a,0xf1,0x55,0x4d,0xa8,0xc9,0xc1,0x0a,0x98,0x15,0x30,0x44,0xa2,0xc2],
   [0x2c,0x45,0x92,0x6c,0xf3,0x39,0x66,0x42,0xf2,0x35,0x20,0x6f,0x77,0xbb,0x59,0x19],
   [0x1d,0xfe,0x37,0x67,0x2d,0x31,0xf5,0x69,0xa7,0x64,0xab,0x13,0x54,0x25,0xe9,0x09],
   [0xed,0x5c,0x05,0xca,0x4c,0x24,0x87,0xbf,0x18,0x3e,0x22,0xf0,0x51,0xec,0x61,0x17],
   [0x16,0x5e,0xaf,0xd3,0x49,0xa6,0x36,0x43,0xf4,0x47,0x91,0xdf,0x33,0x93,0x21,0x3b],
   [0x79,0xb7,0x97,0x85,0x10,0xb5,0xba,0x3c,0xb6,0x70,0xd0,0x06,0xa1,0xfa,0x81,0x82],
   [0x83,0x7e,0x7f,0x80,0x96,0x73,0xbe,0x56,0x9b,0x9e,0x95,0xd9,0xf7,0x02,0xb9,0xa4],
   [0xde,0x6a,0x32,0x6d,0xd8,0x8a,0x84,0x72,0x2a,0x14,0x9f,0x88,0xf9,0xdc,0x89,0x9a],
   [0xfb,0x7c,0x2e,0xc3,0x8f,0xb8,0x65,0x48,0x26,0xc8,0x12,0x4a,0xce,0xe7,0xd2,0x62],
   [0x0c,0xe0,0x1f,0xef,0x11,0x75,0x78,0x71,0xa5,0x8e,0x76,0x3d,0xbd,0xbc,0x86,0x57],
   [0x0b,0x28,0x2f,0xa3,0xda,0xd4,0xe4,0x0f,0xa9,0x27,0x53,0x04,0x1b,0xfc,0xac,0xe6],
   [0x7a,0x07,0xae,0x63,0xc5,0xdb,0xe2,0xea,0x94,0x8b,0xc4,0xd5,0x9d,0xf8,0x90,0x6b],
   [0xb1,0x0d,0xd6,0xeb,0xc6,0x0e,0xcf,0xad,0x08,0x4e,0xd7,0xe3,0x5d,0x50,0x1e,0xb3],
   [0x5b,0x23,0x38,0x34,0x68,0x46,0x03,0x8c,0xdd,0x9c,0x7d,0xa0,0xcd,0x1a,0x41,0x1c]]

def gfInv (b : BitVec 8) : BitVec 8 := lookup gfInvTable b

theorem forall_byte (P : BitVec 8 → Prop) (h : ∀ i : Fin 256, P (BitVec.ofFin i)) (b : BitVec 8) :
    P b :=
  h b.toFin

theorem gfMul_gfInv {b : BitVec 8} (hb : b ≠ 0#8) : gfMul b (gfInv b) = 1#8 :=
  forall_byte (fun b => b ≠ 0#8 → gfMul b (gfInv b) = 1#8) (by decide +kernel) b hb

theorem gfInv_gfInv (b : BitVec 8) : gfInv (gfInv b) = b :=
  forall_byte (fun b => gfInv (gfInv b) = b) (by decide +kernel) b

theorem xtime_xor (a b : BitVec 8) : xtime (a ^^^ b) = xtime a ^^^ xtime b := by
  have hReduce : (if (a ^^^ b).msb then 0x1b#8 else 0#8) =
      (if a.msb then 0x1b#8 else 0#8) ^^^ (if b.msb then 0x1b#8 else 0#8) := by
    rw [BitVec.msb_xor]
    cases a.msb <;> cases b.msb <;> rfl
  unfold xtime
  rw [hReduce, BitVec.shiftLeft_xor_distrib]
  ac_rfl

theorem iterate_xtime_xor (i : Nat) (a b : BitVec 8) :
    xtime^[i] (a ^^^ b) = xtime^[i] a ^^^ xtime^[i] b := by
  induction i generalizing a b with
  | zero => rfl
  | succ i ih => rw [Function.iterate_succ_apply, xtime_xor, ih]; rfl

theorem gfSum_xor (c a b : BitVec 8) (l : List Nat) :
    gfSum c (a ^^^ b) l = gfSum c a l ^^^ gfSum c b l := by
  induction l with
  | nil => exact BitVec.xor_self.symm
  | cons i l ih =>
    show (if c.getLsbD i then xtime^[i] (a ^^^ b) else 0#8) ^^^ gfSum c (a ^^^ b) l =
      ((if c.getLsbD i then xtime^[i] a else 0#8) ^^^ gfSum c a l) ^^^
        ((if c.getLsbD i then xtime^[i] b else 0#8) ^^^ gfSum c b l)
    rw [ih]
    cases c.getLsbD i with
    | true =>
      simp only [if_true, iterate_xtime_xor]
      ac_rfl
    | false => simp

theorem gfMul_xor (c a b : BitVec 8) : gfMul c (a ^^^ b) = gfMul c a ^^^ gfMul c b :=
  gfSum_xor c a b (List.range 8)

/-! ## Fixed factors -/

section Factors

variable (b : BitVec 8)

theorem gfMul_two : gfMul 0x02#8 b = xtime b := by
  simp [gfMul, gfSum, List.range_succ]

theorem gfMul_three : gfMul 0x03#8 b = b ^^^ xtime b := by
  simp [gfMul, gfSum, List.range_succ]

theorem gfMul_nine : gfMul 0x09#8 b = b ^^^ xtime (xtime (xtime b)) := by
  simp [gfMul, gfSum, List.range_succ]

theorem gfMul_eleven : gfMul 0x0b#8 b = b ^^^ (xtime b ^^^ xtime (xtime (xtime b))) := by
  simp [gfMul, gfSum, List.range_succ]

theorem gfMul_thirteen : gfMul 0x0d#8 b = b ^^^ (xtime (xtime b) ^^^ xtime (xtime (xtime b))) := by
  simp [gfMul, gfSum, List.range_succ]

theorem gfMul_fourteen :
    gfMul 0x0e#8 b = xtime b ^^^ (xtime (xtime b) ^^^ xtime (xtime (xtime b))) := by
  simp [gfMul, gfSum, List.range_succ]

end Factors

end Lacuna.Lib
