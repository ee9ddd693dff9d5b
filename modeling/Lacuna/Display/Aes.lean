import Lacuna.Display.Session
import Lacuna.Lib.Aes
import Lacuna.Lib.Lanes
import Mathlib.Data.Fintype.Basic
import Mathlib.Tactic.FinCases

/-!
# Display — the block cipher on the GPU

`_EncryptOneAESBlock` and `_DecryptOneAESBlock` of `host/gpu/aes/aes.cu` and
`ExpandKey` of `aes_cpu.cpp`, with the tables that they read. The code substitutes
bytes while it shifts the rows, multiplies the four bytes of a column at once in a
32-bit word, and undoes the columns, the rows and the substitution in one step.

Machine words are little-endian: the bytes of `union Int4Char` are those of its `i32`,
the lowest first. A texture fetch and a read of constant memory are reads of the table
they were filled from.
-/

namespace Lacuna.Display

open Lacuna.Lib
open Lacuna.Lib.Aes (Block State Word)

def sboxTable : List (List (BitVec 8)) :=
  [[0x63,0x7c,0x77,0x7b,0xf2,0x6b,0x6f,0xc5,0x30,0x01,0x67,0x2b,0xfe,0xd7,0xab,0x76],
   [0xca,0x82,0xc9,0x7d,0xfa,0x59,0x47,0xf0,0xad,0xd4,0xa2,0xaf,0x9c,0xa4,0x72,0xc0],
   [0xb7,0xfd,0x93,0x26,0x36,0x3f,0xf7,0xcc,0x34,0xa5,0xe5,0xf1,0x71,0xd8,0x31,0x15],
   [0x04,0xc7,0x23,0xc3,0x18,0x96,0x05,0x9a,0x07,0x12,0x80,0xe2,0xeb,0x27,0xb2,0x75],
   [0x09,0x83,0x2c,0x1a,0x1b,0x6e,0x5a,0xa0,0x52,0x3b,0xd6,0xb3,0x29,0xe3,0x2f,0x84],
   [0x53,0xd1,0x00,0xed,0x20,0xfc,0xb1,0x5b,0x6a,0xcb,0xbe,0x39,0x4a,0x4c,0x58,0xcf],
   [0xd0,0xef,0xaa,0xfb,0x43,0x4d,0x33,0x85,0x45,0xf9,0x02,0x7f,0x50,0x3c,0x9f,0xa8],
   [0x51,0xa3,0x40,0x8f,0x92,0x9d,0x38,0xf5,0xbc,0xb6,0xda,0x21,0x10,0xff,0xf3,0xd2],
   [0xcd,0x0c,0x13,0xec,0x5f,0x97,0x44,0x17,0xc4,0xa7,0x7e,0x3d,0x64,0x5d,0x19,0x73],
   [0x60,0x81,0x4f,0xdc,0x22,0x2a,0x90,0x88,0x46,0xee,0xb8,0x14,0xde,0x5e,0x0b,0xdb],
   [0xe0,0x32,0x3a,0x0a,0x49,0x06,0x24,0x5c,0xc2,0xd3,0xac,0x62,0x91,0x95,0xe4,0x79],
   [0xe7,0xc8,0x37,0x6d,0x8d,0xd5,0x4e,0xa9,0x6c,0x56,0xf4,0xea,0x65,0x7a,0xae,0x08],
   [0xba,0x78,0x25,0x2e,0x1c,0xa6,0xb4,0xc6,0xe8,0xdd,0x74,0x1f,0x4b,0xbd,0x8b,0x8a],
   [0x70,0x3e,0xb5,0x66,0x48,0x03,0xf6,0x0e,0x61,0x35,0x57,0xb9,0x86,0xc1,0x1d,0x9e],
   [0xe1,0xf8,0x98,0x11,0x69,0xd9,0x8e,0x94,0x9b,0x1e,0x87,0xe9,0xce,0x55,0x28,0xdf],
   [0x8c,0xa1,0x89,0x0d,0xbf,0xe6,0x42,0x68,0x41,0x99,0x2d,0x0f,0xb0,0x54,0xbb,0x16]]

def invSboxTable : List (List (BitVec 8)) :=
  [[0x52,0x09,0x6a,0xd5,0x30,0x36,0xa5,0x38,0xbf,0x40,0xa3,0x9e,0x81,0xf3,0xd7,0xfb],
   [0x7c,0xe3,0x39,0x82,0x9b,0x2f,0xff,0x87,0x34,0x8e,0x43,0x44,0xc4,0xde,0xe9,0xcb],
   [0x54,0x7b,0x94,0x32,0xa6,0xc2,0x23,0x3d,0xee,0x4c,0x95,0x0b,0x42,0xfa,0xc3,0x4e],
   [0x08,0x2e,0xa1,0x66,0x28,0xd9,0x24,0xb2,0x76,0x5b,0xa2,0x49,0x6d,0x8b,0xd1,0x25],
   [0x72,0xf8,0xf6,0x64,0x86,0x68,0x98,0x16,0xd4,0xa4,0x5c,0xcc,0x5d,0x65,0xb6,0x92],
   [0x6c,0x70,0x48,0x50,0xfd,0xed,0xb9,0xda,0x5e,0x15,0x46,0x57,0xa7,0x8d,0x9d,0x84],
   [0x90,0xd8,0xab,0x00,0x8c,0xbc,0xd3,0x0a,0xf7,0xe4,0x58,0x05,0xb8,0xb3,0x45,0x06],
   [0xd0,0x2c,0x1e,0x8f,0xca,0x3f,0x0f,0x02,0xc1,0xaf,0xbd,0x03,0x01,0x13,0x8a,0x6b],
   [0x3a,0x91,0x11,0x41,0x4f,0x67,0xdc,0xea,0x97,0xf2,0xcf,0xce,0xf0,0xb4,0xe6,0x73],
   [0x96,0xac,0x74,0x22,0xe7,0xad,0x35,0x85,0xe2,0xf9,0x37,0xe8,0x1c,0x75,0xdf,0x6e],
   [0x47,0xf1,0x1a,0x71,0x1d,0x29,0xc5,0x89,0x6f,0xb7,0x62,0x0e,0xaa,0x18,0xbe,0x1b],
   [0xfc,0x56,0x3e,0x4b,0xc6,0xd2,0x79,0x20,0x9a,0xdb,0xc0,0xfe,0x78,0xcd,0x5a,0xf4],
   [0x1f,0xdd,0xa8,0x33,0x88,0x07,0xc7,0x31,0xb1,0x12,0x10,0x59,0x27,0x80,0xec,0x5f],
   [0x60,0x51,0x7f,0xa9,0x19,0xb5,0x4a,0x0d,0x2d,0xe5,0x7a,0x9f,0x93,0xc9,0x9c,0xef],
   [0xa0,0xe0,0x3b,0x4d,0xae,0x2a,0xf5,0xb0,0xc8,0xeb,0xbb,0x3c,0x83,0x53,0x99,0x61],
   [0x17,0x2b,0x04,0x7e,0xba,0x77,0xd6,0x26,0xe1,0x69,0x14,0x63,0x55,0x21,0x0c,0x7d]]

def xtimeETable : List (List (BitVec 8)) :=
  [[0x00,0x0e,0x1c,0x12,0x38,0x36,0x24,0x2a,0x70,0x7e,0x6c,0x62,0x48,0x46,0x54,0x5a],
   [0xe0,0xee,0xfc,0xf2,0xd8,0xd6,0xc4,0xca,0x90,0x9e,0x8c,0x82,0xa8,0xa6,0xb4,0xba],
   [0xdb,0xd5,0xc7,0xc9,0xe3,0xed,0xff,0xf1,0xab,0xa5,0xb7,0xb9,0x93,0x9d,0x8f,0x81],
   [0x3b,0x35,0x27,0x29,0x03,0x0d,0x1f,0x11,0x4b,0x45,0x57,0x59,0x73,0x7d,0x6f,0x61],
   [0xad,0xa3,0xb1,0xbf,0x95,0x9b,0x89,0x87,0xdd,0xd3,0xc1,0xcf,0xe5,0xeb,0xf9,0xf7],
   [0x4d,0x43,0x51,0x5f,0x75,0x7b,0x69,0x67,0x3d,0x33,0x21,0x2f,0x05,0x0b,0x19,0x17],
   [0x76,0x78,0x6a,0x64,0x4e,0x40,0x52,0x5c,0x06,0x08,0x1a,0x14,0x3e,0x30,0x22,0x2c],
   [0x96,0x98,0x8a,0x84,0xae,0xa0,0xb2,0xbc,0xe6,0xe8,0xfa,0xf4,0xde,0xd0,0xc2,0xcc],
   [0x41,0x4f,0x5d,0x53,0x79,0x77,0x65,0x6b,0x31,0x3f,0x2d,0x23,0x09,0x07,0x15,0x1b],
   [0xa1,0xaf,0xbd,0xb3,0x99,0x97,0x85,0x8b,0xd1,0xdf,0xcd,0xc3,0xe9,0xe7,0xf5,0xfb],
   [0x9a,0x94,0x86,0x88,0xa2,0xac,0xbe,0xb0,0xea,0xe4,0xf6,0xf8,0xd2,0xdc,0xce,0xc0],
   [0x7a,0x74,0x66,0x68,0x42,0x4c,0x5e,0x50,0x0a,0x04,0x16,0x18,0x32,0x3c,0x2e,0x20],
   [0xec,0xe2,0xf0,0xfe,0xd4,0xda,0xc8,0xc6,0x9c,0x92,0x80,0x8e,0xa4,0xaa,0xb8,0xb6],
   [0x0c,0x02,0x10,0x1e,0x34,0x3a,0x28,0x26,0x7c,0x72,0x60,0x6e,0x44,0x4a,0x58,0x56],
   [0x37,0x39,0x2b,0x25,0x0f,0x01,0x13,0x1d,0x47,0x49,0x5b,0x55,0x7f,0x71,0x63,0x6d],
   [0xd7,0xd9,0xcb,0xc5,0xef,0xe1,0xf3,0xfd,0xa7,0xa9,0xbb,0xb5,0x9f,0x91,0x83,0x8d]]

def xtimeBTable : List (List (BitVec 8)) :=
  [[0x00,0x0b,0x16,0x1d,0x2c,0x27,0x3a,0x31,0x58,0x53,0x4e,0x45,0x74,0x7f,0x62,0x69],
   [0xb0,0xbb,0xa6,0xad,0x9c,0x97,0x8a,0x81,0xe8,0xe3,0xfe,0xf5,0xc4,0xcf,0xd2,0xd9],
   [0x7b,0x70,0x6d,0x66,0x57,0x5c,0x41,0x4a,0x23,0x28,0x35,0x3e,0x0f,0x04,0x19,0x12],
   [0xcb,0xc0,0xdd,0xd6,0xe7,0xec,0xf1,0xfa,0x93,0x98,0x85,0x8e,0xbf,0xb4,0xa9,0xa2],
   [0xf6,0xfd,0xe0,0xeb,0xda,0xd1,0xcc,0xc7,0xae,0xa5,0xb8,0xb3,0x82,0x89,0x94,0x9f],
   [0x46,0x4d,0x50,0x5b,0x6a,0x61,0x7c,0x77,0x1e,0x15,0x08,0x03,0x32,0x39,0x24,0x2f],
   [0x8d,0x86,0x9b,0x90,0xa1,0xaa,0xb7,0xbc,0xd5,0xde,0xc3,0xc8,0xf9,0xf2,0xef,0xe4],
   [0x3d,0x36,0x2b,0x20,0x11,0x1a,0x07,0x0c,0x65,0x6e,0x73,0x78,0x49,0x42,0x5f,0x54],
   [0xf7,0xfc,0xe1,0xea,0xdb,0xd0,0xcd,0xc6,0xaf,0xa4,0xb9,0xb2,0x83,0x88,0x95,0x9e],
   [0x47,0x4c,0x51,0x5a,0x6b,0x60,0x7d,0x76,0x1f,0x14,0x09,0x02,0x33,0x38,0x25,0x2e],
   [0x8c,0x87,0x9a,0x91,0xa0,0xab,0xb6,0xbd,0xd4,0xdf,0xc2,0xc9,0xf8,0xf3,0xee,0xe5],
   [0x3c,0x37,0x2a,0x21,0x10,0x1b,0x06,0x0d,0x64,0x6f,0x72,0x79,0x48,0x43,0x5e,0x55],
   [0x01,0x0a,0x17,0x1c,0x2d,0x26,0x3b,0x30,0x59,0x52,0x4f,0x44,0x75,0x7e,0x63,0x68],
   [0xb1,0xba,0xa7,0xac,0x9d,0x96,0x8b,0x80,0xe9,0xe2,0xff,0xf4,0xc5,0xce,0xd3,0xd8],
   [0x7a,0x71,0x6c,0x67,0x56,0x5d,0x40,0x4b,0x22,0x29,0x34,0x3f,0x0e,0x05,0x18,0x13],
   [0xca,0xc1,0xdc,0xd7,0xe6,0xed,0xf0,0xfb,0x92,0x99,0x84,0x8f,0xbe,0xb5,0xa8,0xa3]]

def xtimeDTable : List (List (BitVec 8)) :=
  [[0x00,0x0d,0x1a,0x17,0x34,0x39,0x2e,0x23,0x68,0x65,0x72,0x7f,0x5c,0x51,0x46,0x4b],
   [0xd0,0xdd,0xca,0xc7,0xe4,0xe9,0xfe,0xf3,0xb8,0xb5,0xa2,0xaf,0x8c,0x81,0x96,0x9b],
   [0xbb,0xb6,0xa1,0xac,0x8f,0x82,0x95,0x98,0xd3,0xde,0xc9,0xc4,0xe7,0xea,0xfd,0xf0],
   [0x6b,0x66,0x71,0x7c,0x5f,0x52,0x45,0x48,0x03,0x0e,0x19,0x14,0x37,0x3a,0x2d,0x20],
   [0x6d,0x60,0x77,0x7a,0x59,0x54,0x43,0x4e,0x05,0x08,0x1f,0x12,0x31,0x3c,0x2b,0x26],
   [0xbd,0xb0,0xa7,0xaa,0x89,0x84,0x93,0x9e,0xd5,0xd8,0xcf,0xc2,0xe1,0xec,0xfb,0xf6],
   [0xd6,0xdb,0xcc,0xc1,0xe2,0xef,0xf8,0xf5,0xbe,0xb3,0xa4,0xa9,0x8a,0x87,0x90,0x9d],
   [0x06,0x0b,0x1c,0x11,0x32,0x3f,0x28,0x25,0x6e,0x63,0x74,0x79,0x5a,0x57,0x40,0x4d],
   [0xda,0xd7,0xc0,0xcd,0xee,0xe3,0xf4,0xf9,0xb2,0xbf,0xa8,0xa5,0x86,0x8b,0x9c,0x91],
   [0x0a,0x07,0x10,0x1d,0x3e,0x33,0x24,0x29,0x62,0x6f,0x78,0x75,0x56,0x5b,0x4c,0x41],
   [0x61,0x6c,0x7b,0x76,0x55,0x58,0x4f,0x42,0x09,0x04,0x13,0x1e,0x3d,0x30,0x27,0x2a],
   [0xb1,0xbc,0xab,0xa6,0x85,0x88,0x9f,0x92,0xd9,0xd4,0xc3,0xce,0xed,0xe0,0xf7,0xfa],
   [0xb7,0xba,0xad,0xa0,0x83,0x8e,0x99,0x94,0xdf,0xd2,0xc5,0xc8,0xeb,0xe6,0xf1,0xfc],
   [0x67,0x6a,0x7d,0x70,0x53,0x5e,0x49,0x44,0x0f,0x02,0x15,0x18,0x3b,0x36,0x21,0x2c],
   [0x0c,0x01,0x16,0x1b,0x38,0x35,0x22,0x2f,0x64,0x69,0x7e,0x73,0x50,0x5d,0x4a,0x47],
   [0xdc,0xd1,0xc6,0xcb,0xe8,0xe5,0xf2,0xff,0xb4,0xb9,0xae,0xa3,0x80,0x8d,0x9a,0x97]]

def xtime9Table : List (List (BitVec 8)) :=
  [[0x00,0x09,0x12,0x1b,0x24,0x2d,0x36,0x3f,0x48,0x41,0x5a,0x53,0x6c,0x65,0x7e,0x77],
   [0x90,0x99,0x82,0x8b,0xb4,0xbd,0xa6,0xaf,0xd8,0xd1,0xca,0xc3,0xfc,0xf5,0xee,0xe7],
   [0x3b,0x32,0x29,0x20,0x1f,0x16,0x0d,0x04,0x73,0x7a,0x61,0x68,0x57,0x5e,0x45,0x4c],
   [0xab,0xa2,0xb9,0xb0,0x8f,0x86,0x9d,0x94,0xe3,0xea,0xf1,0xf8,0xc7,0xce,0xd5,0xdc],
   [0x76,0x7f,0x64,0x6d,0x52,0x5b,0x40,0x49,0x3e,0x37,0x2c,0x25,0x1a,0x13,0x08,0x01],
   [0xe6,0xef,0xf4,0xfd,0xc2,0xcb,0xd0,0xd9,0xae,0xa7,0xbc,0xb5,0x8a,0x83,0x98,0x91],
   [0x4d,0x44,0x5f,0x56,0x69,0x60,0x7b,0x72,0x05,0x0c,0x17,0x1e,0x21,0x28,0x33,0x3a],
   [0xdd,0xd4,0xcf,0xc6,0xf9,0xf0,0xeb,0xe2,0x95,0x9c,0x87,0x8e,0xb1,0xb8,0xa3,0xaa],
   [0xec,0xe5,0xfe,0xf7,0xc8,0xc1,0xda,0xd3,0xa4,0xad,0xb6,0xbf,0x80,0x89,0x92,0x9b],
   [0x7c,0x75,0x6e,0x67,0x58,0x51,0x4a,0x43,0x34,0x3d,0x26,0x2f,0x10,0x19,0x02,0x0b],
   [0xd7,0xde,0xc5,0xcc,0xf3,0xfa,0xe1,0xe8,0x9f,0x96,0x8d,0x84,0xbb,0xb2,0xa9,0xa0],
   [0x47,0x4e,0x55,0x5c,0x63,0x6a,0x71,0x78,0x0f,0x06,0x1d,0x14,0x2b,0x22,0x39,0x30],
   [0x9a,0x93,0x88,0x81,0xbe,0xb7,0xac,0xa5,0xd2,0xdb,0xc0,0xc9,0xf6,0xff,0xe4,0xed],
   [0x0a,0x03,0x18,0x11,0x2e,0x27,0x3c,0x35,0x42,0x4b,0x50,0x59,0x66,0x6f,0x74,0x7d],
   [0xa1,0xa8,0xb3,0xba,0x85,0x8c,0x97,0x9e,0xe9,0xe0,0xfb,0xf2,0xcd,0xc4,0xdf,0xd6],
   [0x31,0x38,0x23,0x2a,0x15,0x1c,0x07,0x0e,0x79,0x70,0x6b,0x62,0x5d,0x54,0x4f,0x46]]

def SBOX (b : BitVec 8) : BitVec 8 := lookup sboxTable b
def INVSBOX (b : BitVec 8) : BitVec 8 := lookup invSboxTable b
def XTIMEE (b : BitVec 8) : BitVec 8 := lookup xtimeETable b
def XTIMEB (b : BitVec 8) : BitVec 8 := lookup xtimeBTable b
def XTIMED (b : BitVec 8) : BitVec 8 := lookup xtimeDTable b
def XTIME9 (b : BitVec 8) : BitVec 8 := lookup xtime9Table b

section Tables

variable (b : BitVec 8)

theorem SBOX_eq : SBOX b = Aes.sbox b :=
  forall_byte (fun b => SBOX b = Aes.sbox b) (by decide +kernel) b

theorem INVSBOX_eq : INVSBOX b = Aes.invSbox b :=
  forall_byte (fun b => INVSBOX b = Aes.invSbox b) (by decide +kernel) b

theorem XTIMEE_eq : XTIMEE b = gfMul 0x0e#8 b := by
  rw [gfMul_fourteen]
  exact forall_byte (fun b => XTIMEE b = xtime b ^^^ (xtime (xtime b) ^^^ xtime (xtime (xtime b))))
    (by decide +kernel) b

theorem XTIMEB_eq : XTIMEB b = gfMul 0x0b#8 b := by
  rw [gfMul_eleven]
  exact forall_byte (fun b => XTIMEB b = b ^^^ (xtime b ^^^ xtime (xtime (xtime b))))
    (by decide +kernel) b

theorem XTIMED_eq : XTIMED b = gfMul 0x0d#8 b := by
  rw [gfMul_thirteen]
  exact forall_byte (fun b => XTIMED b = b ^^^ (xtime (xtime b) ^^^ xtime (xtime (xtime b))))
    (by decide +kernel) b

theorem XTIME9_eq : XTIME9 b = gfMul 0x09#8 b := by
  rw [gfMul_nine]
  exact forall_byte (fun b => XTIME9 b = b ^^^ xtime (xtime (xtime b))) (by decide +kernel) b

end Tables

/-! ## Columns as words -/

structure Int4Char where
  b0 : BitVec 8
  b1 : BitVec 8
  b2 : BitVec 8
  b3 : BitVec 8
  deriving DecidableEq

def Int4Char.i32 (x : Int4Char) : BitVec 32 := word x.b0 x.b1 x.b2 x.b3

def Int4Char.ofI32 (w : BitVec 32) : Int4Char :=
  ⟨w.extractLsb' 0 8, w.extractLsb' 8 8, w.extractLsb' 16 8, w.extractLsb' 24 8⟩

def fetchWord (input : Block) (col : Fin 4) : BitVec 32 :=
  word input[4 * col.val] input[4 * col.val + 1] input[4 * col.val + 2] input[4 * col.val + 3]

def fetchCol (input : Block) (col : Fin 4) : Int4Char := .ofI32 (fetchWord input col)

def saveCol (out : Block) (w : BitVec 32) (col : Fin 4) : Block :=
  (((out.set (4 * col.val) (w.extractLsb' 0 8)).set (4 * col.val + 1) (w.extractLsb' 8 8)).set
    (4 * col.val + 2) (w.extractLsb' 16 8)).set (4 * col.val + 3) (w.extractLsb' 24 8)

def shiftRowsOpt (input : Block) : Block :=
  let col0 := fetchCol input 0
  let col1 := fetchCol input 1
  let col2 := fetchCol input 2
  let col3 := fetchCol input 3
  -- r0
  let col0 := { col0 with b0 := SBOX col0.b0 }
  let col1 := { col1 with b0 := SBOX col1.b0 }
  let col2 := { col2 with b0 := SBOX col2.b0 }
  let col3 := { col3 with b0 := SBOX col3.b0 }
  -- r1
  let tmp1 := SBOX col0.b1
  let col0 := { col0 with b1 := SBOX col1.b1 }
  let col1 := { col1 with b1 := SBOX col2.b1 }
  let col2 := { col2 with b1 := SBOX col3.b1 }
  let col3 := { col3 with b1 := tmp1 }
  -- r2
  let tmp2 := SBOX col0.b2
  let tmp3 := SBOX col1.b2
  let col0 := { col0 with b2 := SBOX col2.b2 }
  let col1 := { col1 with b2 := SBOX col3.b2 }
  let col2 := { col2 with b2 := tmp2 }
  let col3 := { col3 with b2 := tmp3 }
  -- r3
  let tmp3 := SBOX col3.b3
  let col3 := { col3 with b3 := SBOX col2.b3 }
  let col2 := { col2 with b3 := SBOX col1.b3 }
  let col1 := { col1 with b3 := SBOX col0.b3 }
  let col0 := { col0 with b3 := tmp3 }
  saveCol (saveCol (saveCol (saveCol input col0.i32 0) col1.i32 1) col2.i32 2) col3.i32 3

def invShiftRow0 (state : Block) : Block :=
  let state := state.set 0 (INVSBOX state[0])
  let state := state.set 4 (INVSBOX state[4])
  let state := state.set 8 (INVSBOX state[8])
  state.set 12 (INVSBOX state[12])

def invShiftRow1 (state : Block) : Block :=
  let tmp := INVSBOX state[13]
  let state := state.set 13 (INVSBOX state[9])
  let state := state.set 9 (INVSBOX state[5])
  let state := state.set 5 (INVSBOX state[1])
  state.set 1 tmp

def invShiftRow2 (state : Block) : Block :=
  let tmp := INVSBOX state[2]
  let tmp2 := INVSBOX state[6]
  let state := state.set 2 (INVSBOX state[10])
  let state := state.set 6 (INVSBOX state[14])
  let state := state.set 10 tmp
  state.set 14 tmp2

def invShiftRow3 (state : Block) : Block :=
  let tmp := INVSBOX state[3]
  let state := state.set 3 (INVSBOX state[7])
  let state := state.set 7 (INVSBOX state[11])
  let state := state.set 11 (INVSBOX state[15])
  state.set 15 tmp

def invShiftRows (state : Block) : Block :=
  invShiftRow3 (invShiftRow2 (invShiftRow1 (invShiftRow0 state)))

def xtime32 (x : BitVec 32) : BitVec 32 :=
  (((x >>> 7) &&& 0x01010101#32) * 0x1b#32) ^^^ ((x <<< 1) &&& 0xfefefefe#32)

def mixColumn (ib : Int4Char) : Int4Char :=
  let ibTmp := (ib.i32 >>> 8) ||| (ib.i32 <<< 24)
  let ibTmp := ibTmp ^^^ ib.i32
  let i32 := ib.i32 ^^^ xtime32 ibTmp
  let ibTmp := ibTmp ^^^ ((ibTmp <<< 16) ||| (ibTmp >>> 16))
  .ofI32 (i32 ^^^ ibTmp)

def mixColumnsOpt (state : Block) : Block :=
  let col0 := mixColumn (fetchCol state 0)
  let col1 := mixColumn (fetchCol state 1)
  let col2 := mixColumn (fetchCol state 2)
  let col3 := mixColumn (fetchCol state 3)
  saveCol (saveCol (saveCol (saveCol state col0.i32 0) col1.i32 1) col2.i32 2) col3.i32 3

/-- The four products that `_InvMixSubColumns_opt` adds up for each row of a column. -/
def restoreRow0 (col : Int4Char) : BitVec 8 :=
  INVSBOX (XTIMEE col.b0 ^^^ XTIMEB col.b1 ^^^ XTIMED col.b2 ^^^ XTIME9 col.b3)
def restoreRow1 (col : Int4Char) : BitVec 8 :=
  INVSBOX (XTIME9 col.b0 ^^^ XTIMEE col.b1 ^^^ XTIMEB col.b2 ^^^ XTIMED col.b3)
def restoreRow2 (col : Int4Char) : BitVec 8 :=
  INVSBOX (XTIMED col.b0 ^^^ XTIME9 col.b1 ^^^ XTIMEE col.b2 ^^^ XTIMEB col.b3)
def restoreRow3 (col : Int4Char) : BitVec 8 :=
  INVSBOX (XTIMEB col.b0 ^^^ XTIMED col.b1 ^^^ XTIME9 col.b2 ^^^ XTIMEE col.b3)

def invMixSubColumnsOpt (state : Block) : Block :=
  let col0 := fetchCol state 0
  let col1 := fetchCol state 1
  let col2 := fetchCol state 2
  let col3 := fetchCol state 3
  let tmp : Int4Char := ⟨restoreRow0 col0, restoreRow1 col3, restoreRow2 col2, restoreRow3 col1⟩
  let state := saveCol state tmp.i32 0
  let tmp : Int4Char := ⟨restoreRow0 col1, restoreRow1 col0, restoreRow2 col3, restoreRow3 col2⟩
  let state := saveCol state tmp.i32 1
  let tmp : Int4Char := ⟨restoreRow0 col2, restoreRow1 col1, restoreRow2 col0, restoreRow3 col3⟩
  let state := saveCol state tmp.i32 2
  let tmp : Int4Char := ⟨restoreRow0 col3, restoreRow1 col2, restoreRow2 col1, restoreRow3 col0⟩
  saveCol state tmp.i32 3

/-! ## The cipher -/

def Nb : Nat := 4
def Nk : Nat := 4
def Nr : Nat := 10

abbrev ExpKey := Vector (BitVec 8) 176

def byteAt (expkey : ExpKey) (i : Nat) : BitVec 8 := expkey[i]?.getD 0#8

def keyWord (expkey : ExpKey) (j : Nat) : BitVec 32 :=
  word (byteAt expkey (4 * j)) (byteAt expkey (4 * j + 1)) (byteAt expkey (4 * j + 2))
    (byteAt expkey (4 * j + 3))

/-- `_AddRoundKey` with the key words from `offset` on. -/
def addRoundKey (state : Block) (expkey : ExpKey) (offset : Nat) : Block :=
  [0, 1, 2, 3].foldl
    (fun state (i : Fin 4) => saveCol state (fetchWord state i ^^^ keyWord expkey (offset + i)) i) state

def encryptRounds (expkey : ExpKey) (state : Block) : Nat → Block
  | 0 => state
  | n + 1 =>
    addRoundKey (mixColumnsOpt (shiftRowsOpt (encryptRounds expkey state n))) expkey ((n + 1) * Nb)

def encryptOneAESBlock (block : Block) (expkey : ExpKey) : Block :=
  let block := addRoundKey block expkey 0
  let block := encryptRounds expkey block (Nr - 1)
  addRoundKey (shiftRowsOpt block) expkey (Nr * Nb)

/-- The loop of `_DecryptOneAESBlock`, from `round` down to 1. -/
def decryptRounds (expkey : ExpKey) : Nat → Block → Block
  | 0, block => block
  | round + 1, block =>
    decryptRounds expkey round (invMixSubColumnsOpt (addRoundKey block expkey ((round + 1) * Nb)))

def decryptOneAESBlock (block : Block) (expkey : ExpKey) : Block :=
  let block := invShiftRows (addRoundKey block expkey (Nr * Nb))
  let block := decryptRounds expkey (Nr - 1) block
  addRoundKey block expkey 0

/-! ## The schedule -/

def Rcon : List (BitVec 8) :=
  [0x00,0x01,0x02,0x04,0x08,0x10,0x20,0x40,0x80,0x1b,0x36]

/-- The word that `ExpandKey` adds to make word `idx`. -/
def expandTmp (expKey : ExpKey) (idx : Nat) : Int4Char :=
  let tmp0 := byteAt expKey (4 * idx - 4)
  let tmp1 := byteAt expKey (4 * idx - 3)
  let tmp2 := byteAt expKey (4 * idx - 2)
  let tmp3 := byteAt expKey (4 * idx - 1)
  if idx % Nk = 0 then
    let tmp4 := tmp3
    let tmp3 := SBOX tmp0
    let tmp0 := SBOX tmp1 ^^^ Rcon.getD (idx / Nk) 0#8
    let tmp1 := SBOX tmp2
    let tmp2 := SBOX tmp4
    ⟨tmp0, tmp1, tmp2, tmp3⟩
  else if Nk > 6 ∧ idx % Nk = 4 then ⟨SBOX tmp0, SBOX tmp1, SBOX tmp2, SBOX tmp3⟩
  else ⟨tmp0, tmp1, tmp2, tmp3⟩

def expandByte (expKey : ExpKey) (idx k : Nat) (tmp : BitVec 8) : ExpKey :=
  expKey.setIfInBounds (4 * idx + k) (byteAt expKey (4 * idx - 4 * Nk + k) ^^^ tmp)

def expandStep (expKey : ExpKey) (idx : Nat) : ExpKey :=
  let tmp := expandTmp expKey idx
  let expKey := expandByte expKey idx 0 tmp.b0
  let expKey := expandByte expKey idx 1 tmp.b1
  let expKey := expandByte expKey idx 2 tmp.b2
  expandByte expKey idx 3 tmp.b3

def expandLoop (expKey : ExpKey) : Nat → ExpKey
  | 0 => expKey
  | n + 1 => expandStep (expandLoop expKey n) (Nk + n)

def copyKey (key : Block) (expKey : ExpKey) : ExpKey :=
  Vector.ofFn fun i => if h : i.val < 16 then key[i.val] else expKey[i.val]

def expandKey (key : Block) (expKey : ExpKey) : ExpKey :=
  expandLoop (copyKey key expKey) (Nb * (Nr + 1) - Nk)

/-! ## The steps in terms of the standard -/

def Int4Char.toWord (x : Int4Char) : Word
  | 0 => x.b0
  | 1 => x.b1
  | 2 => x.b2
  | 3 => x.b3

def wordsOf (expkey : ExpKey) (j : Nat) : Word := fun r => byteAt expkey (4 * j + r)

section Columns

@[simp] theorem ofI32_i32 (x : Int4Char) : Int4Char.ofI32 x.i32 = x := by
  obtain ⟨h0, h1, h2, h3⟩ := extract_word x.b0 x.b1 x.b2 x.b3
  rw [Int4Char.ofI32, Int4Char.i32, h0, h1, h2, h3]

theorem fetchCol_eq (s : Block) (c : Fin 4) : fetchCol s c =
    ⟨Aes.ofBlock s 0 c, Aes.ofBlock s 1 c, Aes.ofBlock s 2 c, Aes.ofBlock s 3 c⟩ :=
  ofI32_i32 ⟨s[4 * c.val], s[4 * c.val + 1], s[4 * c.val + 2], s[4 * c.val + 3]⟩

theorem toWord_fetchCol (s : Block) (c : Fin 4) :
    (fetchCol s c).toWord = fun r => Aes.ofBlock s r c := by
  rw [fetchCol_eq]
  funext r
  cases r using Aes.fourCases with
  | zero => rfl
  | one => rfl
  | two => rfl
  | three => rfl

theorem ofBlock_saveCol (s : Block) (w : BitVec 32) (j r c : Fin 4) :
    Aes.ofBlock (saveCol s w j) r c =
      if c = j then (Int4Char.ofI32 w).toWord r else Aes.ofBlock s r c := by
  simp only [Aes.ofBlock, saveCol, Vector.getElem_set]
  by_cases hc : c = j
  · subst hc
    cases r using Aes.fourCases with
    | zero => simp [Int4Char.ofI32, Int4Char.toWord]
    | one => simp [Int4Char.ofI32, Int4Char.toWord]
    | two => simp [Int4Char.ofI32, Int4Char.toWord]
    | three => simp [Int4Char.ofI32, Int4Char.toWord]
  · have hNe : c.val ≠ j.val := fun hEq => hc (Fin.ext hEq)
    rw [if_neg (by omega), if_neg (by omega), if_neg (by omega), if_neg (by omega), if_neg hc]

def saveCols (s : Block) (x : Fin 4 → Int4Char) : Block :=
  saveCol (saveCol (saveCol (saveCol s (x 0).i32 0) (x 1).i32 1) (x 2).i32 2) (x 3).i32 3

theorem ofBlock_saveCols (s : Block) (x : Fin 4 → Int4Char) (r c : Fin 4) :
    Aes.ofBlock (saveCols s x) r c = (x c).toWord r := by
  simp only [saveCols, ofBlock_saveCol, ofI32_i32]
  cases c using Aes.fourCases with
  | zero => rfl
  | one => rfl
  | two => rfl
  | three => rfl

end Columns

section Steps

variable (s : Block)

theorem shiftRowsOpt_eq : shiftRowsOpt s = saveCols s fun c =>
    ⟨SBOX (Aes.ofBlock s 0 c), SBOX (Aes.ofBlock s 1 (c + 1)), SBOX (Aes.ofBlock s 2 (c + 2)),
      SBOX (Aes.ofBlock s 3 (c + 3))⟩ := by
  simp only [shiftRowsOpt, fetchCol_eq]
  rfl

theorem ofBlock_shiftRowsOpt :
    Aes.ofBlock (shiftRowsOpt s) = Aes.shiftRows (Aes.subBytes (Aes.ofBlock s)) := by
  funext r c
  rw [shiftRowsOpt_eq, ofBlock_saveCols]
  simp only [Int4Char.toWord, Aes.shiftRows, Aes.subBytes, SBOX_eq]
  cases r using Aes.fourCases with
  | zero => rw [Fin.add_zero]
  | one => rfl
  | two => rfl
  | three => rfl

theorem xtime32_word (a b c d : BitVec 8) :
    xtime32 (word a b c d) = word (xtime a) (xtime b) (xtime c) (xtime d) := by
  have hReduce : word (topBit a) (topBit b) (topBit c) (topBit d) * 0x1b#32 =
      word (if a.msb then 0x1b#8 else 0#8) (if b.msb then 0x1b#8 else 0#8)
        (if c.msb then 0x1b#8 else 0#8) (if d.msb then 0x1b#8 else 0#8) := by
    unfold topBit
    cases a.msb <;> cases b.msb <;> cases c.msb <;> cases d.msb <;> rfl
  rw [xtime32, word_topBits, word_double, hReduce, word_xor]
  simp only [xtime, BitVec.xor_comm]

theorem mixColumn_eq (x : Int4Char) : mixColumn x =
    ⟨x.b0 ^^^ xtime (x.b1 ^^^ x.b0) ^^^ (x.b1 ^^^ x.b0 ^^^ (x.b3 ^^^ x.b2)),
      x.b1 ^^^ xtime (x.b2 ^^^ x.b1) ^^^ (x.b2 ^^^ x.b1 ^^^ (x.b0 ^^^ x.b3)),
      x.b2 ^^^ xtime (x.b3 ^^^ x.b2) ^^^ (x.b3 ^^^ x.b2 ^^^ (x.b1 ^^^ x.b0)),
      x.b3 ^^^ xtime (x.b0 ^^^ x.b3) ^^^ (x.b0 ^^^ x.b3 ^^^ (x.b2 ^^^ x.b1))⟩ := by
  unfold mixColumn Int4Char.i32
  simp only [word_rotate_one, word_xor, word_rotate_two, xtime32_word]
  exact ofI32_i32 ⟨_, _, _, _⟩

theorem mix_row (a b c d : BitVec 8) : a ^^^ xtime (b ^^^ a) ^^^ (b ^^^ a ^^^ (d ^^^ c)) =
      gfMul 0x02#8 a ^^^ gfMul 0x03#8 b ^^^ c ^^^ d := by
  rw [gfMul_two, gfMul_three, xtime_xor]
  generalize xtime a = a₁
  generalize xtime b = b₁
  simp only [BitVec.xor_assoc, BitVec.xor_comm, Aes.xor_left_comm, Aes.xor_cancel_left]

theorem toWord_mixColumn (x : Int4Char) : (mixColumn x).toWord = Aes.mixColumn x.toWord := by
  rw [mixColumn_eq]
  funext r
  cases r using Aes.fourCases with
  | zero => exact mix_row _ _ _ _
  | one => exact mix_row _ _ _ _
  | two => exact mix_row _ _ _ _
  | three => exact mix_row _ _ _ _

example : mixColumn ⟨0xdb,0x13,0x53,0x45⟩ = ⟨0x8e,0x4d,0xa1,0xbc⟩ := by decide

theorem ofBlock_mixColumnsOpt : Aes.ofBlock (mixColumnsOpt s) = Aes.mixColumns (Aes.ofBlock s) := by
  funext r c
  have hSave : mixColumnsOpt s = saveCols s fun c => mixColumn (fetchCol s c) := rfl
  rw [hSave, ofBlock_saveCols, toWord_mixColumn, toWord_fetchCol]
  rfl

theorem ofBlock_invShiftRow0 (r c : Fin 4) : Aes.ofBlock (invShiftRow0 s) r c =
    if r = 0 then INVSBOX (Aes.ofBlock s 0 c) else Aes.ofBlock s r c := by
  simp only [invShiftRow0, Aes.ofBlock, Vector.getElem_set]
  fin_cases r <;> fin_cases c <;> rfl

theorem ofBlock_invShiftRow1 (r c : Fin 4) : Aes.ofBlock (invShiftRow1 s) r c =
    if r = 1 then INVSBOX (Aes.ofBlock s 1 (c - 1)) else Aes.ofBlock s r c := by
  simp only [invShiftRow1, Aes.ofBlock, Vector.getElem_set]
  fin_cases r <;> fin_cases c <;> rfl

theorem ofBlock_invShiftRow2 (r c : Fin 4) : Aes.ofBlock (invShiftRow2 s) r c =
    if r = 2 then INVSBOX (Aes.ofBlock s 2 (c - 2)) else Aes.ofBlock s r c := by
  simp only [invShiftRow2, Aes.ofBlock, Vector.getElem_set]
  fin_cases r <;> fin_cases c <;> rfl

theorem ofBlock_invShiftRow3 (r c : Fin 4) : Aes.ofBlock (invShiftRow3 s) r c =
    if r = 3 then INVSBOX (Aes.ofBlock s 3 (c - 3)) else Aes.ofBlock s r c := by
  simp only [invShiftRow3, Aes.ofBlock, Vector.getElem_set]
  fin_cases r <;> fin_cases c <;> rfl

theorem ofBlock_invShiftRows :
    Aes.ofBlock (invShiftRows s) = Aes.invSubBytes (Aes.invShiftRows (Aes.ofBlock s)) := by
  funext r c
  simp only [invShiftRows, ofBlock_invShiftRow0, ofBlock_invShiftRow1, ofBlock_invShiftRow2,
    ofBlock_invShiftRow3, Aes.invSubBytes, Aes.invShiftRows, ← INVSBOX_eq]
  cases r using Aes.fourCases with
  | zero =>
    have hZero : ∀ c : Fin 4, c - 0 = c := by decide
    rw [hZero]
    rfl
  | one => rfl
  | two => rfl
  | three => rfl

theorem restoreRows_eq (x : Int4Char) : restoreRow0 x = Aes.invSbox (Aes.invMixColumn x.toWord 0) ∧
      restoreRow1 x = Aes.invSbox (Aes.invMixColumn x.toWord 1) ∧
      restoreRow2 x = Aes.invSbox (Aes.invMixColumn x.toWord 2) ∧
      restoreRow3 x = Aes.invSbox (Aes.invMixColumn x.toWord 3) := by
  simp only [restoreRow0, restoreRow1, restoreRow2, restoreRow3, INVSBOX_eq, XTIMEE_eq, XTIMEB_eq,
    XTIMED_eq, XTIME9_eq]
  refine ⟨congrArg Aes.invSbox ?_, congrArg Aes.invSbox ?_, congrArg Aes.invSbox ?_,
    congrArg Aes.invSbox ?_⟩
  · rfl
  · show _ = gfMul 0x0e#8 x.b1 ^^^ gfMul 0x0b#8 x.b2 ^^^ gfMul 0x0d#8 x.b3 ^^^ gfMul 0x09#8 x.b0
    ac_rfl
  · show _ = gfMul 0x0e#8 x.b2 ^^^ gfMul 0x0b#8 x.b3 ^^^ gfMul 0x0d#8 x.b0 ^^^ gfMul 0x09#8 x.b1
    ac_rfl
  · show _ = gfMul 0x0e#8 x.b3 ^^^ gfMul 0x0b#8 x.b0 ^^^ gfMul 0x0d#8 x.b1 ^^^ gfMul 0x09#8 x.b2
    ac_rfl

theorem ofBlock_invMixSubColumnsOpt : Aes.ofBlock (invMixSubColumnsOpt s) =
    Aes.invSubBytes (Aes.invShiftRows (Aes.invMixColumns (Aes.ofBlock s))) := by
  have hSave : invMixSubColumnsOpt s = saveCols s fun c =>
      ⟨restoreRow0 (fetchCol s c), restoreRow1 (fetchCol s (c - 1)),
        restoreRow2 (fetchCol s (c - 2)), restoreRow3 (fetchCol s (c - 3))⟩ := rfl
  funext r c
  rw [hSave, ofBlock_saveCols]
  simp only [(restoreRows_eq _).1, (restoreRows_eq _).2.1, (restoreRows_eq _).2.2.1,
    (restoreRows_eq _).2.2.2, toWord_fetchCol, Int4Char.toWord, Aes.invSubBytes, Aes.invShiftRows,
    Aes.invMixColumns]
  cases r using Aes.fourCases with
  | zero =>
    have hZero : ∀ c : Fin 4, c - 0 = c := by decide
    rw [hZero]
  | one => rfl
  | two => rfl
  | three => rfl

theorem ofBlock_addKeyWord (expkey : ExpKey) (j : Nat) (i r c : Fin 4) :
    Aes.ofBlock (saveCol s (fetchWord s i ^^^ keyWord expkey j) i) r c =
      if c = i then Aes.ofBlock s r c ^^^ byteAt expkey (4 * j + r) else Aes.ofBlock s r c := by
  rw [ofBlock_saveCol, fetchWord, keyWord, word_xor]
  by_cases hc : c = i
  · subst hc
    rw [if_pos rfl, if_pos rfl]
    refine (congrFun (congrArg Int4Char.toWord (ofI32_i32 ⟨_, _, _, _⟩)) r).trans ?_
    cases r using Aes.fourCases with
    | zero => rfl
    | one => rfl
    | two => rfl
    | three => rfl
  · rw [if_neg hc, if_neg hc]

theorem ofBlock_addRoundKey (expkey : ExpKey) (round : Nat) :
    Aes.ofBlock (addRoundKey s expkey (round * Nb)) =
      Aes.addRoundKey (wordsOf expkey) round (Aes.ofBlock s) := by
  funext r c
  simp only [wordsOf, addRoundKey, List.foldl_cons, List.foldl_nil, ofBlock_addKeyWord, Aes.addRoundKey, Nb,
    Nat.mul_comm round 4]
  cases c using Aes.fourCases with
  | zero => rfl
  | one => rfl
  | two => rfl
  | three => rfl

end Steps

/-! ## Encryption and decryption with any schedule -/

section Cipher

variable (expkey : ExpKey) (block : Block)

theorem ofBlock_encryptRounds (n : Nat) :
    Aes.ofBlock (encryptRounds expkey (addRoundKey block expkey 0) n) =
      Aes.rounds (wordsOf expkey) (Aes.ofBlock block) n := by
  induction n with
  | zero =>
    have hKey := ofBlock_addRoundKey block expkey 0
    rw [Nat.zero_mul] at hKey
    exact hKey
  | succ n ih =>
    rw [encryptRounds, ofBlock_addRoundKey, ofBlock_mixColumnsOpt, ofBlock_shiftRowsOpt, ih]
    rfl

theorem ofBlock_encryptOneAESBlock : Aes.ofBlock (encryptOneAESBlock block expkey) =
      Aes.cipher (wordsOf expkey) (Aes.ofBlock block) := by
  simp only [encryptOneAESBlock]
  rw [ofBlock_addRoundKey, ofBlock_shiftRowsOpt, ofBlock_encryptRounds]
  rfl

theorem addRoundKey_twice (round : Nat) :
    addRoundKey (addRoundKey block expkey (round * Nb)) expkey (round * Nb) = block := by
  apply Aes.ofBlock_injective
  rw [ofBlock_addRoundKey, ofBlock_addRoundKey, Aes.addRoundKey_addRoundKey]

theorem invShiftRows_shiftRowsOpt : invShiftRows (shiftRowsOpt block) = block := by
  apply Aes.ofBlock_injective
  rw [ofBlock_invShiftRows, ofBlock_shiftRowsOpt, Aes.invShiftRows_shiftRows,
    Aes.invSubBytes_subBytes]

theorem invMixSubColumnsOpt_mixColumnsOpt :
    invMixSubColumnsOpt (mixColumnsOpt (shiftRowsOpt block)) = block := by
  apply Aes.ofBlock_injective
  rw [ofBlock_invMixSubColumnsOpt, ofBlock_mixColumnsOpt, ofBlock_shiftRowsOpt,
    Aes.invMixColumns_mixColumns, Aes.invShiftRows_shiftRows, Aes.invSubBytes_subBytes]

theorem decryptRounds_encryptRounds (n : Nat) :
    decryptRounds expkey n (encryptRounds expkey block n) = block := by
  induction n with
  | zero => rfl
  | succ n ih =>
    rw [encryptRounds, decryptRounds, addRoundKey_twice, invMixSubColumnsOpt_mixColumnsOpt, ih]

theorem decrypt_encryptOneAESBlock :
    decryptOneAESBlock (encryptOneAESBlock block expkey) expkey = block := by
  simp only [decryptOneAESBlock, encryptOneAESBlock]
  rw [addRoundKey_twice, invShiftRows_shiftRowsOpt, decryptRounds_encryptRounds]
  have hKey := addRoundKey_twice expkey block 0
  rw [Nat.zero_mul] at hKey
  exact hKey

end Cipher

/-! ## The schedule -/

section Schedule

variable {m : ExpKey} {idx k i : Nat} {tmp : BitVec 8}

theorem byteAt_expandByte_self (hIn : 4 * idx + k < 176) :
    byteAt (expandByte m idx k tmp) (4 * idx + k) = byteAt m (4 * idx - 4 * Nk + k) ^^^ tmp := by
  simp [byteAt, expandByte, hIn]

theorem byteAt_expandByte_of_ne (hNe : 4 * idx + k ≠ i) :
    byteAt (expandByte m idx k tmp) i = byteAt m i := by
  simp [byteAt, expandByte, hNe]

theorem Rcon_eq {j : Nat} (hPos : 0 < j) (hLe : j ≤ 10) : Rcon.getD j 0#8 = xtime^[j - 1] 1#8 := by
  interval_cases j <;> decide

theorem wordsOf_expandStep_of_ne {j : Nat} (hNe : j ≠ idx) :
    wordsOf (expandStep m idx) j = wordsOf m j := by
  funext r
  have hOther : ∀ k, k < 4 → 4 * idx + k ≠ 4 * j + r := by
    intro k hk
    omega
  simp only [wordsOf, expandStep]
  rw [byteAt_expandByte_of_ne (hOther 3 (by omega)), byteAt_expandByte_of_ne (hOther 2 (by omega)),
    byteAt_expandByte_of_ne (hOther 1 (by omega)), byteAt_expandByte_of_ne (hOther 0 (by omega))]

/-- None of the four bytes that are written is among those read for them. -/
theorem wordsOf_expandStep_self (hIdx : 4 ≤ idx) (hLast : idx < 44) :
    wordsOf (expandStep m idx) idx =
      fun r => wordsOf m (idx - 4) r ^^^ (expandTmp m idx).toWord r := by
  have hBack : ∀ k, 4 * (idx - 4) + k = 4 * idx - 4 * Nk + k := by
    intro k
    rw [Nk]
    omega
  have hRead : ∀ k l, k < 4 → 4 * idx + l ≠ 4 * idx - 4 * Nk + k := by
    intro k l hk
    rw [Nk]
    omega
  have hNext : ∀ k l, k ≠ l → 4 * idx + k ≠ 4 * idx + l := by
    intro k l hNe hEq
    exact hNe (Nat.add_left_cancel hEq)
  have hIn : ∀ k, k < 4 → 4 * idx + k < 176 := by
    intro k hk
    omega
  funext r
  simp only [wordsOf, expandStep, hBack]
  cases r using Aes.fourCases with
  | zero =>
    show byteAt _ (4 * idx + 0) = _
    rw [byteAt_expandByte_of_ne (hNext 3 0 (by decide)), byteAt_expandByte_of_ne (hNext 2 0 (by decide)),
      byteAt_expandByte_of_ne (hNext 1 0 (by decide)), byteAt_expandByte_self (hIn 0 (by decide))]
    rfl
  | one =>
    show byteAt _ (4 * idx + 1) = _
    rw [byteAt_expandByte_of_ne (hNext 3 1 (by decide)), byteAt_expandByte_of_ne (hNext 2 1 (by decide)),
      byteAt_expandByte_self (hIn 1 (by decide)), byteAt_expandByte_of_ne (hRead 1 0 (by decide))]
    rfl
  | two =>
    show byteAt _ (4 * idx + 2) = _
    rw [byteAt_expandByte_of_ne (hNext 3 2 (by decide)), byteAt_expandByte_self (hIn 2 (by decide)),
      byteAt_expandByte_of_ne (hRead 2 1 (by decide)), byteAt_expandByte_of_ne (hRead 2 0 (by decide))]
    rfl
  | three =>
    show byteAt _ (4 * idx + 3) = _
    rw [byteAt_expandByte_self (hIn 3 (by decide)), byteAt_expandByte_of_ne (hRead 3 2 (by decide)),
      byteAt_expandByte_of_ne (hRead 3 1 (by decide)), byteAt_expandByte_of_ne (hRead 3 0 (by decide))]
    rfl

theorem toWord_expandTmp (hIdx : 4 ≤ idx) (hLast : idx < 44) : (expandTmp m idx).toWord =
      if idx % 4 = 0 then
        fun r => Aes.subWord (Aes.rotWord (wordsOf m (idx - 1))) r ^^^ Aes.rcon (idx / 4) r
      else wordsOf m (idx - 1) := by
  have hWord : wordsOf m (idx - 1) =
      Int4Char.toWord ⟨byteAt m (4 * idx - 4), byteAt m (4 * idx - 3), byteAt m (4 * idx - 2),
        byteAt m (4 * idx - 1)⟩ := by
    funext r
    cases r using Aes.fourCases with
    | zero => exact congrArg (byteAt m) (by omega : 4 * (idx - 1) + 0 = 4 * idx - 4)
    | one => exact congrArg (byteAt m) (by omega : 4 * (idx - 1) + 1 = 4 * idx - 3)
    | two => exact congrArg (byteAt m) (by omega : 4 * (idx - 1) + 2 = 4 * idx - 2)
    | three => exact congrArg (byteAt m) (by omega : 4 * (idx - 1) + 3 = 4 * idx - 1)
  have hRcon := Rcon_eq (j := idx / 4) (by omega) (by omega)
  rw [hWord]
  unfold expandTmp Nk
  by_cases hFirst : idx % 4 = 0
  · rw [if_pos hFirst, if_pos hFirst, hRcon]
    simp only [SBOX_eq]
    funext r
    cases r using Aes.fourCases with
    | zero => rfl
    | one => exact BitVec.xor_zero.symm
    | two => exact BitVec.xor_zero.symm
    | three => exact BitVec.xor_zero.symm
  · rw [if_neg hFirst, if_neg hFirst, if_neg (by omega)]

theorem wordsOf_expandLoop {key : Fin 4 → Word} (hKey : ∀ j, (h : j < 4) → wordsOf m j = key ⟨j, h⟩)
    {n : Nat} (hLast : n ≤ 40) :
    ∀ j < 4 + n, wordsOf (expandLoop m n) j = Aes.keyExpansion key j := by
  induction n with
  | zero =>
    intro j hj
    rw [Aes.keyExpansion_of_lt hj]
    exact hKey j hj
  | succ n ih =>
    intro j hj
    have hWords := ih (by omega)
    show wordsOf (expandStep (expandLoop m n) (4 + n)) j = _
    by_cases hNew : j = 4 + n
    · subst hNew
      rw [wordsOf_expandStep_self (by omega) (by omega), toWord_expandTmp (by omega) (by omega),
        hWords (4 + n - 4) (by omega), hWords (4 + n - 1) (by omega),
        Aes.keyExpansion_of_ge (by omega : 4 ≤ 4 + n)]
    · rw [wordsOf_expandStep_of_ne hNew]
      exact hWords j (by omega)

theorem wordsOf_expandKey (key : Block) (expKey : ExpKey) (j : Nat) (hj : j < 44) :
    wordsOf (expandKey key expKey) j = Aes.keyExpansion (Aes.keyWords key) j := by
  refine wordsOf_expandLoop ?_ (Nat.le_refl 40) j hj
  intro j hj
  funext r
  have hIn : 4 * j + r.val < 16 := by omega
  simp [wordsOf, byteAt, copyKey, Aes.keyWords, hIn, show 4 * j + r.val < 176 by omega]

end Schedule

/-- **The block cipher.** For every key and block, whatever the buffer held before. -/
theorem gpu_cipher_is_aes (key block : Block) (buffer : ExpKey) :
    encryptOneAESBlock block (expandKey key buffer) = Aes.aes128 key block ∧
      decryptOneAESBlock (encryptOneAESBlock block (expandKey key buffer)) (expandKey key buffer) =
        block := by
  refine ⟨?_, decrypt_encryptOneAESBlock (expandKey key buffer) block⟩
  have hWords := wordsOf_expandKey key buffer
  rw [Aes.aes128, ← Aes.cipher_congr hWords, ← ofBlock_encryptOneAESBlock, Aes.toBlock_ofBlock]

/-! ## The keystream of a display session -/

def blockOf (bytes : List UInt8) : Block := Vector.ofFn fun i => (bytes.getD i 0).toBitVec

def bytesOf (b : Block) : List UInt8 := b.toList.map UInt8.ofBitVec

theorem length_bytesOf (b : Block) : (bytesOf b).length = 16 := by
  simp [bytesOf]

theorem bytesOf_blockOf {bytes : List UInt8} (hLen : bytes.length = 16) :
    bytesOf (blockOf bytes) = bytes := by
  refine List.ext_getElem ((length_bytesOf _).trans hLen.symm) ?_
  intro i _ hi
  simp [bytesOf, blockOf, hi]

theorem bytesOf_injective {b b' : Block} (h : bytesOf b = bytesOf b') : b = b' := by
  have hInj : Function.Injective UInt8.ofBitVec := fun x y hEq => congrArg UInt8.toBitVec hEq
  exact Vector.toList_inj.mp (hInj.list_map h)

/-- The block that a thread of `encrypt_decrypt_counter` adds to the frame. -/
def encryptCounter (expkey : ExpKey) (ctr : BitVec 128) : Block :=
  encryptOneAESBlock (blockOf (beBytes 16 ctr.toNat)) expkey

theorem encryptCounter_injective (expkey : ExpKey) : Function.Injective (encryptCounter expkey) := by
  intro x y h
  have hPlain := congrArg (decryptOneAESBlock · expkey) h
  simp only [encryptCounter, decrypt_encryptOneAESBlock] at hPlain
  have hBytes := congrArg bytesOf hPlain
  rw [bytesOf_blockOf (length_beBytes ..), bytesOf_blockOf (length_beBytes ..)] at hBytes
  exact counterAes_injective [] hBytes

/-- The stream of these blocks, with the schedule written to `buffer`. -/
def gpuAes (buffer : ExpKey) (key : List UInt8) : BlockStream 128 16 where
  block ctr := bytesOf (encryptCounter (expandKey (blockOf key) buffer) ctr)
  length_block _ := length_bytesOf _

theorem gpuAes_injective (buffer : ExpKey) (key : List UInt8) :
    Function.Injective (gpuAes buffer key).block := by
  intro x y h
  simp only [gpuAes] at h
  exact encryptCounter_injective _ (bytesOf_injective h)

end Lacuna.Display
