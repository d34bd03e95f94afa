import SkynetEureka.Lib.Feistel
import Mathlib

/-!
# DES (lua-crypt.c)

The tables, the key schedule and the 64-bit block. A block is a list of eight bytes.
-/

namespace SkynetEureka.Crypt

/-- `uint32_t` -/
abbrev Word := BitVec 32

/-! ## Tables -/

/-- `SB1` -/
def sb1 : List Word := [
  0x01010400, 0x00000000, 0x00010000, 0x01010404, 0x01010004, 0x00010404, 0x00000004, 0x00010000,
  0x00000400, 0x01010400, 0x01010404, 0x00000400, 0x01000404, 0x01010004, 0x01000000, 0x00000004,
  0x00000404, 0x01000400, 0x01000400, 0x00010400, 0x00010400, 0x01010000, 0x01010000, 0x01000404,
  0x00010004, 0x01000004, 0x01000004, 0x00010004, 0x00000000, 0x00000404, 0x00010404, 0x01000000,
  0x00010000, 0x01010404, 0x00000004, 0x01010000, 0x01010400, 0x01000000, 0x01000000, 0x00000400,
  0x01010004, 0x00010000, 0x00010400, 0x01000004, 0x00000400, 0x00000004, 0x01000404, 0x00010404,
  0x01010404, 0x00010004, 0x01010000, 0x01000404, 0x01000004, 0x00000404, 0x00010404, 0x01010400,
  0x00000404, 0x01000400, 0x01000400, 0x00000000, 0x00010004, 0x00010400, 0x00000000, 0x01010004]

/-- `SB2` -/
def sb2 : List Word := [
  0x80108020, 0x80008000, 0x00008000, 0x00108020, 0x00100000, 0x00000020, 0x80100020, 0x80008020,
  0x80000020, 0x80108020, 0x80108000, 0x80000000, 0x80008000, 0x00100000, 0x00000020, 0x80100020,
  0x00108000, 0x00100020, 0x80008020, 0x00000000, 0x80000000, 0x00008000, 0x00108020, 0x80100000,
  0x00100020, 0x80000020, 0x00000000, 0x00108000, 0x00008020, 0x80108000, 0x80100000, 0x00008020,
  0x00000000, 0x00108020, 0x80100020, 0x00100000, 0x80008020, 0x80100000, 0x80108000, 0x00008000,
  0x80100000, 0x80008000, 0x00000020, 0x80108020, 0x00108020, 0x00000020, 0x00008000, 0x80000000,
  0x00008020, 0x80108000, 0x00100000, 0x80000020, 0x00100020, 0x80008020, 0x80000020, 0x00100020,
  0x00108000, 0x00000000, 0x80008000, 0x00008020, 0x80000000, 0x80100020, 0x80108020, 0x00108000]

/-- `SB3` -/
def sb3 : List Word := [
  0x00000208, 0x08020200, 0x00000000, 0x08020008, 0x08000200, 0x00000000, 0x00020208, 0x08000200,
  0x00020008, 0x08000008, 0x08000008, 0x00020000, 0x08020208, 0x00020008, 0x08020000, 0x00000208,
  0x08000000, 0x00000008, 0x08020200, 0x00000200, 0x00020200, 0x08020000, 0x08020008, 0x00020208,
  0x08000208, 0x00020200, 0x00020000, 0x08000208, 0x00000008, 0x08020208, 0x00000200, 0x08000000,
  0x08020200, 0x08000000, 0x00020008, 0x00000208, 0x00020000, 0x08020200, 0x08000200, 0x00000000,
  0x00000200, 0x00020008, 0x08020208, 0x08000200, 0x08000008, 0x00000200, 0x00000000, 0x08020008,
  0x08000208, 0x00020000, 0x08000000, 0x08020208, 0x00000008, 0x00020208, 0x00020200, 0x08000008,
  0x08020000, 0x08000208, 0x00000208, 0x08020000, 0x00020208, 0x00000008, 0x08020008, 0x00020200]

/-- `SB4` -/
def sb4 : List Word := [
  0x00802001, 0x00002081, 0x00002081, 0x00000080, 0x00802080, 0x00800081, 0x00800001, 0x00002001,
  0x00000000, 0x00802000, 0x00802000, 0x00802081, 0x00000081, 0x00000000, 0x00800080, 0x00800001,
  0x00000001, 0x00002000, 0x00800000, 0x00802001, 0x00000080, 0x00800000, 0x00002001, 0x00002080,
  0x00800081, 0x00000001, 0x00002080, 0x00800080, 0x00002000, 0x00802080, 0x00802081, 0x00000081,
  0x00800080, 0x00800001, 0x00802000, 0x00802081, 0x00000081, 0x00000000, 0x00000000, 0x00802000,
  0x00002080, 0x00800080, 0x00800081, 0x00000001, 0x00802001, 0x00002081, 0x00002081, 0x00000080,
  0x00802081, 0x00000081, 0x00000001, 0x00002000, 0x00800001, 0x00002001, 0x00802080, 0x00800081,
  0x00002001, 0x00002080, 0x00800000, 0x00802001, 0x00000080, 0x00800000, 0x00002000, 0x00802080]

/-- `SB5` -/
def sb5 : List Word := [
  0x00000100, 0x02080100, 0x02080000, 0x42000100, 0x00080000, 0x00000100, 0x40000000, 0x02080000,
  0x40080100, 0x00080000, 0x02000100, 0x40080100, 0x42000100, 0x42080000, 0x00080100, 0x40000000,
  0x02000000, 0x40080000, 0x40080000, 0x00000000, 0x40000100, 0x42080100, 0x42080100, 0x02000100,
  0x42080000, 0x40000100, 0x00000000, 0x42000000, 0x02080100, 0x02000000, 0x42000000, 0x00080100,
  0x00080000, 0x42000100, 0x00000100, 0x02000000, 0x40000000, 0x02080000, 0x42000100, 0x40080100,
  0x02000100, 0x40000000, 0x42080000, 0x02080100, 0x40080100, 0x00000100, 0x02000000, 0x42080000,
  0x42080100, 0x00080100, 0x42000000, 0x42080100, 0x02080000, 0x00000000, 0x40080000, 0x42000000,
  0x00080100, 0x02000100, 0x40000100, 0x00080000, 0x00000000, 0x40080000, 0x02080100, 0x40000100]

/-- `SB6` -/
def sb6 : List Word := [
  0x20000010, 0x20400000, 0x00004000, 0x20404010, 0x20400000, 0x00000010, 0x20404010, 0x00400000,
  0x20004000, 0x00404010, 0x00400000, 0x20000010, 0x00400010, 0x20004000, 0x20000000, 0x00004010,
  0x00000000, 0x00400010, 0x20004010, 0x00004000, 0x00404000, 0x20004010, 0x00000010, 0x20400010,
  0x20400010, 0x00000000, 0x00404010, 0x20404000, 0x00004010, 0x00404000, 0x20404000, 0x20000000,
  0x20004000, 0x00000010, 0x20400010, 0x00404000, 0x20404010, 0x00400000, 0x00004010, 0x20000010,
  0x00400000, 0x20004000, 0x20000000, 0x00004010, 0x20000010, 0x20404010, 0x00404000, 0x20400000,
  0x00404010, 0x20404000, 0x00000000, 0x20400010, 0x00000010, 0x00004000, 0x20400000, 0x00404010,
  0x00004000, 0x00400010, 0x20004010, 0x00000000, 0x20404000, 0x20000000, 0x00400010, 0x20004010]

/-- `SB7` -/
def sb7 : List Word := [
  0x00200000, 0x04200002, 0x04000802, 0x00000000, 0x00000800, 0x04000802, 0x00200802, 0x04200800,
  0x04200802, 0x00200000, 0x00000000, 0x04000002, 0x00000002, 0x04000000, 0x04200002, 0x00000802,
  0x04000800, 0x00200802, 0x00200002, 0x04000800, 0x04000002, 0x04200000, 0x04200800, 0x00200002,
  0x04200000, 0x00000800, 0x00000802, 0x04200802, 0x00200800, 0x00000002, 0x04000000, 0x00200800,
  0x04000000, 0x00200800, 0x00200000, 0x04000802, 0x04000802, 0x04200002, 0x04200002, 0x00000002,
  0x00200002, 0x04000000, 0x04000800, 0x00200000, 0x04200800, 0x00000802, 0x00200802, 0x04200800,
  0x00000802, 0x04000002, 0x04200802, 0x04200000, 0x00200800, 0x00000000, 0x00000002, 0x04200802,
  0x00000000, 0x00200802, 0x04200000, 0x00000800, 0x04000002, 0x04000800, 0x00000800, 0x00200002]

/-- `SB8` -/
def sb8 : List Word := [
  0x10001040, 0x00001000, 0x00040000, 0x10041040, 0x10000000, 0x10001040, 0x00000040, 0x10000000,
  0x00040040, 0x10040000, 0x10041040, 0x00041000, 0x10041000, 0x00041040, 0x00001000, 0x00000040,
  0x10040000, 0x10000040, 0x10001000, 0x00001040, 0x00041000, 0x00040040, 0x10040040, 0x10041000,
  0x00001040, 0x00000000, 0x00000000, 0x10040040, 0x10000040, 0x10001000, 0x00041040, 0x00040000,
  0x00041040, 0x00040000, 0x10041000, 0x00001000, 0x00000040, 0x10040040, 0x00001000, 0x00041040,
  0x10001000, 0x00000040, 0x10000040, 0x10040000, 0x10040040, 0x10000000, 0x00040000, 0x10001040,
  0x00000000, 0x10041040, 0x00040040, 0x10000040, 0x10040000, 0x10001000, 0x10001040, 0x00000000,
  0x10041040, 0x00041000, 0x00041000, 0x00001040, 0x00001040, 0x00040040, 0x10000000, 0x10041000]

/-- `LHs` -/
def lhs : List Word := [
  0x00000000, 0x00000001, 0x00000100, 0x00000101, 0x00010000, 0x00010001, 0x00010100, 0x00010101,
  0x01000000, 0x01000001, 0x01000100, 0x01000101, 0x01010000, 0x01010001, 0x01010100, 0x01010101]

/-- `RHs` -/
def rhs : List Word := [
  0x00000000, 0x01000000, 0x00010000, 0x01010000, 0x00000100, 0x01000100, 0x00010100, 0x01010100,
  0x00000001, 0x01000001, 0x00010001, 0x01010001, 0x00000101, 0x01000101, 0x00010101, 0x01010101]

/-- An entry of a table; the index is masked by the caller. -/
def entry (table : List Word) (i : Word) : Word := table.getD i.toNat 0

/-! ## The block -/

/-- `GET_UINT32` -/
def getUint32 (b₀ b₁ b₂ b₃ : UInt8) : Word :=
  b₀.toBitVec.setWidth 32 <<< 24 ||| b₁.toBitVec.setWidth 32 <<< 16 |||
    b₂.toBitVec.setWidth 32 <<< 8 ||| b₃.toBitVec.setWidth 32

/-- `PUT_UINT32` -/
def putUint32 (n : Word) : List UInt8 :=
  [⟨(n >>> 24).setWidth 8⟩, ⟨(n >>> 16).setWidth 8⟩, ⟨(n >>> 8).setWidth 8⟩, ⟨n.setWidth 8⟩]

/-- `T = ((X >> k) ^ Y) & m; Y ^= T; X ^= (T << k)` -/
def exchange (k : ℕ) (m x y : Word) : Word × Word :=
  let t := (x >>> k ^^^ y) &&& m
  (x ^^^ t <<< k, y ^^^ t)

/-- `DES_IP` -/
def desIp (x y : Word) : Word × Word :=
  let (x, y) := exchange 4 0x0F0F0F0F x y
  let (x, y) := exchange 16 0x0000FFFF x y
  let (y, x) := exchange 2 0x33333333 y x
  let (y, x) := exchange 8 0x00FF00FF y x
  let y := y <<< 1 ||| y >>> 31
  let (x, y) := exchange 0 0xAAAAAAAA x y
  let x := x <<< 1 ||| x >>> 31
  (x, y)

/-- `DES_FP` -/
def desFp (x y : Word) : Word × Word :=
  let x := x <<< 31 ||| x >>> 1
  let (x, y) := exchange 0 0xAAAAAAAA x y
  let y := y <<< 31 ||| y >>> 1
  let (y, x) := exchange 8 0x00FF00FF y x
  let (y, x) := exchange 2 0x33333333 y x
  let (x, y) := exchange 16 0x0000FFFF x y
  let (x, y) := exchange 4 0x0F0F0F0F x y
  (x, y)

/-- What `DES_ROUND` mixes into `Y`, with the two subkeys that it takes -/
def desMix (sk : Word × Word) (x : Word) : Word :=
  let t := sk.1 ^^^ x
  let y := entry sb8 (t &&& 0x3F) ^^^ entry sb6 (t >>> 8 &&& 0x3F) ^^^
    entry sb4 (t >>> 16 &&& 0x3F) ^^^ entry sb2 (t >>> 24 &&& 0x3F)
  let t := sk.2 ^^^ (x <<< 28 ||| x >>> 4)
  y ^^^ (entry sb7 (t &&& 0x3F) ^^^ entry sb5 (t >>> 8 &&& 0x3F) ^^^
    entry sb3 (t >>> 16 &&& 0x3F) ^^^ entry sb1 (t >>> 24 &&& 0x3F))

/-- `DES_ROUND` -/
def desRound (sk : Word × Word) (x y : Word) : Word := y ^^^ desMix sk x

/-- The rounds of `des_crypt`, two at a time -/
def desRounds : List (Word × Word) → Word → Word → Word × Word
  | sk₁ :: sk₂ :: sks, x, y =>
    let x := desRound sk₁ y x
    let y := desRound sk₂ x y
    desRounds sks x y
  | _, x, y => (x, y)

/-- `des_crypt` -/
def desCrypt (sks : List (Word × Word)) : List UInt8 → List UInt8
  | [b₀, b₁, b₂, b₃, b₄, b₅, b₆, b₇] =>
    let (x, y) := desIp (getUint32 b₀ b₁ b₂ b₃) (getUint32 b₄ b₅ b₆ b₇)
    let (x, y) := desRounds sks x y
    let (y, x) := desFp y x
    putUint32 y ++ putUint32 x
  | _ => []

/-! ## The key -/

/-- Bits of `X` or `Y`, shifted to the left or to the right -/
def bitsLeft (x : Word) (k : ℕ) (m : Word) : Word := x <<< k &&& m

def bitsRight (x : Word) (k : ℕ) (m : Word) : Word := x >>> k &&& m

/-- The two subkeys of a round of `des_main_ks` -/
def subkeys (x y : Word) : Word × Word :=
  (bitsLeft x 4 0x24000000 ||| bitsLeft x 28 0x10000000 |||
    bitsLeft x 14 0x08000000 ||| bitsLeft x 18 0x02080000 |||
    bitsLeft x 6 0x01000000 ||| bitsLeft x 9 0x00200000 |||
    bitsRight x 1 0x00100000 ||| bitsLeft x 10 0x00040000 |||
    bitsLeft x 2 0x00020000 ||| bitsRight x 10 0x00010000 |||
    bitsRight y 13 0x00002000 ||| bitsRight y 4 0x00001000 |||
    bitsLeft y 6 0x00000800 ||| bitsRight y 1 0x00000400 |||
    bitsRight y 14 0x00000200 ||| bitsRight y 0 0x00000100 |||
    bitsRight y 5 0x00000020 ||| bitsRight y 10 0x00000010 |||
    bitsRight y 3 0x00000008 ||| bitsRight y 18 0x00000004 |||
    bitsRight y 26 0x00000002 ||| bitsRight y 24 0x00000001,
   bitsLeft x 15 0x20000000 ||| bitsLeft x 17 0x10000000 |||
    bitsLeft x 10 0x08000000 ||| bitsLeft x 22 0x04000000 |||
    bitsRight x 2 0x02000000 ||| bitsLeft x 1 0x01000000 |||
    bitsLeft x 16 0x00200000 ||| bitsLeft x 11 0x00100000 |||
    bitsLeft x 3 0x00080000 ||| bitsRight x 6 0x00040000 |||
    bitsLeft x 15 0x00020000 ||| bitsRight x 4 0x00010000 |||
    bitsRight y 2 0x00002000 ||| bitsLeft y 8 0x00001000 |||
    bitsRight y 14 0x00000808 ||| bitsRight y 9 0x00000400 |||
    bitsRight y 0 0x00000200 ||| bitsLeft y 7 0x00000100 |||
    bitsRight y 7 0x00000020 ||| bitsRight y 3 0x00000011 |||
    bitsLeft y 2 0x00000004 ||| bitsRight y 21 0x00000002)

/-- A half of the key, rotated by `k` bits of 28 -/
def rotateKey (k : ℕ) (x : Word) : Word := (x <<< k ||| x >>> (28 - k)) &&& 0x0FFFFFFF

/-- Rounds `i` and following of `des_main_ks`; there are `n` -/
def keyRounds : (n i : ℕ) → (x y : Word) → List (Word × Word)
  | 0, _, _, _ => []
  | n + 1, i, x, y =>
    let k := if i < 2 ∨ i = 8 ∨ i = 15 then 1 else 2
    let x := rotateKey k x
    let y := rotateKey k y
    subkeys x y :: keyRounds n (i + 1) x y

/-- `des_main_ks`: the pairs of subkeys -/
def desMainKs : List UInt8 → List (Word × Word)
  | [b₀, b₁, b₂, b₃, b₄, b₅, b₆, b₇] =>
    let x := getUint32 b₀ b₁ b₂ b₃
    let y := getUint32 b₄ b₅ b₆ b₇
    -- Permuted Choice 1
    let t := (y >>> 4 ^^^ x) &&& 0x0F0F0F0F
    let (x, y) := (x ^^^ t, y ^^^ t <<< 4)
    let t := (y ^^^ x) &&& 0x10101010
    let (x, y) := (x ^^^ t, y ^^^ t)
    let x := entry lhs (x &&& 0xF) <<< 3 ||| entry lhs (x >>> 8 &&& 0xF) <<< 2 |||
      entry lhs (x >>> 16 &&& 0xF) <<< 1 ||| entry lhs (x >>> 24 &&& 0xF) |||
      entry lhs (x >>> 5 &&& 0xF) <<< 7 ||| entry lhs (x >>> 13 &&& 0xF) <<< 6 |||
      entry lhs (x >>> 21 &&& 0xF) <<< 5 ||| entry lhs (x >>> 29 &&& 0xF) <<< 4
    let y := entry rhs (y >>> 1 &&& 0xF) <<< 3 ||| entry rhs (y >>> 9 &&& 0xF) <<< 2 |||
      entry rhs (y >>> 17 &&& 0xF) <<< 1 ||| entry rhs (y >>> 25 &&& 0xF) |||
      entry rhs (y >>> 4 &&& 0xF) <<< 7 ||| entry rhs (y >>> 12 &&& 0xF) <<< 6 |||
      entry rhs (y >>> 20 &&& 0xF) <<< 5 ||| entry rhs (y >>> 28 &&& 0xF) <<< 4
    keyRounds 16 0 (x &&& 0x0FFFFFFF) (y &&& 0x0FFFFFFF)
  | _ => []

end SkynetEureka.Crypt
