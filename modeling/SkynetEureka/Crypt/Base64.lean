import SkynetEureka.Lib.Bytes
import SkynetEureka.Crypt.Text

/-!
# Base64 (lua-crypt.c)

Three bytes are four characters. The decoder fills a group of four with the characters that are in
its table, and skips the others; `=` is in the table as -2.
-/

namespace SkynetEureka.Crypt

open Lib

/-- What ends a call without a value: an `int` that overflows, an access outside a buffer, or
`luaL_error`. -/
inductive Halt where
  | overflow
  | read
  | write
  | error (message : String)
  deriving DecidableEq

/-- The size of the buffer for what may be so long: `tmp`, or a userdata. -/
def bufferSize (n : ℤ) : ℕ := if n > 256 then n.toNat else 256

/-! ## Encoding -/

/-- `encoding`, the characters of "A..Za..z0..9+/" -/
def encoding : List UInt8 :=
  [65, 66, 67, 68, 69, 70, 71, 72, 73, 74, 75, 76, 77, 78, 79, 80, 81, 82, 83, 84, 85, 86, 87, 88, 89,
    90, 97, 98, 99, 100, 101, 102, 103, 104, 105, 106, 107, 108, 109, 110, 111, 112, 113, 114, 115,
    116, 117, 118, 119, 120, 121, 122, 48, 49, 50, 51, 52, 53, 54, 55, 56, 57, 43, 47]

/-- `encoding[n]` -/
def encodingChar (n : ℕ) : UInt8 := encoding.getD n 0

/-- The body of the loop of `lb64encode` -/
def encodeThree (a b c : UInt8) : List UInt8 :=
  let v := a.toNat <<< 16 ||| b.toNat <<< 8 ||| c.toNat
  [encodingChar (v >>> 18), encodingChar ((v >>> 12) &&& 0x3f), encodingChar ((v >>> 6) &&& 0x3f),
    encodingChar (v &&& 0x3f)]

/-- The loop of `lb64encode`, with the text that is left at `i` -/
def encodeLoop (size : ℕ) (bound : ℤ) : (i j : ℕ) → List UInt8 → Except Halt (List UInt8)
  | i, j, a :: b :: c :: text =>
    if (i : ℤ) < bound then
      if size < j + 4 then .error .write
      else do
        let buffer ← encodeLoop size bound (i + 3) (j + 4) text
        .ok (encodeThree a b c ++ buffer)
    else .ok []
  | i, _, _ => if (i : ℤ) < bound then .error .read else .ok []

/-- `switch(padding)` -/
def encodeTail (padding : ℤ) (text : List UInt8) : Except Halt (List UInt8) :=
  if padding = 1 then
    match text with
    | a :: _ =>
      let v := a.toNat
      .ok [encodingChar (v >>> 2), encodingChar ((v &&& 3) <<< 4), 61, 61]
    | _ => .error .read
  else if padding = 2 then
    match text with
    | a :: b :: _ =>
      let v := a.toNat <<< 8 ||| b.toNat
      .ok [encodingChar (v >>> 10), encodingChar ((v >>> 4) &&& 0x3f),
        encodingChar ((v &&& 0xf) <<< 2), 61]
    | _ => .error .read
  else .ok []

/-- `lb64encode`; `fresh` is what the buffer holds before. -/
def lb64encode (fresh : ℕ → UInt8) (text : List UInt8) : Except Halt (List UInt8) := do
  let encodeSz := toInt ((text.length + 2) / 3 * 4)
  let size := bufferSize encodeSz
  -- `(int)sz-2`
  if toInt text.length - 2 < -2 ^ 31 then .error .overflow
  let written ← encodeLoop size (toInt text.length - 2) 0 0 text
  let i := written.length / 4 * 3
  let tail ← encodeTail (toInt (text.length - i)) (text.drop i)
  if size < written.length + tail.length then .error .write
  -- a negative size is no size
  if encodeSz < 0 then .error .read
  let written := written ++ tail
  .ok (written.take encodeSz.toNat ++
    (List.range' written.length (encodeSz.toNat - written.length)).map fresh)

/-! ## Decoding -/

/-- `decoding`, from the character 43 on -/
def decoding : List ℤ :=
  [62, -1, -1, -1, 63, 52, 53, 54, 55, 56, 57, 58, 59, 60, 61, -1, -1, -1, -2, -1, -1, -1, 0, 1, 2, 3,
    4, 5, 6, 7, 8, 9, 10, 11, 12, 13, 14, 15, 16, 17, 18, 19, 20, 21, 22, 23, 24, 25, -1, -1, -1, -1,
    -1, -1, 26, 27, 28, 29, 30, 31, 32, 33, 34, 35, 36, 37, 38, 39, 40, 41, 42, 43, 44, 45, 46, 47,
    48, 49, 50, 51]

/-- `b64index` -/
def b64index (c : UInt8) : ℤ :=
  if c < 43 then -1
  else
    let c := c - 43
    if decoding.length ≤ c.toNat then -1 else decoding.getD c.toNat (-1)

/-- `switch (padding)`: the bytes of a group; `none` for "Invalid base64 text" -/
def decodeGroup (c₀ c₁ c₂ c₃ : ℤ) : Option (List UInt8) :=
  match [c₀, c₁, c₂, c₃].count (-2) with
  | 0 =>
    let v := c₀.toNat <<< 18 ||| c₁.toNat <<< 12 ||| c₂.toNat <<< 6 ||| c₃.toNat
    some [UInt8.ofNat (v >>> 16), UInt8.ofNat ((v >>> 8) &&& 0xff), UInt8.ofNat (v &&& 0xff)]
  | 1 =>
    if c₃ ≠ -2 ∨ c₂.toNat &&& 3 ≠ 0 then none
    else
      let v := c₀.toNat <<< 10 ||| c₁.toNat <<< 4 ||| c₂.toNat >>> 2
      some [UInt8.ofNat (v >>> 8), UInt8.ofNat (v &&& 0xff)]
  | 2 =>
    if c₃ ≠ -2 ∨ c₂ ≠ -2 ∨ c₁.toNat &&& 0xf ≠ 0 then none
    else
      let v := c₀.toNat <<< 2 ||| c₁.toNat >>> 4
      some [UInt8.ofNat v]
  | _ => none

/-- The error of `lb64decode` -/
def invalidBase64 : Halt := .error "Invalid base64 text"

/-- The loops of `lb64decode`, with the text that is left at `i`: `none` is where the outer loop
compares `i` with `sz`, and `some c` is in the inner loop, with the `c` that there are so far. -/
def decodeLoop (size : ℕ) :
    (i output : ℕ) → Option (List ℤ) → List UInt8 → Except Halt (List UInt8)
  | _, _, none, [] => .ok []
  | _, _, some _, [] => .error invalidBase64
  | i, output, c, x :: text =>
    let c := c.getD []
    -- `++i`
    if 2 ^ 31 ≤ i + 1 then .error .overflow
    else if b64index x = -1 then decodeLoop size (i + 1) output (some c) text
    else
      match c ++ [b64index x] with
      | [c₀, c₁, c₂, c₃] =>
        match decodeGroup c₀ c₁ c₂ c₃ with
        | none => .error invalidBase64
        | some bytes =>
          if size < output + bytes.length then .error .write
          else do
            let buffer ← decodeLoop size (i + 1) (output + bytes.length) none text
            .ok (bytes ++ buffer)
      | c => decodeLoop size (i + 1) output (some c) text

/-- `decode_sz` -/
def decodeSz (sz : ℕ) : ℤ := toInt ((sz + 3) / 4 * 3)

/-- `lb64decode` -/
def lb64decode (text : List UInt8) : Except Halt (List UInt8) :=
  decodeLoop (bufferSize (decodeSz text.length)) 0 0 none text

example : lb64decode [81, 81, 61, 61, 10] = .error invalidBase64 := by decide

end SkynetEureka.Crypt
