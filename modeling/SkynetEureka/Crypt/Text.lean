import SkynetEureka.Crypt.Des

/-!
# `desencode` and `desdecode` (lua-crypt.c)

A key and a text are the bytes of a Lua string. The loops count with an `int`.
-/

namespace SkynetEureka.Crypt

/-- What ends a call without a value: an overflow of an `int` or an access outside a buffer is a
fault, and `luaL_error` raises. -/
inductive Stop where
  | fault
  | error (message : String)
  deriving DecidableEq

/-- `(int)` of a size -/
def toInt (n : ℕ) : ℤ := (n : ℤ).bmod (2 ^ 32)

/-- `des_key` -/
def desKey (key : List UInt8) : Except Stop (List (Word × Word)) :=
  let keysz := toInt key.length
  if key.length ≠ 8 then .error (.error s!"Invalid key size {keysz}, need 8 bytes")
  else .ok (desMainKs key)

/-- `for (i=0; i<bound; i+=8) des_crypt(SK, text+i, buffer+i);`

The list is what is left of the text at `i`; the result is what is written at `buffer+i` and
following. -/
def cryptLoop (sks : List (Word × Word)) (bound : ℤ) : ℕ → List UInt8 → Except Stop (List UInt8)
  | i, b₀ :: b₁ :: b₂ :: b₃ :: b₄ :: b₅ :: b₆ :: b₇ :: text =>
    if (i : ℤ) < bound then
      -- `i+=8` overflows
      if 2 ^ 31 ≤ i + 8 then .error .fault
      else do
        let written ← cryptLoop sks bound (i + 8) text
        .ok (desCrypt sks [b₀, b₁, b₂, b₃, b₄, b₅, b₆, b₇] ++ written)
    else .ok []
  | i, _ => if (i : ℤ) < bound then .error .fault else .ok []

/-- `tail[j]`, with `bytes` bytes of the text left at `i` -/
def tailByte (text : List UInt8) (i : ℕ) (bytes : ℤ) (j : ℕ) : Except Stop UInt8 :=
  if j < bytes then
    match text[i + j]? with
    | some b => .ok b
    | none => .error .fault
  else if j = bytes then .ok 0x80
  else .ok 0

/-- `for (i=textsz-1; i>=textsz-8; i--)` of `ldesdecode`, with `low` for `textsz-8` and `i + 1`
as the first number -/
def scan (buffer : List UInt8) (low : ℕ) : (next padding : ℕ) → Except Stop ℕ
  -- `-1` as a `size_t` is no less than `low`, and `buffer[-1]` is read
  | 0, _ => .error .fault
  | i + 1, padding =>
    if low ≤ i then
      match buffer[i]? with
      | none => .error .fault
      | some b =>
        if b = 0 then scan buffer low i (padding + 1)
        else if b = 0x80 then .ok padding
        else .error (.error "Invalid des crypt text")
    else .ok padding

/-- `ldesdecode` -/
def ldesdecode (key text : List UInt8) : Except Stop (List UInt8) := do
  let esks ← desKey key
  let sks := esks.reverse
  let textsz := text.length
  let shown := toInt textsz
  if textsz % 8 ≠ 0 ∨ textsz = 0 then
    .error (.error s!"Invalid des crypt text length {shown}")
  let buffer ← cryptLoop sks textsz 0 text
  let padding ← scan buffer (textsz - 8) textsz 1
  if 8 < padding then .error (.error "Invalid des crypt text")
  .ok (buffer.take (textsz - padding))

end SkynetEureka.Crypt
