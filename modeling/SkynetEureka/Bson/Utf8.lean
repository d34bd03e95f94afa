import Mathlib

/-!
# Strings of a document (lua-bson.c)

`write_string` copies a string one sequence of UTF-8 after another. `utf8_copy` holds the bytes in
signed chars and the numbers in unsigned ints; it looks at a byte before it compares its place with
the limit.
-/

namespace SkynetEureka.Bson

/-- What comes of a call of `utf8_copy`: the number of bytes that it has copied, or 0; then `past`
tells that it has read the byte behind the limit. -/
inductive Copy where
  | copied (n : ℕ)
  | invalid (past : Bool)
deriving DecidableEq

/-- `MAXUNICODE` -/
def maxUnicode : ℕ := 0x10FFFF

/-- What comes of `write_string`: the bytes of the document, or "Invalid utf8 string". -/
inductive Written where
  | bytes (content : List UInt8)
  | error (past : Bool)
deriving DecidableEq

/-- The sequence of a code point, in its shortest form -/
def encode (n : ℕ) : List UInt8 :=
  if n < 0x80 then [.ofNat n]
  else if n < 0x800 then [.ofNat (0xC0 + n / 64), .ofNat (0x80 + n % 64)]
  else if n < 0x10000 then
    [.ofNat (0xE0 + n / 4096), .ofNat (0x80 + n / 64 % 64), .ofNat (0x80 + n % 64)]
  else
    [.ofNat (0xF0 + n / 262144), .ofNat (0x80 + n / 4096 % 64), .ofNat (0x80 + n / 64 % 64),
      .ofNat (0x80 + n % 64)]

/-- The string is a sequence of code points. -/
def WellFormed (s : List UInt8) : Prop :=
  ∃ points : List ℕ, (∀ n ∈ points, n ≤ maxUnicode) ∧ s = points.flatMap encode

/-- How many bytes a lead byte asks for: the ones below its highest bit -/
def need (lead : UInt8) : ℕ :=
  if lead < 0xC0 then 0 else if lead < 0xE0 then 1 else if lead < 0xF0 then 2
  else if lead < 0xF8 then 3 else if lead < 0xFC then 4 else if lead < 0xFE then 5
  else if lead < 0xFF then 6 else 7

variable {lead : UInt8} {tail rest : List UInt8} {k res : ℕ}

variable {b₁ b₂ b₃ : UInt8}

theorem WellFormed.nil : WellFormed [] := ⟨[], nofun, rfl⟩

end SkynetEureka.Bson
