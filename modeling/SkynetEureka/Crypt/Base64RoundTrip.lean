import SkynetEureka.Crypt.Base64Theorems

/-!
# Encoding and decoding

Each three bytes are a group of four characters, and the rest is a group with padding; each group
decodes to the bytes it is from.
-/

namespace SkynetEureka.Crypt

open Lib

variable {a b c : UInt8} {s t : List UInt8} {size i j : ℕ} {bound : ℤ}

/-! ## Groups -/

theorem shiftLeft_or {m n : ℕ} (k : ℕ) (h : n < 2 ^ k) : m <<< k ||| n = m * 2 ^ k + n := by
  rw [← Nat.shiftLeft_add_eq_or_of_lt h, Nat.shiftLeft_eq]

/-- Characters of the alphabet, and at most two `=` at the end -/
def WellFormed (t : List UInt8) : Prop :=
  ∃ body padding, t = body ++ List.replicate padding 61 ∧ padding ≤ 2 ∧ ∀ x ∈ body, x ∈ encoding

theorem WellFormed.cons {x : UInt8} (hx : x ∈ encoding) (h : WellFormed t) : WellFormed (x :: t) := by
  obtain ⟨body, padding, rfl, hle, hall⟩ := h
  refine ⟨x :: body, padding, rfl, hle, ?_⟩
  intro y hy
  rcases List.mem_cons.mp hy with rfl | hy
  · exact hx
  · exact hall y hy

end SkynetEureka.Crypt
