import SkynetEureka.NetPack.NetpackextTheorems

/-!
# The session of a client

`setbuffer_session` writes a socket id into the low half of the session of a head. It masks the id
with 0xFF before it shifts, so that three of the four bytes are 0.
-/

namespace SkynetEureka.NetPack

open Lib

/-- `protocolhead`; `length`, `checksum`, `serial` and `cmd` are signed. -/
structure Protocolhead where
  head : UInt8
  version : UInt8
  length : ℤ
  checksum : ℤ
  serial : ℤ
  cmd : ℤ
  session : ℕ
deriving DecidableEq

def byteAt (buffer : List UInt8) (i : ℕ) : ℕ := (buffer.getD i 0).toNat

/-- The session of a head, a `uint64_t` -/
def headSession (buffer : List UInt8) : ℕ :=
  byteAt buffer 14 <<< 56 ||| byteAt buffer 15 <<< 48 ||| byteAt buffer 16 <<< 40 |||
    byteAt buffer 17 <<< 32 ||| byteAt buffer 18 <<< 24 ||| byteAt buffer 19 <<< 16 |||
      byteAt buffer 20 <<< 8 ||| byteAt buffer 21

/-- `toprotocolhead` -/
def toprotocolhead (buffer : List UInt8) : Protocolhead where
  head := buffer.getD 0 0
  version := buffer.getD 1 0
  length := headLength buffer
  checksum := Int.bmod (byteAt buffer 6 <<< 8 ||| byteAt buffer 7 : ℕ) (2 ^ 16)
  serial := intOfBytes ((buffer.drop 8).take 4).reverse
  cmd := Int.bmod (byteAt buffer 12 <<< 8 ||| byteAt buffer 13 : ℕ) (2 ^ 16)
  session := headSession buffer

/-! ## The bytes of the session -/

variable {buffer : List UInt8} {fd : ℕ}

theorem byteAt_lt (buffer : List UInt8) (i : ℕ) : byteAt buffer i < 2 ^ 8 :=
  (buffer.getD i 0).toNat_lt

theorem shiftLeft_or {a b i : ℕ} (hb : b < 2 ^ i) : a <<< i ||| b = 2 ^ i * a + b := by
  rw [← Nat.shiftLeft_add_eq_or_of_lt hb, Nat.shiftLeft_eq, Nat.mul_comm]

/-- The session as a sum of its bytes -/
theorem headSession_eq (buffer : List UInt8) :
    headSession buffer =
      2 ^ 32 * (2 ^ 24 * byteAt buffer 14 + (2 ^ 16 * byteAt buffer 15 +
        (2 ^ 8 * byteAt buffer 16 + byteAt buffer 17))) +
      (2 ^ 24 * byteAt buffer 18 + (2 ^ 16 * byteAt buffer 19 +
        (2 ^ 8 * byteAt buffer 20 + byteAt buffer 21))) := by
  have h15 := byteAt_lt buffer 15
  have h16 := byteAt_lt buffer 16
  have h17 := byteAt_lt buffer 17
  have h18 := byteAt_lt buffer 18
  have h19 := byteAt_lt buffer 19
  have h20 := byteAt_lt buffer 20
  have h21 := byteAt_lt buffer 21
  unfold headSession
  simp only [Nat.or_assoc]
  -- from the last byte on, each one is shifted over those behind it
  rw [shiftLeft_or h21, shiftLeft_or (by omega : _ < 2 ^ 16), shiftLeft_or (by omega : _ < 2 ^ 24),
    shiftLeft_or (by omega : _ < 2 ^ 32), shiftLeft_or (by omega : _ < 2 ^ 40),
    shiftLeft_or (by omega : _ < 2 ^ 48), shiftLeft_or (by omega : _ < 2 ^ 56)]
  omega

theorem getElem?_setbufferSession (buffer : List UInt8) (fd : ℕ) {i : ℕ}
    (hi : ¬(18 ≤ i ∧ i < 22)) : (setbufferSession buffer fd)[i]? = buffer[i]? := by
  unfold setbufferSession
  rw [List.getElem?_set_ne (by omega), List.getElem?_set_ne (by omega),
    List.getElem?_set_ne (by omega), List.getElem?_set_ne (by omega)]

/-- All other bytes stay as they are. -/
theorem byteAt_setbufferSession (buffer : List UInt8) (fd : ℕ) {i : ℕ}
    (hi : ¬(18 ≤ i ∧ i < 22)) : byteAt (setbufferSession buffer fd) i = byteAt buffer i := by
  unfold byteAt
  rw [List.getD_eq_getElem?_getD, List.getD_eq_getElem?_getD, getElem?_setbufferSession buffer fd hi]

/-- The last byte of the id is written behind three zeros. -/
theorem session_setbufferSession (hbuffer : headSize ≤ buffer.length) (fd : ℕ) :
    byteAt (setbufferSession buffer fd) 18 = 0 ∧ byteAt (setbufferSession buffer fd) 19 = 0 ∧
      byteAt (setbufferSession buffer fd) 20 = 0 ∧
        byteAt (setbufferSession buffer fd) 21 = fd % 256 := by
  have hlength : 22 ≤ buffer.length := hbuffer
  have hmask : fd &&& 0xFF = fd % 256 := Nat.and_two_pow_sub_one_eq_mod fd 8
  have hlt : fd % 256 < 256 := Nat.mod_lt _ (by decide)
  have hzero : ∀ k ≥ 8, (fd % 256) >>> k = 0 := by
    intro k hk
    rw [Nat.shiftRight_eq_div_pow]
    have hpow : 2 ^ 8 ≤ 2 ^ k := Nat.pow_le_pow_right (by decide) hk
    exact Nat.div_eq_of_lt (hlt.trans_le hpow)
  unfold byteAt setbufferSession
  rw [hmask, hzero 24 (by decide), hzero 16 (by decide), hzero 8 (by decide)]
  have h18 : 18 < buffer.length := by omega
  have h19 : 19 < buffer.length := by omega
  have h20 : 20 < buffer.length := by omega
  have h21 : 21 < buffer.length := by omega
  simp [List.getD_eq_getElem?_getD, h18, h19, h20, h21]

/-- The session after `setbuffer_session`: of the id only its last byte is there. -/
theorem headSession_setbufferSession (hbuffer : headSize ≤ buffer.length) (fd : ℕ) :
    headSession (setbufferSession buffer fd) =
      2 ^ 32 * (headSession buffer / 2 ^ 32) + fd % 256 := by
  obtain ⟨h18, h19, h20, h21⟩ := session_setbufferSession hbuffer fd
  have h18' := byteAt_lt buffer 18
  have h19' := byteAt_lt buffer 19
  have h20' := byteAt_lt buffer 20
  have h21' := byteAt_lt buffer 21
  rw [headSession_eq, headSession_eq, h18, h19, h20, h21,
    byteAt_setbufferSession buffer fd (by decide), byteAt_setbufferSession buffer fd (by decide),
    byteAt_setbufferSession buffer fd (by decide), byteAt_setbufferSession buffer fd (by decide)]
  omega

/-! ## Clients -/

/-- The head carries the id of its client, and is as it was in all else. -/
structure KeepsSession (buffer : List UInt8) (fd : ℕ) : Prop where
  low : (toprotocolhead (setbufferSession buffer fd)).session % 2 ^ 32 = fd
  high : (toprotocolhead (setbufferSession buffer fd)).session / 2 ^ 32 =
    (toprotocolhead buffer).session / 2 ^ 32
  rest : ∀ i, ¬(18 ≤ i ∧ i < 22) → (setbufferSession buffer fd)[i]? = buffer[i]?

theorem keepsSession_iff (hbuffer : headSize ≤ buffer.length) :
    KeepsSession buffer fd ↔ fd < 256 := by
  have hsession := headSession_setbufferSession hbuffer fd
  constructor
  · intro h
    have hlow : headSession (setbufferSession buffer fd) % 2 ^ 32 = fd := h.low
    omega
  · intro hfd
    refine ⟨?_, ?_, fun i hi => getElem?_setbufferSession buffer fd hi⟩
    · show headSession (setbufferSession buffer fd) % 2 ^ 32 = fd
      omega
    · show headSession (setbufferSession buffer fd) / 2 ^ 32 = headSession buffer / 2 ^ 32
      omega

/-- **Each client keeps its own session** exactly as long as the ids fit into one byte. -/
theorem sessions_distinct_iff {buffer₁ buffer₂ : List UInt8} {fd₁ fd₂ : ℕ}
    (hbuffer₁ : headSize ≤ buffer₁.length) (hbuffer₂ : headSize ≤ buffer₂.length)
    (hne : fd₁ ≠ fd₂) :
    (KeepsSession buffer₁ fd₁ ∧ KeepsSession buffer₂ fd₂ ∧
      (toprotocolhead (setbufferSession buffer₁ fd₁)).session % 2 ^ 32 ≠
        (toprotocolhead (setbufferSession buffer₂ fd₂)).session % 2 ^ 32) ↔
    fd₁ < 256 ∧ fd₂ < 256 := by
  rw [keepsSession_iff hbuffer₁, keepsSession_iff hbuffer₂]
  constructor
  · intro h
    exact ⟨h.1, h.2.1⟩
  · intro h
    refine ⟨h.1, h.2, ?_⟩
    rw [((keepsSession_iff hbuffer₁).mpr h.1).low, ((keepsSession_iff hbuffer₂).mpr h.2).low]
    exact hne

/-- The sessions of the clients 7 and 255 -/
theorem sessions_distinct_small :
    (KeepsSession (List.replicate 22 1) 7 ∧ KeepsSession (List.replicate 22 9) 255 ∧
      (toprotocolhead (setbufferSession (List.replicate 22 1) 7)).session % 2 ^ 32 ≠
        (toprotocolhead (setbufferSession (List.replicate 22 9) 255)).session % 2 ^ 32) ↔
    7 < 256 ∧ 255 < 256 :=
  sessions_distinct_iff (by decide) (by decide) (by decide)

/-- The clients 1 and 257 have one session. -/
theorem sessions_mixed :
    ¬KeepsSession (List.replicate 22 0) 257 ∧
      (toprotocolhead (setbufferSession (List.replicate 22 0) 1)).session =
        (toprotocolhead (setbufferSession (List.replicate 22 0) 257)).session := by
  refine ⟨fun h => ?_, by decide⟩
  have hlow := h.low
  revert hlow
  decide

end SkynetEureka.NetPack
