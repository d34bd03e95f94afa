import SkynetEureka.Crypt.Des

/-!
# The block of DES

The permutations undo each other, and so do the rounds with the subkeys in reverse, whatever is in
the tables.
-/

namespace SkynetEureka.Crypt

open Lib

variable {x y x' y' m : Word} {k : ℕ}

/-! ## Permutations -/

/-- The bits of the mask stay in the word. -/
def Stays (k : ℕ) (m : Word) : Prop := (m <<< k) >>> k = m

instance : Decidable (Stays k m) := inferInstanceAs (Decidable (_ = _))

theorem Stays.lt (hm : Stays k m) {i : ℕ} (hi : m.getLsbD i = true) : i + k < 32 := by
  have hbit : ((m <<< k) >>> k).getLsbD i = true := by
    rw [hm, hi]
  by_contra hge
  rw [BitVec.getLsbD_ushiftRight, BitVec.getLsbD_of_ge _ _ (by omega)] at hbit
  exact Bool.false_ne_true hbit

/-- What is exchanged twice is as before. -/
theorem exchange_back (hm : Stays k m) (h : exchange k m x y = (x', y')) :
    exchange k m x' y' = (x, y) := by
  unfold exchange at h
  obtain ⟨rfl, rfl⟩ := Prod.mk.inj h
  have ht : ((x ^^^ (((x >>> k ^^^ y) &&& m) <<< k)) >>> k ^^^
      (y ^^^ ((x >>> k ^^^ y) &&& m))) &&& m = (x >>> k ^^^ y) &&& m := by
    apply BitVec.eq_of_getLsbD_eq
    intro i hi
    cases hbit : m.getLsbD i with
    | false => simp only [BitVec.getLsbD_and, hbit, Bool.and_false]
    | true =>
      have hlt := hm.lt hbit
      have hk : k + i < 32 := by omega
      have hge : ¬ k + i < k := by omega
      have hsub : k + i - k = i := by omega
      simp only [BitVec.getLsbD_and, BitVec.getLsbD_xor, BitVec.getLsbD_ushiftRight,
        BitVec.getLsbD_shiftLeft, hbit, hk, hge, hsub, decide_true, decide_false, Bool.not_false,
        Bool.and_true, Bool.true_and]
      cases x.getLsbD (k + i) <;> cases y.getLsbD i <;> rfl
  unfold exchange
  dsimp only
  rw [ht, BitVec.xor_assoc, BitVec.xor_self, BitVec.xor_zero, BitVec.xor_assoc, BitVec.xor_self,
    BitVec.xor_zero]

/-- Rotations by one bit, to the left and back -/
theorem rotate_back (x : Word) :
    (x <<< 1 ||| x >>> 31) <<< 31 ||| (x <<< 1 ||| x >>> 31) >>> 1 = x := by
  apply BitVec.eq_of_getLsbD_eq
  intro i hi
  simp only [BitVec.getLsbD_or, BitVec.getLsbD_ushiftRight, BitVec.getLsbD_shiftLeft, hi,
    decide_true, Bool.true_and]
  rcases Nat.lt_or_ge i 31 with hlt | hge
  · have hfar : x.getLsbD (31 + (1 + i)) = false := BitVec.getLsbD_of_ge _ _ (by omega)
    have hsucc : 1 + i < 32 := by omega
    have hpos : ¬ 1 + i < 1 := by omega
    have hsub : 1 + i - 1 = i := by omega
    simp only [hlt, hfar, hsucc, hpos, hsub, decide_true, decide_false, Bool.not_true,
      Bool.not_false, Bool.false_and, Bool.true_and, Bool.false_or, Bool.or_false]
  · have h31 : i = 31 := by omega
    subst h31
    simp

theorem rotate_forth (x : Word) :
    (x <<< 31 ||| x >>> 1) <<< 1 ||| (x <<< 31 ||| x >>> 1) >>> 31 = x := by
  apply BitVec.eq_of_getLsbD_eq
  intro i hi
  simp only [BitVec.getLsbD_or, BitVec.getLsbD_ushiftRight, BitVec.getLsbD_shiftLeft, hi,
    decide_true, Bool.true_and]
  rcases Nat.eq_zero_or_pos i with rfl | hpos
  · simp
  · have hfar : x.getLsbD (1 + (31 + i)) = false := BitVec.getLsbD_of_ge _ _ (by omega)
    have hnext : ¬ 31 + i < 32 := by omega
    have hlt : ¬ i < 1 := by omega
    have hsmall : i - 1 < 31 := by omega
    have hsub : 1 + (i - 1) = i := by omega
    simp only [hfar, hnext, hlt, hsmall, hsub, decide_true, decide_false, Bool.not_true,
      Bool.not_false, Bool.false_and, Bool.and_false, Bool.true_and, Bool.false_or, Bool.or_false]

/-- `DES_FP` undoes `DES_IP`. -/
theorem desFp_desIp (h : desIp x y = (x', y')) : desFp x' y' = (x, y) := by
  unfold desIp at h
  obtain ⟨x₁, y₁, h₁⟩ : ∃ a b, exchange 4 0x0F0F0F0F x y = (a, b) := ⟨_, _, rfl⟩
  rw [h₁] at h
  obtain ⟨x₂, y₂, h₂⟩ : ∃ a b, exchange 16 0x0000FFFF x₁ y₁ = (a, b) := ⟨_, _, rfl⟩
  dsimp only at h
  rw [h₂] at h
  obtain ⟨y₃, x₃, h₃⟩ : ∃ a b, exchange 2 0x33333333 y₂ x₂ = (a, b) := ⟨_, _, rfl⟩
  dsimp only at h
  rw [h₃] at h
  obtain ⟨y₄, x₄, h₄⟩ : ∃ a b, exchange 8 0x00FF00FF y₃ x₃ = (a, b) := ⟨_, _, rfl⟩
  dsimp only at h
  rw [h₄] at h
  dsimp only at h
  obtain ⟨x₅, y₅, h₅⟩ : ∃ a b, exchange 0 0xAAAAAAAA x₄ (y₄ <<< 1 ||| y₄ >>> 31) = (a, b) :=
    ⟨_, _, rfl⟩
  rw [h₅] at h
  dsimp only at h
  obtain ⟨rfl, rfl⟩ := Prod.mk.inj h
  unfold desFp
  dsimp only
  rw [rotate_back, exchange_back (by decide) h₅]
  dsimp only
  rw [rotate_back, exchange_back (by decide) h₄]
  dsimp only
  rw [exchange_back (by decide) h₃]
  dsimp only
  rw [exchange_back (by decide) h₂]
  dsimp only
  rw [exchange_back (by decide) h₁]

/-- `DES_IP` undoes `DES_FP`. -/
theorem desIp_desFp (h : desFp x y = (x', y')) : desIp x' y' = (x, y) := by
  unfold desFp at h
  obtain ⟨x₁, y₁, h₁⟩ : ∃ a b, exchange 0 0xAAAAAAAA (x <<< 31 ||| x >>> 1) y = (a, b) :=
    ⟨_, _, rfl⟩
  dsimp only at h
  rw [h₁] at h
  obtain ⟨y₂, x₂, h₂⟩ : ∃ a b, exchange 8 0x00FF00FF (y₁ <<< 31 ||| y₁ >>> 1) x₁ = (a, b) :=
    ⟨_, _, rfl⟩
  dsimp only at h
  rw [h₂] at h
  obtain ⟨y₃, x₃, h₃⟩ : ∃ a b, exchange 2 0x33333333 y₂ x₂ = (a, b) := ⟨_, _, rfl⟩
  dsimp only at h
  rw [h₃] at h
  obtain ⟨x₄, y₄, h₄⟩ : ∃ a b, exchange 16 0x0000FFFF x₃ y₃ = (a, b) := ⟨_, _, rfl⟩
  dsimp only at h
  rw [h₄] at h
  dsimp only at h
  have h₅ : exchange 4 0x0F0F0F0F x₄ y₄ = (x', y') := h
  unfold desIp
  rw [exchange_back (by decide) h₅]
  dsimp only
  rw [exchange_back (by decide) h₄]
  dsimp only
  rw [exchange_back (by decide) h₃]
  dsimp only
  rw [exchange_back (by decide) h₂]
  dsimp only
  rw [rotate_forth, exchange_back (by decide) h₁]
  dsimp only
  rw [rotate_forth]

/-! ## Bytes -/

variable {b₀ b₁ b₂ b₃ : UInt8}

/-- Which byte a bit of the word is from -/
theorem getLsbD_getUint32 {i : ℕ} (hi : i < 32) :
    (getUint32 b₀ b₁ b₂ b₃).getLsbD i =
      if i < 8 then b₃.toBitVec.getLsbD i
      else if i < 16 then b₂.toBitVec.getLsbD (i - 8)
      else if i < 24 then b₁.toBitVec.getLsbD (i - 16)
      else b₀.toBitVec.getLsbD (i - 24) := by
  have far (b : UInt8) {j : ℕ} (hj : 8 ≤ j) : b.toBitVec.getLsbD j = false :=
    BitVec.getLsbD_of_ge _ _ hj
  unfold getUint32
  simp only [BitVec.getLsbD_or, BitVec.getLsbD_shiftLeft, BitVec.getLsbD_setWidth, hi]
  split_ifs with h₁ h₂ h₃
  · have h₂ : i < 16 := by omega
    have h₃ : i < 24 := by omega
    simp [h₁, h₂, h₃]
  · have h₃ : i < 24 := by omega
    have h₄ : i - 8 < 32 := by omega
    simp [h₁, h₂, h₃, h₄, far b₃ (show 8 ≤ i by omega)]
  · have h₄ : i - 16 < 32 := by omega
    simp [h₁, h₂, h₃, h₄, far b₃ (show 8 ≤ i by omega), far b₂ (show 8 ≤ i - 8 by omega)]
  · have h₄ : i - 24 < 32 := by omega
    simp [h₁, h₂, h₃, h₄, far b₃ (show 8 ≤ i by omega), far b₂ (show 8 ≤ i - 8 by omega),
      far b₁ (show 8 ≤ i - 16 by omega)]

/-- What is read is written again. -/
theorem putUint32_getUint32 : putUint32 (getUint32 b₀ b₁ b₂ b₃) = [b₀, b₁, b₂, b₃] := by
  have byte (n : Word) (b : UInt8) (h : ∀ i < 8, n.getLsbD i = b.toBitVec.getLsbD i) :
      (⟨n.setWidth 8⟩ : UInt8) = b := by
    apply UInt8.toBitVec_inj.mp
    apply BitVec.eq_of_getLsbD_eq
    intro i hi
    rw [BitVec.getLsbD_setWidth, h i hi, decide_eq_true hi, Bool.true_and]
  unfold putUint32
  rw [byte _ b₀, byte _ b₁, byte _ b₂, byte _ b₃]
  · intro i hi
    rw [getLsbD_getUint32 (by omega), if_pos hi]
  · intro i hi
    rw [BitVec.getLsbD_ushiftRight, getLsbD_getUint32 (by omega), if_neg (by omega),
      if_pos (by omega), Nat.add_sub_cancel_left]
  · intro i hi
    rw [BitVec.getLsbD_ushiftRight, getLsbD_getUint32 (by omega), if_neg (by omega),
      if_neg (by omega), if_pos (by omega), Nat.add_sub_cancel_left]
  · intro i hi
    rw [BitVec.getLsbD_ushiftRight, getLsbD_getUint32 (by omega), if_neg (by omega),
      if_neg (by omega), if_neg (by omega), Nat.add_sub_cancel_left]

/-- What is written is read again. -/
theorem getUint32_putUint32 {n : Word} (h : putUint32 n = [b₀, b₁, b₂, b₃]) :
    getUint32 b₀ b₁ b₂ b₃ = n := by
  unfold putUint32 at h
  simp only [List.cons.injEq, and_true] at h
  obtain ⟨rfl, rfl, rfl, rfl⟩ := h
  apply BitVec.eq_of_getLsbD_eq
  intro i hi
  rw [getLsbD_getUint32 hi]
  simp only [BitVec.getLsbD_setWidth, BitVec.getLsbD_ushiftRight]
  split_ifs with h₁ h₂ h₃
  · rw [decide_eq_true h₁, Bool.true_and]
  · rw [decide_eq_true (by omega), Bool.true_and, Nat.add_sub_cancel' (by omega)]
  · rw [decide_eq_true (by omega), Bool.true_and, Nat.add_sub_cancel' (by omega)]
  · rw [decide_eq_true (by omega), Bool.true_and, Nat.add_sub_cancel' (by omega)]

/-! ## Rounds -/

/-- Two rounds at a time, the halves are where they were. -/
theorem desRounds_eq (sks : List (Word × Word)) (heven : Even sks.length) (x y : Word) :
    desRounds sks x y = feistel (· ^^^ ·) desMix sks (x, y) := by
  induction sks using List.twoStepInduction generalizing x y with
  | nil => rfl
  | singleton sk => exact absurd heven (by simp)
  | cons_cons sk₁ sk₂ sks ih _ =>
    have heven' : Even sks.length := by
      rw [List.length_cons, List.length_cons] at heven
      rcases heven with ⟨n, hn⟩
      exact ⟨n - 1, by omega⟩
    show desRounds sks (desRound sk₁ y x) (desRound sk₂ (desRound sk₁ y x) y) = _
    rw [ih heven']
    rfl

theorem length_keyRounds (n i : ℕ) (x y : Word) : (keyRounds n i x y).length = n := by
  induction n generalizing i x y with
  | zero => rfl
  | succ n ih =>
    show (_ :: keyRounds n (i + 1) _ _).length = n + 1
    rw [List.length_cons, ih]

/-- The bytes of a block -/
theorem eight {s : List UInt8} (hs : s.length = 8) :
    ∃ b₀ b₁ b₂ b₃ b₄ b₅ b₆ b₇, s = [b₀, b₁, b₂, b₃, b₄, b₅, b₆, b₇] := by
  match s, hs with
  | [b₀, b₁, b₂, b₃, b₄, b₅, b₆, b₇], _ => exact ⟨b₀, b₁, b₂, b₃, b₄, b₅, b₆, b₇, rfl⟩

theorem length_desMainKs {key : List UInt8} (hkey : key.length = 8) :
    (desMainKs key).length = 16 := by
  obtain ⟨b₀, b₁, b₂, b₃, b₄, b₅, b₆, b₇, rfl⟩ := eight hkey
  exact length_keyRounds 16 0 _ _

/-! ## Blocks -/

theorem length_desCrypt {sks : List (Word × Word)} {s : List UInt8} (hs : s.length = 8) :
    (desCrypt sks s).length = 8 := by
  obtain ⟨b₀, b₁, b₂, b₃, b₄, b₅, b₆, b₇, rfl⟩ := eight hs
  rfl

/-- With the halves and the rounds named -/
theorem desCrypt_eq {sks : List (Word × Word)} {b₀ b₁ b₂ b₃ b₄ b₅ b₆ b₇ : UInt8}
    {x y : Word} {p : Word × Word}
    (hip : desIp (getUint32 b₀ b₁ b₂ b₃) (getUint32 b₄ b₅ b₆ b₇) = (x, y))
    (hrounds : desRounds sks x y = p) :
    desCrypt sks [b₀, b₁, b₂, b₃, b₄, b₅, b₆, b₇] =
      putUint32 (desFp p.2 p.1).1 ++ putUint32 (desFp p.2 p.1).2 := by
  unfold desCrypt
  dsimp only
  rw [hip]
  dsimp only
  rw [hrounds]

/-- The subkeys in reverse decrypt what the subkeys encrypt. -/
theorem desCrypt_reverse {sks : List (Word × Word)} (heven : Even sks.length) {s : List UInt8}
    (hs : s.length = 8) : desCrypt sks.reverse (desCrypt sks s) = s := by
  have hxor (a b : Word) : a ^^^ b ^^^ b = a := by
    rw [BitVec.xor_assoc, BitVec.xor_self, BitVec.xor_zero]
  obtain ⟨b₀, b₁, b₂, b₃, b₄, b₅, b₆, b₇, rfl⟩ := eight hs
  obtain ⟨x, y, hip⟩ : ∃ x y, desIp (getUint32 b₀ b₁ b₂ b₃) (getUint32 b₄ b₅ b₆ b₇) = (x, y) :=
    ⟨_, _, rfl⟩
  obtain ⟨x', y', hrounds⟩ : ∃ x' y', desRounds sks x y = (x', y') := ⟨_, _, rfl⟩
  obtain ⟨u, v, hfp⟩ : ∃ u v, desFp y' x' = (u, v) := ⟨_, _, rfl⟩
  rw [desCrypt_eq hip hrounds]
  dsimp only
  rw [hfp]
  obtain ⟨c₀, c₁, c₂, c₃, hu⟩ : ∃ c₀ c₁ c₂ c₃, putUint32 u = [c₀, c₁, c₂, c₃] :=
    ⟨_, _, _, _, rfl⟩
  obtain ⟨c₄, c₅, c₆, c₇, hv⟩ : ∃ c₄ c₅ c₆ c₇, putUint32 v = [c₄, c₅, c₆, c₇] :=
    ⟨_, _, _, _, rfl⟩
  show desCrypt sks.reverse (putUint32 u ++ putUint32 v) = _
  rw [hu, hv]
  -- the final permutation of the first pass is undone by the initial one of the second
  have hip' : desIp (getUint32 c₀ c₁ c₂ c₃) (getUint32 c₄ c₅ c₆ c₇) = (y', x') := by
    rw [getUint32_putUint32 hu, getUint32_putUint32 hv]
    exact desIp_desFp hfp
  have hback : desRounds sks.reverse y' x' = (y, x) := by
    have heven' : Even sks.reverse.length := by
      rw [List.length_reverse]
      exact heven
    have hthere := desRounds_eq sks heven x y
    rw [hrounds] at hthere
    rw [desRounds_eq _ heven']
    have hswap := feistel_reverse (f := desMix) hxor sks (x, y)
    rw [← hthere] at hswap
    exact hswap
  show desCrypt sks.reverse [c₀, c₁, c₂, c₃, c₄, c₅, c₆, c₇] = _
  rw [desCrypt_eq hip' hback]
  dsimp only
  rw [desFp_desIp hip, putUint32_getUint32, putUint32_getUint32]
  rfl

end SkynetEureka.Crypt
