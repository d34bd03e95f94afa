import SkynetEureka.Lib.Bytes
import SkynetEureka.Crypt.DesTheorems
import SkynetEureka.Crypt.Text

/-!
# Diffie-Hellman (lua-crypt.c)

Numbers of 64 bits modulo `P`, which is just below `2 ^ 64`: a product is made by doubling and
adding, a power by squaring. The keys are strings of eight bytes, the lowest first.
-/

namespace SkynetEureka.Crypt

open Lib

/-- `uint64_t` -/
abbrev DWord := BitVec 64

/-- `P`, the biggest prime of 64 bits -/
def P : DWord := 0xffffffffffffffc5

/-- `t = P-a; if (m >= t) m -= t; else m += a;` -/
def addModP (m a : DWord) : DWord :=
  let t := P - a
  if t ≤ m then m - t else m + a

/-- `if (a >= P - a) a = a * 2 - P; else a = a * 2;` -/
def doubleModP (a : DWord) : DWord := if P - a ≤ a then a * 2 - P else a * 2

/-- The loop of `mul_mod_p` -/
def mulLoop (a b m : DWord) : DWord :=
  if b = 0 then m
  else mulLoop (doubleModP a) (b >>> 1) (if b &&& 1 ≠ 0 then addModP m a else m)
termination_by b.toNat
decreasing_by
  have hpos : b.toNat ≠ 0 := fun h => by simp_all [BitVec.toNat_eq]
  rw [BitVec.toNat_ushiftRight, Nat.shiftRight_one]
  omega

/-- `mul_mod_p` -/
def mulModP (a b : DWord) : DWord := mulLoop a b 0

/-- `pow_mod_p`, nested at most so deep -/
def powModP : ℕ → DWord → DWord → Except Stop DWord
  | 0, _, _ => .error .fault
  | depth + 1, a, b =>
    if b = 1 then .ok a
    else do
      let t ← powModP depth a (b >>> 1)
      let t := mulModP t t
      .ok (if b % 2 ≠ 0 then mulModP t a else t)

/-- `powmodp` -/
def powmodp (depth : ℕ) (a b : DWord) : Except Stop DWord :=
  powModP depth (if P < a then a % P else a) b

/-- `x[0] | x[1]<<8 | x[2]<<16 | x[3]<<24` -/
def load32 (x₀ x₁ x₂ x₃ : UInt8) : Word :=
  x₀.toBitVec.setWidth 32 ||| x₁.toBitVec.setWidth 32 <<< 8 ||| x₂.toBitVec.setWidth 32 <<< 16 |||
    x₃.toBitVec.setWidth 32 <<< 24

/-- The number in a string of eight bytes; `none` for a string of another size. -/
def load64 : List UInt8 → Option DWord
  | [x₀, x₁, x₂, x₃, x₄, x₅, x₆, x₇] =>
    let xx₀ := load32 x₀ x₁ x₂ x₃
    let xx₁ := load32 x₄ x₅ x₆ x₇
    some (xx₀.setWidth 64 ||| xx₁.setWidth 64 <<< 32)
  | _ => none

/-- `push64` -/
def push64 (r : DWord) : List UInt8 :=
  (List.range 8).map fun i => ⟨(r >>> (8 * i) &&& 0xff).setWidth 8⟩

/-- `ldhsecret` -/
def ldhsecret (depth : ℕ) (x y : List UInt8) : Except Stop (List UInt8) := do
  let xx ← (load64 x).elim (.error (.error "Invalid uint64 x")) .ok
  let yy ← (load64 y).elim (.error (.error "Invalid uint64 y")) .ok
  if xx = 0 ∨ yy = 0 then .error (.error "Can't be 0")
  let r ← powmodp depth xx yy
  .ok (push64 r)

/-- `G` -/
def G : DWord := 5

/-- `ldhexchange` -/
def ldhexchange (depth : ℕ) (x : List UInt8) : Except Stop (List UInt8) := do
  let x64 ← (load64 x).elim (.error (.error "Invalid dh uint64 key")) .ok
  if x64 = 0 then .error (.error "Can't be 0")
  let r ← powmodp depth G x64
  .ok (push64 r)

/-! ## Products -/

variable {a b m : DWord} {depth : ℕ} {x y : List UInt8}

theorem toNat_P : P.toNat = 18446744073709551557 := rfl

theorem toNat_zero : (0 : DWord).toNat = 0 := rfl

theorem toNat_sub_P (ha : a.toNat < 18446744073709551557) :
    (P - a).toNat = 18446744073709551557 - a.toNat := by
  rw [BitVec.toNat_sub, toNat_P]
  omega

/-- The sum, by a comparison with what is missing up to `P` -/
theorem toNat_addModP (ha : a < P) (hm : m < P) :
    (addModP m a).toNat = (m.toNat + a.toNat) % P.toNat := by
  unfold addModP
  rw [BitVec.lt_def, toNat_P] at ha hm
  have hsub := toNat_sub_P ha
  dsimp only
  split_ifs with hle
  · rw [BitVec.le_def, hsub] at hle
    rw [BitVec.toNat_sub, hsub, toNat_P]
    omega
  · rw [BitVec.le_def, hsub] at hle
    rw [BitVec.toNat_add, toNat_P]
    omega

/-- The bit that is lost is made up for. -/
theorem double_wrap {n : ℕ} (hn : n < 18446744073709551557) (hle : 18446744073709551557 ≤ 2 * n) :
    (2 ^ 64 - 18446744073709551557 + 2 * n % 2 ^ 64) % 2 ^ 64 = 2 * n % 18446744073709551557 := by
  have hmod : 2 * n % 18446744073709551557 = 2 * n - 18446744073709551557 := by
    rw [Nat.mod_eq_sub_mod hle, Nat.mod_eq_of_lt (show 2 * n - 18446744073709551557 < _ by omega)]
  rw [hmod]
  rcases Nat.lt_or_ge (2 * n) (2 ^ 64) with hlt | hge
  · rw [Nat.mod_eq_of_lt hlt]
    omega
  · rw [Nat.mod_eq_sub_mod hge, Nat.mod_eq_of_lt (show 2 * n - 2 ^ 64 < _ by omega)]
    rw [Nat.mod_eq_of_lt (by omega)]
    omega

/-- Twice the number -/
theorem toNat_doubleModP (ha : a < P) : (doubleModP a).toNat = 2 * a.toNat % P.toNat := by
  unfold doubleModP
  rw [BitVec.lt_def, toNat_P] at ha
  have hsub := toNat_sub_P ha
  have htwo : (a * 2).toNat = 2 * a.toNat % 2 ^ 64 := by
    rw [BitVec.toNat_mul, Nat.mul_comm]
    rfl
  rw [toNat_P]
  by_cases hle : P - a ≤ a
  · rw [if_pos hle, BitVec.toNat_sub, htwo, toNat_P]
    rw [BitVec.le_def, hsub] at hle
    exact double_wrap ha (by omega)
  · rw [if_neg hle, htwo]
    rw [BitVec.le_def, hsub] at hle
    clear htwo hsub
    generalize a.toNat = n at *
    rw [Nat.mod_eq_of_lt (show 2 * n < 18446744073709551557 by omega),
      Nat.mod_eq_of_lt (show 2 * n < 2 ^ 64 by omega)]

theorem lt_P_of_toNat {n : ℕ} (h : a.toNat = n % P.toNat) : a < P := by
  rw [BitVec.lt_def, h]
  exact Nat.mod_lt _ (by decide)

theorem mulLoop_eq (ha : a < P) (hm : m < P) :
    (mulLoop a b m).toNat = (m.toNat + a.toNat * b.toNat) % P.toNat := by
  induction hn : b.toNat using Nat.strong_induction_on generalizing a b m with
  | _ n ih =>
  subst hn
  rw [mulLoop]
  by_cases hb : b = 0
  · rw [if_pos hb, hb, toNat_zero, Nat.mul_zero, Nat.add_zero, Nat.mod_eq_of_lt hm]
  · have hpos : b.toNat ≠ 0 := fun h => hb (BitVec.eq_of_toNat_eq h)
    have hbit : b &&& 1 = 0 ↔ b.toNat % 2 = 0 := by
      rw [BitVec.toNat_eq, BitVec.toNat_and, show (1 : DWord).toNat = 1 from rfl,
        Nat.and_one_is_mod, toNat_zero]
    have hhalf : (b >>> 1).toNat = b.toNat / 2 := by
      rw [BitVec.toNat_ushiftRight, Nat.shiftRight_one]
    have ha' := toNat_doubleModP ha
    have hm' : (if b &&& 1 ≠ 0 then addModP m a else m).toNat =
        (m.toNat + a.toNat * (b.toNat % 2)) % P.toNat := by
      by_cases heven : b.toNat % 2 = 0
      · rw [if_neg (not_not.mpr (hbit.mpr heven)), heven, Nat.mul_zero, Nat.add_zero,
          Nat.mod_eq_of_lt hm]
      · rw [if_pos (fun h => heven (hbit.mp h)), toNat_addModP ha hm,
          show b.toNat % 2 = 1 by omega, Nat.mul_one]
    rw [if_neg hb, ih _ (by rw [hhalf]; omega) (lt_P_of_toNat ha') (lt_P_of_toNat hm') rfl, ha',
      hm', hhalf]
    -- the bit that is taken, and the half that is left
    have hsplit : a.toNat * b.toNat =
        a.toNat * (b.toNat % 2) + 2 * a.toNat * (b.toNat / 2) := by
      conv_lhs => rw [← Nat.mod_add_div b.toNat 2]
      ring
    rw [hsplit, ← Nat.add_assoc, Nat.add_mod, Nat.mod_mod, Nat.mod_mul_mod, ← Nat.add_mod]

/-- **`mul_mod_p`** multiplies modulo `P`. -/
theorem mulModP_eq (ha : a < P) : (mulModP a b).toNat = a.toNat * b.toNat % P.toNat := by
  unfold mulModP
  rw [mulLoop_eq ha (by decide), toNat_zero, Nat.zero_add]

/-! ## Powers -/

/-- **`pow_mod_p`** returns the power for every exponent but 0, within one call for each bit. -/
theorem powModP_eq (ha : a < P) (hb : b ≠ 0) (hdepth : b.toNat < 2 ^ depth) :
    ∃ r, powModP depth a b = .ok r ∧ r.toNat = a.toNat ^ b.toNat % P.toNat := by
  have hpos : b.toNat ≠ 0 := fun h => hb (BitVec.eq_of_toNat_eq h)
  induction depth generalizing b with
  | zero => omega
  | succ depth ih =>
    unfold powModP
    by_cases hone : b = 1
    · rw [if_pos hone]
      refine ⟨a, rfl, ?_⟩
      rw [hone, show (1 : DWord).toNat = 1 from rfl, Nat.pow_one, Nat.mod_eq_of_lt ha]
    · have hone' : b.toNat ≠ 1 := fun h => hone (BitVec.eq_of_toNat_eq h)
      have hhalf : (b >>> 1).toNat = b.toNat / 2 := by
        rw [BitVec.toNat_ushiftRight, Nat.shiftRight_one]
      have hhalf' : (b >>> 1).toNat ≠ 0 := by omega
      obtain ⟨t, ht, hpow⟩ := ih (fun h => hhalf' (by rw [h]; rfl))
        (by rw [Nat.pow_succ] at hdepth; omega) hhalf'
      have hsq : (mulModP t t).toNat = a.toNat ^ (2 * (b.toNat / 2)) % P.toNat := by
        rw [mulModP_eq (lt_P_of_toNat hpow), hpow, hhalf, ← Nat.mul_mod, ← Nat.pow_add, Nat.two_mul]
      rw [if_neg hone, ht]
      refine ⟨_, rfl, ?_⟩
      have hodd : b % 2 = 0 ↔ b.toNat % 2 = 0 := by
        rw [BitVec.toNat_eq, BitVec.toNat_umod, show (2 : DWord).toNat = 2 from rfl, toNat_zero]
      by_cases heven : b.toNat % 2 = 0
      · rw [if_neg (not_not.mpr (hodd.mpr heven)), hsq, show 2 * (b.toNat / 2) = b.toNat by omega]
      · rw [if_pos (fun h => heven (hodd.mp h)), mulModP_eq (lt_P_of_toNat hsq), hsq,
          Nat.mod_mul_mod, ← Nat.pow_succ, show (2 * (b.toNat / 2)).succ = b.toNat by omega]

/-- It ends whatever the base is. -/
theorem powModP_ends (a : DWord) (hb : b ≠ 0) (hdepth : b.toNat < 2 ^ depth) :
    ∃ r, powModP depth a b = .ok r := by
  have hpos : b.toNat ≠ 0 := fun h => hb (BitVec.eq_of_toNat_eq h)
  induction depth generalizing b with
  | zero => omega
  | succ depth ih =>
    unfold powModP
    by_cases hone : b = 1
    · rw [if_pos hone]
      exact ⟨a, rfl⟩
    · have hone' : b.toNat ≠ 1 := fun h => hone (BitVec.eq_of_toNat_eq h)
      have hhalf : (b >>> 1).toNat = b.toNat / 2 := by
        rw [BitVec.toNat_ushiftRight, Nat.shiftRight_one]
      have hhalf' : (b >>> 1).toNat ≠ 0 := by omega
      obtain ⟨t, ht⟩ := ih (fun h => hhalf' (by rw [h]; rfl))
        (by rw [Nat.pow_succ] at hdepth; omega) hhalf'
      rw [if_neg hone, ht]
      exact ⟨_, rfl⟩

/-! ## Strings -/

theorem toNat_or_shiftLeft {n k : ℕ} {u v : BitVec n} (hu : u.toNat < 2 ^ k)
    (hv : v.toNat * 2 ^ k < 2 ^ n) : (u ||| v <<< k).toNat = u.toNat + v.toNat * 2 ^ k := by
  rw [BitVec.toNat_or, BitVec.toNat_shiftLeft, Nat.shiftLeft_eq, Nat.mod_eq_of_lt hv, Nat.or_comm,
    ← Nat.shiftLeft_eq, ← Nat.shiftLeft_add_eq_or_of_lt hu, Nat.shiftLeft_eq, Nat.add_comm]

theorem toNat_byte (x : UInt8) : (x.toBitVec.setWidth 32).toNat = x.toNat := by
  rw [BitVec.toNat_setWidth]
  exact Nat.mod_eq_of_lt (by have := x.toNat_lt; omega)

theorem toNat_load32 (x₀ x₁ x₂ x₃ : UInt8) :
    (load32 x₀ x₁ x₂ x₃).toNat = ofLeBytes [x₀, x₁, x₂, x₃] := by
  have h₀ := x₀.toNat_lt
  have h₁ := x₁.toNat_lt
  have h₂ := x₂.toNat_lt
  have h₃ := x₃.toNat_lt
  unfold load32
  have e₁ := @toNat_or_shiftLeft 32 8 (x₀.toBitVec.setWidth 32) (x₁.toBitVec.setWidth 32)
    (by rw [toNat_byte]; omega) (by rw [toNat_byte]; omega)
  rw [toNat_byte, toNat_byte] at e₁
  have e₂ := @toNat_or_shiftLeft 32 16 _ (x₂.toBitVec.setWidth 32)
    (show (x₀.toBitVec.setWidth 32 ||| x₁.toBitVec.setWidth 32 <<< 8).toNat < _ by rw [e₁]; omega)
    (by rw [toNat_byte]; omega)
  rw [e₁, toNat_byte] at e₂
  rw [toNat_or_shiftLeft (by rw [e₂]; omega) (by rw [toNat_byte]; omega), e₂, toNat_byte]
  show _ = x₀.toNat + 256 * (x₁.toNat + 256 * (x₂.toNat + 256 * (x₃.toNat + 256 * 0)))
  omega

/-- The number of eight bytes -/
theorem load64_eq (hx : x.length = 8) : ∃ v, load64 x = some v ∧ v.toNat = ofLeBytes x := by
  obtain ⟨x₀, x₁, x₂, x₃, x₄, x₅, x₆, x₇, rfl⟩ := eight hx
  refine ⟨_, rfl, ?_⟩
  have hlow := ofLeBytes_lt [x₀, x₁, x₂, x₃]
  have hhigh := ofLeBytes_lt [x₄, x₅, x₆, x₇]
  simp only [List.length_cons, List.length_nil] at hlow hhigh
  have hset (w : Word) : (w.setWidth 64).toNat = w.toNat := by
    rw [BitVec.toNat_setWidth]
    exact Nat.mod_eq_of_lt (by have := w.isLt; omega)
  rw [toNat_or_shiftLeft, hset, hset, toNat_load32, toNat_load32]
  · show _ = x₀.toNat + 256 * (x₁.toNat + 256 * (x₂.toNat + 256 * (x₃.toNat +
      256 * ofLeBytes [x₄, x₅, x₆, x₇])))
    have : ofLeBytes [x₀, x₁, x₂, x₃] =
        x₀.toNat + 256 * (x₁.toNat + 256 * (x₂.toNat + 256 * (x₃.toNat + 256 * 0))) := rfl
    omega
  · rw [hset, toNat_load32]
    omega
  · rw [hset, toNat_load32]
    omega

theorem push64_eq (r : DWord) : push64 r = leBytes 8 r.toNat := by
  have hbyte (i : ℕ) : (⟨(r >>> i &&& 0xff).setWidth 8⟩ : UInt8) = UInt8.ofNat (r.toNat / 2 ^ i) := by
    apply UInt8.toNat_inj.mp
    show ((r >>> i &&& 0xff).setWidth 8).toNat = _
    rw [BitVec.toNat_setWidth, BitVec.toNat_and, BitVec.toNat_ushiftRight,
      Nat.shiftRight_eq_div_pow, UInt8.toNat_ofNat']
    show (_ &&& (2 ^ 8 - 1)) % _ = _
    rw [Nat.and_two_pow_sub_one_eq_mod, Nat.mod_mod]
  show [_, _, _, _, _, _, _, _] = [_, _, _, _, _, _, _, _]
  simp only [hbyte, Nat.div_div_eq_div_mul]
  norm_num

theorem load64_push64 (r : DWord) : load64 (push64 r) = some r := by
  have hpush := push64_eq r
  obtain ⟨v, hv, htoNat⟩ := load64_eq (show (push64 r).length = 8 from rfl)
  rw [hv, Option.some_inj]
  apply BitVec.eq_of_toNat_eq
  rw [htoNat, hpush, ofLeBytes_leBytes_of_lt]
  exact r.isLt

/-! ## The secret -/

/-- No power of `G` is divisible by `P`. -/
theorem five_pow_mod (n : ℕ) : 5 ^ n % P.toNat ≠ 0 := by
  intro h
  have hcoprime : Nat.Coprime (5 ^ n) P.toNat := by
    rw [toNat_P]
    exact Nat.Coprime.pow_left n (by norm_num)
  have hone := Nat.Coprime.eq_one_of_dvd hcoprime.symm (Nat.dvd_of_mod_eq_zero h)
  rw [toNat_P] at hone
  omega

theorem powmodp_eq (hdepth : 64 ≤ depth) (ha : a < P) (hb : b ≠ 0) :
    ∃ r, powmodp depth a b = .ok r ∧ r.toNat = a.toNat ^ b.toNat % P.toNat := by
  unfold powmodp
  rw [if_neg (BitVec.not_lt.mpr (BitVec.le_of_lt ha))]
  exact powModP_eq ha hb (b.isLt.trans_le (Nat.pow_le_pow_right (by decide) hdepth))

theorem ldhexchange_eq (hdepth : 64 ≤ depth) (hx : x.length = 8) (hx' : ofLeBytes x ≠ 0) :
    ∃ r, ldhexchange depth x = .ok (push64 r) ∧ r.toNat = 5 ^ ofLeBytes x % P.toNat := by
  obtain ⟨v, hv, htoNat⟩ := load64_eq hx
  have hne : v ≠ 0 := fun h => hx' (by rw [← htoNat, h]; rfl)
  obtain ⟨r, hr, hpow⟩ := powmodp_eq hdepth (show G < P by decide) hne
  refine ⟨r, ?_, by rw [hpow, htoNat]; rfl⟩
  show (do
    let x64 ← (load64 x).elim (.error (.error "Invalid dh uint64 key")) .ok
    if x64 = 0 then .error (.error "Can't be 0")
    let r ← powmodp depth G x64
    .ok (push64 r) : Except Stop (List UInt8)) = _
  rw [hv, Option.elim_some, except_ok_bind, if_neg hne]
  show (powmodp depth G v >>= fun r => .ok (push64 r) : Except Stop (List UInt8)) = _
  rw [hr, except_ok_bind]

/-- The secret, from what the other side has sent -/
theorem ldhsecret_eq (hdepth : 64 ≤ depth) (hy : y.length = 8) (hy' : ofLeBytes y ≠ 0) {n : ℕ}
    {r : DWord} (hr : r.toNat = 5 ^ n % P.toNat) :
    ldhsecret depth (push64 r) y = .ok (leBytes 8 (5 ^ (n * ofLeBytes y) % P.toNat)) := by
  obtain ⟨v, hv, htoNat⟩ := load64_eq hy
  have hne : v ≠ 0 := fun h => hy' (by rw [← htoNat, h]; rfl)
  have hr' : r ≠ 0 := fun h => five_pow_mod n (by rw [← hr, h]; rfl)
  obtain ⟨t, ht, hpow⟩ := powmodp_eq hdepth (lt_P_of_toNat hr) hne
  unfold ldhsecret
  rw [load64_push64, hv, Option.elim_some, except_ok_bind, Option.elim_some, except_ok_bind,
    if_neg (not_or.mpr ⟨hr', hne⟩)]
  show (powmodp depth r v >>= fun r => .ok (push64 r) : Except Stop (List UInt8)) = _
  rw [ht, except_ok_bind, push64_eq, hpow, hr, htoNat, ← Nat.pow_mod, ← Nat.pow_mul]

/-- **Both sides have the same secret**, and the arithmetic behind it is that modulo `P`. -/
theorem dhsecret_agrees (hdepth : 64 ≤ depth) (hx : x.length = 8) (hy : y.length = 8)
    (hx' : ofLeBytes x ≠ 0) (hy' : ofLeBytes y ≠ 0) :
    (∃ sx sy, ldhexchange depth x = .ok sx ∧ ldhexchange depth y = .ok sy ∧
      ldhsecret depth sx y = ldhsecret depth sy x ∧
      ldhsecret depth sx y =
        .ok (leBytes 8 (5 ^ (ofLeBytes x * ofLeBytes y) % P.toNat))) ∧
    (∀ a b, a < P → (mulModP a b).toNat = a.toNat * b.toNat % P.toNat) ∧
    ∀ a b, b ≠ 0 → ∃ r, powModP depth a b = .ok r := by
  refine ⟨?_, fun a b ha => mulModP_eq ha, ?_⟩
  · obtain ⟨rx, hsx, hrx⟩ := ldhexchange_eq hdepth hx hx'
    obtain ⟨ry, hsy, hry⟩ := ldhexchange_eq hdepth hy hy'
    have hsecret := ldhsecret_eq hdepth hy hy' hrx
    refine ⟨_, _, hsx, hsy, ?_, hsecret⟩
    rw [hsecret, ldhsecret_eq hdepth hx hx' hry, Nat.mul_comm]
  · intro a b hb
    exact powModP_ends a hb (b.isLt.trans_le (Nat.pow_le_pow_right (by decide) hdepth))

theorem dhsecret_agrees_small :
    (∃ sx sy, ldhexchange 64 [2, 0, 0, 0, 0, 0, 0, 0] = .ok sx ∧
      ldhexchange 64 [3, 0, 0, 0, 0, 0, 0, 0] = .ok sy ∧
      ldhsecret 64 sx [3, 0, 0, 0, 0, 0, 0, 0] =
        ldhsecret 64 sy [2, 0, 0, 0, 0, 0, 0, 0] ∧
      ldhsecret 64 sx [3, 0, 0, 0, 0, 0, 0, 0] =
        .ok (leBytes 8 (5 ^ (ofLeBytes [2, 0, 0, 0, 0, 0, 0, 0] *
          ofLeBytes [3, 0, 0, 0, 0, 0, 0, 0]) % P.toNat))) ∧
    (∀ a b, a < P → (mulModP a b).toNat = a.toNat * b.toNat % P.toNat) ∧
    ∀ a b, b ≠ 0 → ∃ r, powModP 64 a b = .ok r :=
  dhsecret_agrees (by decide) rfl rfl (by decide) (by decide)

end SkynetEureka.Crypt
