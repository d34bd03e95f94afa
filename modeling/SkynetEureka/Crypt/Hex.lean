import SkynetEureka.Lib.Bytes
import SkynetEureka.Crypt.Text

/-!
# Hexadecimal texts (lua-crypt.c)

`HEX` maps a character to a byte by subtraction, and the byte is compared with 16 afterwards.
-/

namespace SkynetEureka.Crypt

open Lib

/-- `hex[]`, the characters of "0123456789abcdef" -/
def hexTable : List UInt8 :=
  [48, 49, 50, 51, 52, 53, 54, 55, 56, 57, 97, 98, 99, 100, 101, 102]

/-- `hex[n]` -/
def hexChar (n : UInt8) : UInt8 := hexTable.getD n.toNat 0

/-- The loop of `ltohex` from `i` on -/
def tohexLoop : ℕ → List UInt8 → Except Stop (List UInt8)
  | _, [] => .ok []
  | i, b :: text =>
    -- `i*2+1` overflows
    if 2 ^ 31 ≤ i * 2 + 1 then .error .fault
    else do
      let buffer ← tohexLoop (i + 1) text
      .ok (hexChar (b >>> 4) :: hexChar (b &&& 0xf) :: buffer)

/-- `ltohex` -/
def ltohex (text : List UInt8) : Except Stop (List UInt8) := tohexLoop 0 text

/-- `HEX`, into a `uint8_t` -/
def hexValue (c : UInt8) : UInt8 := if 48 ≤ c ∧ c ≤ 57 then c - 48 else c - 97 + 10

/-- The loop of `lfromhex` from `i` on -/
def fromhexLoop : ℕ → List UInt8 → Except Stop (List UInt8)
  | i, c :: d :: text =>
    let hi := hexValue c
    let low := hexValue d
    if hi > 16 ∨ low > 16 then .error (.error "Invalid hex text")
    -- `i+=2` overflows
    else if 2 ^ 31 ≤ i + 2 then .error .fault
    else do
      let buffer ← fromhexLoop (i + 2) text
      .ok ((hi <<< 4 ||| low) :: buffer)
  | _, _ => .ok []

/-- `lfromhex` -/
def lfromhex (text : List UInt8) : Except Stop (List UInt8) :=
  if text.length % 2 = 1 then .error (.error s!"Invalid hex text size {toInt text.length}")
  else fromhexLoop 0 text

/-- A hexadecimal digit, in lower case -/
def HexDigit (c : UInt8) : Prop := 48 ≤ c ∧ c ≤ 57 ∨ 97 ≤ c ∧ c ≤ 102

/-- A character that the comparison with 16 refuses: no digit, and not from `W` to `g` -/
def Refused (c : UInt8) : Prop := ¬ (48 ≤ c ∧ c ≤ 57) ∧ ¬ (87 ≤ c ∧ c ≤ 103)

instance (c : UInt8) : Decidable (HexDigit c) :=
  inferInstanceAs (Decidable (48 ≤ c ∧ c ≤ 57 ∨ 97 ≤ c ∧ c ≤ 102))

instance (c : UInt8) : Decidable (Refused c) :=
  inferInstanceAs (Decidable (¬ (48 ≤ c ∧ c ≤ 57) ∧ ¬ (87 ≤ c ∧ c ≤ 103)))

/-- Digits only, an even number of them -/
def IsHex (text : List UInt8) : Prop := text.length % 2 = 0 ∧ ∀ c ∈ text, HexDigit c

/-- Exactly the hexadecimal texts are accepted, and what they stand for is written so. -/
def DecodesHex (text : List UInt8) : Prop :=
  match lfromhex text with
  | .ok v => IsHex text ∧ ltohex v = .ok text
  | .error (.error _) => ¬ IsHex text
  | .error .fault => False

/-! ## Characters -/

variable {c d : UInt8} {text v : List UInt8} {i : ℕ}

/-- A check of all bytes -/
theorem forall_byte {p : UInt8 → Prop} (h : ∀ n : Fin 256, p (UInt8.ofNat n)) (c : UInt8) : p c := by
  have := h ⟨c.toNat, c.toNat_lt⟩
  rwa [UInt8.ofNat_toNat] at this

theorem refused_iff (c : UInt8) : 16 < hexValue c ↔ Refused c := by
  revert c
  apply forall_byte
  decide +kernel

theorem HexDigit.value (h : HexDigit c) : hexValue c < 16 ∧ hexChar (hexValue c) = c := by
  revert c
  apply forall_byte
  decide +kernel

theorem HexDigit.not_refused (h : HexDigit c) : ¬ Refused c := by
  rw [← refused_iff]
  intro hlt
  have hvalue := UInt8.lt_iff_toNat_lt.mp h.value.1
  have hlt := UInt8.lt_iff_toNat_lt.mp hlt
  omega

/-- Two digits are one byte, and the byte is written with them. -/
theorem HexDigit.byte (hc : HexDigit c) (hd : HexDigit d) :
    hexChar ((hexValue c <<< 4 ||| hexValue d) >>> 4) = c ∧
      hexChar ((hexValue c <<< 4 ||| hexValue d) &&& 0xf) = d := by
  have hnibbles : ∀ m n : Fin 16, (UInt8.ofNat m <<< 4 ||| UInt8.ofNat n) >>> 4 = UInt8.ofNat m ∧
      (UInt8.ofNat m <<< 4 ||| UInt8.ofNat n) &&& 0xf = UInt8.ofNat n := by decide +kernel
  obtain ⟨hhi, hlow⟩ := hnibbles ⟨_, UInt8.lt_iff_toNat_lt.mp hc.value.1⟩
    ⟨_, UInt8.lt_iff_toNat_lt.mp hd.value.1⟩
  dsimp only at hhi hlow
  rw [UInt8.ofNat_toNat, UInt8.ofNat_toNat] at hhi hlow
  rw [hhi, hlow]
  exact ⟨hc.value.2, hd.value.2⟩

/-! ## The loop -/

theorem fromhexLoop_cons : fromhexLoop i (c :: d :: text) =
    if Refused c ∨ Refused d then .error (.error "Invalid hex text")
    else if 2 ^ 31 ≤ i + 2 then .error .fault
    else fromhexLoop (i + 2) text >>= fun buffer =>
      .ok ((hexValue c <<< 4 ||| hexValue d) :: buffer) := by
  conv_lhs => unfold fromhexLoop
  simp only [gt_iff_lt, refused_iff]

/-- What the loop does with digits -/
theorem fromhexLoop_hex (heven : text.length % 2 = 0) (hhex : ∀ c ∈ text, HexDigit c)
    (hlt : i + text.length < 2 ^ 31) :
    ∃ v, fromhexLoop i text = .ok v ∧ v.length = text.length / 2 ∧
      ∀ j, j + v.length ≤ 2 ^ 30 → tohexLoop j v = .ok text := by
  induction text using List.twoStepInduction generalizing i with
  | nil => exact ⟨[], rfl, rfl, fun _ _ => rfl⟩
  | singleton c => cases heven
  | cons_cons c d text ih _ =>
    have hc : HexDigit c := hhex c (List.mem_cons_self ..)
    have hd : HexDigit d := hhex d (List.mem_cons_of_mem _ (List.mem_cons_self ..))
    simp only [List.length_cons] at heven hlt
    obtain ⟨v, hv, hlen, hback⟩ := ih (i := i + 2) (by omega)
      (fun x hx => hhex x (List.mem_cons_of_mem _ (List.mem_cons_of_mem _ hx))) (by omega)
    refine ⟨(hexValue c <<< 4 ||| hexValue d) :: v, ?_, ?_, ?_⟩
    · rw [fromhexLoop_cons, if_neg (not_or.mpr ⟨hc.not_refused, hd.not_refused⟩),
        if_neg (by omega), hv]
      rfl
    · rw [List.length_cons, hlen, List.length_cons, List.length_cons]
      omega
    · intro j hj
      rw [List.length_cons] at hj
      unfold tohexLoop
      rw [if_neg (by omega), hback (j + 1) (by omega)]
      show Except.ok (_ :: _ :: text) = _
      rw [(hc.byte hd).1, (hc.byte hd).2]

/-- It raises at the first character that it refuses. -/
theorem fromhexLoop_refused {j : ℕ} (heven : text.length % 2 = 0) (hget : text[j]? = some c)
    (hrefused : Refused c) (hi : i % 2 = 0) (hlt : i + j < 2 ^ 31) :
    fromhexLoop i text = .error (.error "Invalid hex text") := by
  induction text using List.twoStepInduction generalizing i j with
  | nil => cases hget
  | singleton c => cases heven
  | cons_cons c₀ d text ih _ =>
    rw [fromhexLoop_cons]
    by_cases hpair : Refused c₀ ∨ Refused d
    · rw [if_pos hpair]
    · rw [if_neg hpair]
      simp only [List.length_cons] at heven
      match j with
      | 0 => exact absurd (Or.inl (Option.some.inj hget ▸ hrefused)) hpair
      | 1 => exact absurd (Or.inr (Option.some.inj hget ▸ hrefused)) hpair
      | j + 2 =>
        rw [if_neg (by omega), ih (j := j) (by omega) hget (by omega) (by omega)]
        rfl

/-- A value comes only from characters that are not refused, and the `int` has counted them. -/
theorem of_fromhexLoop_ok (h : fromhexLoop i text = .ok v) (heven : text.length % 2 = 0) :
    (∀ c ∈ text, ¬ Refused c) ∧ (i < 2 ^ 31 → i + text.length < 2 ^ 31) := by
  induction text using List.twoStepInduction generalizing i v with
  | nil => exact ⟨nofun, fun hi => hi⟩
  | singleton c => cases heven
  | cons_cons c d text ih _ =>
    rw [fromhexLoop_cons] at h
    split_ifs at h with hpair hover
    rw [not_or] at hpair
    simp only [List.length_cons] at heven
    obtain ⟨buffer, hbuffer, -⟩ := except_bind_eq_ok.mp h
    obtain ⟨hall, hlt⟩ := ih hbuffer (by omega)
    constructor
    · intro x hx
      rcases List.mem_cons.mp hx with rfl | hx
      · exact hpair.1
      · rcases List.mem_cons.mp hx with rfl | hx
        · exact hpair.2
        · exact hall x hx
    · intro _
      have := hlt (by omega)
      simp only [List.length_cons]
      omega

/-- An error comes from a character that is refused, before the `int` overflows. -/
theorem of_fromhexLoop_error {message : String} (h : fromhexLoop i text = .error (.error message))
    (hi : i < 2 ^ 31) (heven : i % 2 = 0) :
    ∃ j c, text[j]? = some c ∧ Refused c ∧ i + j < 2 ^ 31 := by
  induction text using List.twoStepInduction generalizing i with
  | nil => cases h
  | singleton c => cases h
  | cons_cons c d text ih _ =>
    rw [fromhexLoop_cons] at h
    split_ifs at h with hpair hover
    · rcases hpair with hc | hd
      · exact ⟨0, c, rfl, hc, hi⟩
      · exact ⟨1, d, rfl, hd, by omega⟩
    · cases h
    · cases hrest : fromhexLoop (i + 2) text with
      | ok buffer =>
        rw [hrest] at h
        cases h
      | error stop =>
        rw [hrest] at h
        cases h
        obtain ⟨j, x, hget, hx, hlt⟩ := ih hrest (by omega) (by omega)
        exact ⟨j + 2, x, hget, hx, by omega⟩

/-- **Exactly when a text is decoded as it should be**: its length is odd, or a character that is
refused comes early enough, or it is hexadecimal and an `int` can count it. -/
theorem decodesHex_iff (text : List UInt8) :
    DecodesHex text ↔ text.length % 2 = 1 ∨
      (∃ j < 2 ^ 31, ∃ c, text[j]? = some c ∧ Refused c) ∨
      (IsHex text ∧ text.length < 2 ^ 31) := by
  unfold DecodesHex lfromhex
  by_cases hodd : text.length % 2 = 1
  · rw [if_pos hodd]
    refine iff_of_true ?_ (Or.inl hodd)
    intro h
    have := h.1
    omega
  · have heven : text.length % 2 = 0 := by omega
    rw [if_neg hodd]
    constructor
    · cases hloop : fromhexLoop 0 text with
      | ok v =>
        intro h
        have hlt := (of_fromhexLoop_ok hloop heven).2 (by decide)
        exact Or.inr (Or.inr ⟨h.1, by omega⟩)
      | error stop =>
        cases stop with
        | fault => exact False.elim
        | error message =>
          intro _
          obtain ⟨j, c, hget, hc, hlt⟩ := of_fromhexLoop_error hloop (by decide) rfl
          exact Or.inr (Or.inl ⟨j, by omega, c, hget, hc⟩)
    · rintro (h | ⟨j, hj, c, hget, hc⟩ | ⟨hhex, hlt⟩)
      · exact absurd h hodd
      · rw [fromhexLoop_refused heven hget hc rfl (by omega)]
        intro h
        exact (h.2 c (List.mem_of_getElem? hget)).not_refused hc
      · obtain ⟨v, hv, hlen, hback⟩ := fromhexLoop_hex (i := 0) heven hhex.2 (by omega)
        rw [hv]
        exact ⟨hhex, hback 0 (by omega)⟩

/-- "g0" is taken for a byte. -/
theorem decodesHex_g : lfromhex [103, 48] = .ok [0] ∧ ¬ DecodesHex [103, 48] := by
  have hvalue : lfromhex [103, 48] = .ok [0] := by decide
  refine ⟨hvalue, ?_⟩
  unfold DecodesHex
  rw [hvalue]
  exact fun h => absurd (h.1.2 103 (by decide)) (by decide)

end SkynetEureka.Crypt
