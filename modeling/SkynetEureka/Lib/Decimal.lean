import Mathlib

/-!
# Decimal numerals

The text of a number in decimal digits, and the number that such a text stands for.
-/

namespace SkynetEureka.Lib

/-- The character is a digit. -/
def isDigit (c : UInt8) : Bool := 48 ≤ c && c ≤ 57

/-- The number that these digits stand for -/
def digitsValue (s : List UInt8) : ℕ := s.foldl (fun n c => n * 10 + (c.toNat - 48)) 0

/-- The number of a text of digits -/
def natural? (s : List UInt8) : Option ℕ :=
  if s ≠ [] ∧ s.all isDigit then some (digitsValue s) else none

/-- The number of a text of digits, with a sign or without one -/
def integer? : List UInt8 → Option ℤ
  | 45 :: s => (natural? s).map fun n : ℕ => -(n : ℤ)
  | s => (natural? s).map fun n : ℕ => (n : ℤ)

/-- The digits of a number -/
def digits (n : ℕ) : List UInt8 :=
  if n = 0 then [48] else (Nat.digits 10 n).reverse.map fun d => UInt8.ofNat (48 + d)

/-- The digits of a number, behind its sign -/
def numeral (n : ℤ) : List UInt8 := if n < 0 then 45 :: digits n.natAbs else digits n.natAbs

variable {n : ℕ}

theorem toNat_digit {d : ℕ} (h : d < 10) : (UInt8.ofNat (48 + d)).toNat = 48 + d := by
  rw [UInt8.toNat_ofNat']
  omega

theorem isDigit_digit {d : ℕ} (h : d < 10) : isDigit (UInt8.ofNat (48 + d)) = true := by
  have hnat := toNat_digit h
  unfold isDigit
  rw [Bool.and_eq_true, decide_eq_true_eq, decide_eq_true_eq, UInt8.le_iff_toNat_le,
    UInt8.le_iff_toNat_le, hnat]
  show 48 ≤ 48 + d ∧ 48 + d ≤ 57
  omega

theorem digits_ne_nil (n : ℕ) : digits n ≠ [] := by
  unfold digits
  split_ifs with hzero
  · exact List.cons_ne_nil _ _
  · intro hnil
    rw [List.map_eq_nil_iff, List.reverse_eq_nil_iff, Nat.digits_eq_nil_iff_eq_zero] at hnil
    exact hzero hnil

theorem isDigit_of_mem_digits {c : UInt8} (h : c ∈ digits n) : isDigit c = true := by
  unfold digits at h
  split_ifs at h with hzero
  · rw [List.mem_singleton.mp h]
    decide
  · obtain ⟨d, hd, rfl⟩ := List.mem_map.mp h
    exact isDigit_digit (Nat.digits_lt_base (by decide) (List.mem_reverse.mp hd))

theorem digitsValue_append (s : List UInt8) (c : UInt8) :
    digitsValue (s ++ [c]) = digitsValue s * 10 + (c.toNat - 48) := by
  unfold digitsValue
  rw [List.foldl_append]
  rfl

/-- The digits from the last one on -/
theorem digitsValue_reverse {ds : List ℕ} (h : ∀ d ∈ ds, d < 10) :
    digitsValue (ds.reverse.map fun d => UInt8.ofNat (48 + d)) = Nat.ofDigits 10 ds := by
  induction ds with
  | nil => rfl
  | cons d ds ih =>
    have hd := h d List.mem_cons_self
    rw [List.reverse_cons, List.map_append, List.map_singleton, digitsValue_append,
      ih (fun d' hd' => h d' (List.mem_cons_of_mem _ hd')), toNat_digit hd, Nat.ofDigits_cons]
    omega

theorem digitsValue_digits (n : ℕ) : digitsValue (digits n) = n := by
  unfold digits
  split_ifs with hzero
  · rw [hzero]
    rfl
  · rw [digitsValue_reverse fun d hd => Nat.digits_lt_base (by decide) hd, Nat.ofDigits_digits]

theorem natural?_digits (n : ℕ) : natural? (digits n) = some n := by
  have hall : (digits n).all isDigit = true :=
    List.all_eq_true.mpr fun c hc => isDigit_of_mem_digits hc
  unfold natural?
  rw [if_pos ⟨digits_ne_nil n, hall⟩, digitsValue_digits]

theorem integer?_digits (n : ℕ) : integer? (digits n) = some (n : ℤ) := by
  unfold integer?
  split
  · rename_i s heq
    have hsign := isDigit_of_mem_digits (n := n) (c := 45) (heq ▸ List.mem_cons_self)
    exact absurd hsign (by decide)
  · rw [natural?_digits, Option.map_some]

/-- The number comes back from its text. -/
theorem integer?_numeral (n : ℤ) : integer? (numeral n) = some n := by
  unfold numeral
  split_ifs with hneg
  · show (natural? (digits n.natAbs)).map _ = _
    rw [natural?_digits, Option.map_some]
    congr 1
    omega
  · rw [integer?_digits]
    congr 1
    omega

example : numeral (-1203) = [45, 49, 50, 48, 51] := by decide

end SkynetEureka.Lib
