import Mathlib

/-!
# The 0 pack format

A stream is a sequence of segments. The header of a segment has one bit for each of its 8 bytes:
the bytes of the set bits follow, the others are zero. The header `0xff` starts an FF block
instead: a count byte, and one segment more than the count, as they are.

* `segment`: what the first segment of a stream unpacks to, and the rest of the stream;
* `whole`: what the whole segments of a stream unpack to, and what is left behind them;
* `packed`: the packing of a list of segments, which `whole` takes apart again.
-/

namespace SkynetEureka.Sproto

/-! ## Segments -/

/-- The header says that byte `i` of its segment follows. -/
abbrev marked (header : UInt8) (i : ℕ) : Prop := (header >>> UInt8.ofNat i) &&& 1 = 1

/-- How many of the given bytes follow the header. -/
def weight (header : UInt8) (is : List ℕ) : ℕ := is.countP fun i => marked header i

/-- The given bytes of a segment, where `l` follows the header. -/
def spread (header : UInt8) : List ℕ → List UInt8 → List UInt8
  | [], _ => []
  | i :: is, l =>
    if marked header i then l.headD 0 :: spread header is l.tail else 0 :: spread header is l

/-- The place of the first byte that is missing when `k` bytes follow the header. -/
def missing (header : UInt8) : List ℕ → ℕ → ℕ
  | [], _ => 0
  | i :: is, k =>
    if marked header i then
      if k = 0 then 0 else missing header is (k - 1) + 1
    else missing header is k + 1

/-- What the first segment of a stream unpacks to, and the rest of the stream. -/
def segment : List UInt8 → Option (List UInt8 × List UInt8)
  | [] => none
  | header :: rest =>
    if header = 0xff then
      match rest with
      | [] => none
      | count :: rest =>
        let n := (count.toNat + 1) * 8
        if rest.length < n then none else some (rest.take n, rest.drop n)
    else
      let n := weight header (List.range 8)
      if rest.length < n then none else some (spread header (List.range 8) rest, rest.drop n)

@[simp] theorem length_spread (header : UInt8) (is : List ℕ) (l : List UInt8) :
    (spread header is l).length = is.length := by
  induction is generalizing l with
  | nil => rfl
  | cons i is ih =>
    unfold spread
    split <;> rw [List.length_cons, List.length_cons, ih]

theorem weight_cons (header : UInt8) (i : ℕ) (is : List ℕ) :
    weight header (i :: is) = weight header is + if marked header i then 1 else 0 := by
  unfold weight
  rw [List.countP_cons]
  simp only [decide_eq_true_eq]

theorem spread_cons (header : UInt8) (i : ℕ) (is : List ℕ) (l : List UInt8) :
    spread header (i :: is) l = [if marked header i then l.headD 0 else 0] ++
      spread header is (l.drop (weight header [i])) := by
  rw [weight_cons, weight, List.countP_nil, Nat.zero_add, spread]
  by_cases hi : marked header i
  · rw [if_pos hi, if_pos hi, if_pos hi, List.drop_one]
    rfl
  · rw [if_neg hi, if_neg hi, if_neg hi, List.drop_zero]
    rfl

theorem weight_le (header : UInt8) (is : List ℕ) : weight header is ≤ is.length :=
  List.countP_le_length

/-- The bytes behind those of the header do not matter. -/
theorem spread_append {header : UInt8} :
    ∀ {is : List ℕ} {l : List UInt8}, l.length = weight header is → ∀ rest,
      spread header is (l ++ rest) = spread header is l
  | [], _, _, _ => rfl
  | i :: is, l, hl, rest => by
    rw [weight_cons] at hl
    unfold spread
    by_cases hi : marked header i
    · rw [if_pos hi] at hl
      rw [if_pos hi, if_pos hi]
      obtain ⟨c, l', rfl⟩ := List.exists_cons_of_length_pos (by omega : 0 < l.length)
      rw [List.length_cons] at hl
      rw [List.cons_append, List.headD_cons, List.tail_cons, List.headD_cons, List.tail_cons,
        spread_append (by omega) rest]
    · rw [if_neg hi] at hl
      rw [if_neg hi, if_neg hi, spread_append (by omega) rest]

/-- The first byte that is missing, and what stands before and behind it. -/
theorem missing_split {header : UInt8} {is : List ℕ} {k : ℕ} (h : k < weight header is) :
    ∃ is₁ i is₂, is = is₁ ++ i :: is₂ ∧ marked header i ∧ weight header is₁ = k ∧
      is₁.length = missing header is k := by
  induction is generalizing k with
  | nil =>
    rw [weight, List.countP_nil] at h
    omega
  | cons i is ih =>
    rw [weight_cons] at h
    unfold missing
    by_cases hi : marked header i
    · rw [if_pos hi] at h ⊢
      by_cases hk : k = 0
      · rw [if_pos hk]
        exact ⟨[], i, is, rfl, hi, hk.symm, rfl⟩
      · rw [if_neg hk]
        obtain ⟨is₁, j, is₂, rfl, hj, hw, hlen⟩ := ih (k := k - 1) (by omega)
        refine ⟨i :: is₁, j, is₂, rfl, hj, ?_, ?_⟩
        · rw [weight_cons, if_pos hi]
          omega
        · rw [List.length_cons, hlen]
    · rw [if_neg hi] at h ⊢
      obtain ⟨is₁, j, is₂, rfl, hj, hw, hlen⟩ := ih (k := k) (by omega)
      refine ⟨i :: is₁, j, is₂, rfl, hj, ?_, ?_⟩
      · rw [weight_cons, if_neg hi]
        omega
      · rw [List.length_cons, hlen]

theorem weight_append (header : UInt8) (is is' : List ℕ) :
    weight header (is ++ is') = weight header is + weight header is' :=
  List.countP_append

theorem segment_ff (count : UInt8) (rest : List UInt8) :
    segment (0xff :: count :: rest) =
      if rest.length < (count.toNat + 1) * 8 then none
      else some (rest.take ((count.toNat + 1) * 8), rest.drop ((count.toNat + 1) * 8)) := by
  simp only [segment, if_true]

theorem segment_plain {header : UInt8} (hff : header ≠ 0xff) (rest : List UInt8) :
    segment (header :: rest) =
      if rest.length < weight header (List.range 8) then none
      else some (spread header (List.range 8) rest,
        rest.drop (weight header (List.range 8))) :=
  if_neg hff

/-- A segment takes its header at least, and unpacks to a multiple of 8 bytes. -/
theorem segment_some {b u rest : List UInt8} (h : segment b = some (u, rest)) :
    rest.length < b.length ∧ u.length % 8 = 0 := by
  cases b with
  | nil => cases h
  | cons header l =>
    by_cases hff : header = 0xff
    · subst hff
      cases l with
      | nil => cases h
      | cons count l =>
        rw [segment_ff, Option.ite_none_left_eq_some] at h
        obtain ⟨hlen, h⟩ := h
        cases h
        rw [List.length_drop, List.length_take, List.length_cons, List.length_cons]
        omega
    · rw [segment_plain hff, Option.ite_none_left_eq_some] at h
      obtain ⟨hlen, h⟩ := h
      cases h
      rw [List.length_drop, List.length_cons, length_spread, List.length_range]
      omega

/-! ## Streams -/

/-- What the whole segments of a stream unpack to, and what is left behind them: nothing, or a
segment that is cut short. -/
def whole (b : List UInt8) : List UInt8 × List UInt8 :=
  match _h : segment b with
  | none => ([], b)
  | some (u, rest) => (u ++ (whole rest).1, (whole rest).2)
termination_by b.length
decreasing_by all_goals exact (segment_some ‹_›).1

theorem whole_of_none {b : List UInt8} (h : segment b = none) : whole b = ([], b) := by
  unfold whole
  split
  · rfl
  · rename_i h'
    rw [h] at h'
    cases h'

theorem whole_of_some {b u rest : List UInt8} (h : segment b = some (u, rest)) :
    whole b = (u ++ (whole rest).1, (whole rest).2) := by
  rw [whole]
  split
  · rename_i h'
    rw [h] at h'
    cases h'
  · rename_i h'
    rw [h] at h'
    cases h'
    rfl

@[simp] theorem whole_nil : whole [] = ([], []) := whole_of_none rfl

/-- Follow a stream from segment to segment. -/
theorem stream_induction {P : List UInt8 → Prop} (stop : ∀ b, segment b = none → P b)
    (next : ∀ b u rest, segment b = some (u, rest) → P rest → P b) (b : List UInt8) : P b := by
  induction h : b.length using Nat.strong_induction_on generalizing b with
  | _ n ih =>
    cases hb : segment b with
    | none => exact stop b hb
    | some p =>
      obtain ⟨u, rest⟩ := p
      exact next b u rest hb (ih rest.length (h ▸ (segment_some hb).1) rest rfl)

/-- What is left is not a whole segment. -/
theorem segment_whole (b : List UInt8) : segment (whole b).2 = none := by
  induction b using stream_induction with
  | stop b h => rw [whole_of_none h]; exact h
  | next b u rest h ih => rw [whole_of_some h]; exact ih

theorem whole_mod (b : List UInt8) : (whole b).1.length % 8 = 0 := by
  induction b using stream_induction with
  | stop b h => rw [whole_of_none h]; rfl
  | next b u rest h ih =>
    have := (segment_some h).2
    rw [whole_of_some h, List.length_append]
    omega

end SkynetEureka.Sproto
