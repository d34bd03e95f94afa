import Mathlib.Algebra.Order.Group.Nat
import Mathlib.Algebra.GroupWithZero.Nat
import Mathlib.Data.Nat.Basic

/-!
# Lists by blocks

A list is cut into blocks of `n` elements from the front, and each whole block is mapped to a block.
What is left at the end and is no whole block is dropped.
-/

namespace SkynetEureka.Lib

variable {α β γ : Type*} {n : ℕ} {f : List α → List β} {g : List β → List γ} {l s t : List α}

/-- The whole blocks of the list, each one mapped -/
def mapBlocks (n : ℕ) (f : List α → List β) (l : List α) : List β :=
  if _h : 0 < n ∧ n ≤ l.length then f (l.take n) ++ mapBlocks n f (l.drop n) else []
termination_by l.length
decreasing_by
  rw [List.length_drop]
  omega

theorem mapBlocks_short (h : l.length < n) : mapBlocks n f l = [] := by
  rw [mapBlocks, dif_neg (by omega)]

/-- The first block -/
theorem mapBlocks_append (hn : 0 < n) (hs : s.length = n) :
    mapBlocks n f (s ++ t) = f s ++ mapBlocks n f t := by
  have hle : 0 < n ∧ n ≤ (s ++ t).length := by
    rw [List.length_append]
    omega
  rw [mapBlocks, dif_pos hle, List.take_left' hs, List.drop_left' hs]

/-- One block -/
theorem mapBlocks_block (hn : 0 < n) (hs : s.length = n) : mapBlocks n f s = f s := by
  have happend := mapBlocks_append (f := f) (t := []) hn hs
  rw [List.append_nil, mapBlocks_short (l := []) hn, List.append_nil] at happend
  exact happend

/-- A property of all lists, by blocks -/
theorem block_induction {P : List α → Prop} (hn : 0 < n) (short : ∀ l, l.length < n → P l)
    (more : ∀ s t, s.length = n → P t → P (s ++ t)) (l : List α) : P l := by
  induction hlen : l.length using Nat.strong_induction_on generalizing l with
  | _ m ih =>
    rcases Nat.lt_or_ge l.length n with hlt | hge
    · exact short l hlt
    · rw [← List.take_append_drop n l]
      apply more
      · rw [List.length_take]
        omega
      · have hdrop : (l.drop n).length = m - n := by
          rw [List.length_drop, hlen]
        exact ih (m - n) (by omega) _ hdrop

theorem length_mapBlocks (hn : 0 < n) (hf : ∀ s, s.length = n → (f s).length = n) (l : List α) :
    (mapBlocks n f l).length = l.length / n * n := by
  induction l using block_induction hn with
  | short l hlt =>
    rw [mapBlocks_short hlt, Nat.div_eq_of_lt hlt, Nat.zero_mul]
    rfl
  | more s t hs ih =>
    rw [mapBlocks_append hn hs, List.length_append, List.length_append, ih, hf s hs, hs,
      Nat.add_div_left _ hn, Nat.succ_mul, Nat.add_comm]

/-- Blocks that are mapped back, one by one -/
theorem mapBlocks_mapBlocks {f : List α → List α} {g : List α → List α} (hn : 0 < n)
    (hf : ∀ s, s.length = n → (f s).length = n) (hgf : ∀ s, s.length = n → g (f s) = s)
    (hl : n ∣ l.length) : mapBlocks n g (mapBlocks n f l) = l := by
  induction l using block_induction hn with
  | short l hlt =>
    have hnil : l = [] := List.length_eq_zero_iff.mp (Nat.eq_zero_of_dvd_of_lt hl hlt)
    rw [hnil, mapBlocks_short (l := []) hn, mapBlocks_short (l := []) hn]
  | more s t hs ih =>
    have ht : n ∣ t.length := by
      rw [List.length_append, hs] at hl
      exact (Nat.dvd_add_right (Nat.dvd_refl n)).mp hl
    rw [mapBlocks_append hn hs, mapBlocks_append hn (hf s hs), hgf s hs, ih ht]

end SkynetEureka.Lib
