import Mathlib

/-!
# Linked lists in a memory

`next a` is the pointer that the record at `a` has, `none` the null pointer. `Linked next p l` says
that the pointer `p` leads along the records of `l`, in this order, to the null pointer.
-/

namespace SkynetEureka.Lib

open Function

/-- The pointer leads along the list to its end. -/
def Linked (next : ℕ → Option ℕ) : Option ℕ → List ℕ → Prop
  | p, [] => p = none
  | p, a :: l => p = some a ∧ Linked next (next a) l

namespace Linked

variable {next next' : ℕ → Option ℕ} {p : Option ℕ} {a t : ℕ} {l : List ℕ}

theorem nil_iff : Linked next p [] ↔ p = none := Iff.rfl

theorem cons_iff : Linked next p (a :: l) ↔ p = some a ∧ Linked next (next a) l := Iff.rfl

/-- The list of the null pointer -/
theorem eq_nil (h : Linked next none l) : l = [] := by
  cases l with
  | nil => rfl
  | cons a l => cases h.1

/-- The list of a pointer to a record -/
theorem exists_cons (h : Linked next (some a) l) :
    ∃ l', l = a :: l' ∧ Linked next (next a) l' := by
  cases l with
  | nil => cases h
  | cons b l =>
    obtain ⟨heq, htail⟩ := h
    cases heq
    exact ⟨l, rfl, htail⟩

/-- What is written outside of the list is no matter. -/
theorem congr (h : Linked next p l) (hsame : ∀ a ∈ l, next' a = next a) : Linked next' p l := by
  induction l generalizing p with
  | nil => exact h
  | cons a l ih =>
    obtain ⟨hp, htail⟩ := h
    refine ⟨hp, ?_⟩
    rw [hsame a List.mem_cons_self]
    exact ih htail fun b hb => hsame b (List.mem_cons_of_mem _ hb)

/-- A record is appended: the last one gets a pointer to it. -/
theorem concat (h : Linked next p (l ++ [t])) (hlast : next' t = some a) (hnull : next' a = none)
    (hsame : ∀ b ∈ l, next' b = next b) : Linked next' p (l ++ [t] ++ [a]) := by
  induction l generalizing p with
  | nil => exact ⟨h.1, hlast, hnull⟩
  | cons b l ih =>
    obtain ⟨hp, htail⟩ := h
    refine ⟨hp, ?_⟩
    rw [hsame b List.mem_cons_self]
    exact ih htail fun c hc => hsame c (List.mem_cons_of_mem _ hc)

/-- The record behind another one is taken out. -/
theorem unlink {b c : ℕ} {m : List ℕ} (h : Linked next p (l ++ c :: b :: m))
    (hnodup : (l ++ c :: b :: m).Nodup) (hc : next' c = next b)
    (hsame : ∀ a ≠ c, next' a = next a) : Linked next' p (l ++ c :: m) := by
  induction l generalizing p with
  | nil =>
    obtain ⟨hp, hb, htail⟩ := h
    have hcm : c ∉ m := fun hmem =>
      (List.nodup_cons.mp hnodup).1 (List.mem_cons_of_mem b hmem)
    refine ⟨hp, ?_⟩
    rw [hc]
    exact htail.congr fun a ha => hsame a fun heq => hcm (heq ▸ ha)
  | cons a l ih =>
    obtain ⟨hp, htail⟩ := h
    obtain ⟨ha, hrest⟩ := List.nodup_cons.mp hnodup
    refine ⟨hp, ?_⟩
    rw [hsame a fun heq => ha (by rw [heq]; simp)]
    exact ih htail hrest

/-- Records that lie one behind the other, each with a pointer to its successor -/
theorem range' {n : ℕ}
    (hnext : ∀ i < n, next (a + i) = if i + 1 < n then some (a + i + 1) else none)
    (hpos : 0 < n) : Linked next (some a) (List.range' a n) := by
  induction n generalizing a with
  | zero => omega
  | succ n ih =>
    refine ⟨rfl, ?_⟩
    have hfirst := hnext 0 hpos
    rw [Nat.add_zero] at hfirst
    rw [hfirst]
    by_cases hn : 0 < n
    · rw [if_pos (by omega)]
      apply ih _ hn
      intro i hi
      have := hnext (i + 1) (by omega)
      rw [show a + 1 + i = a + (i + 1) by omega, this]
      by_cases hlt : i + 1 < n
      · rw [if_pos hlt, if_pos (by omega)]
      · rw [if_neg hlt, if_neg (by omega)]
    · rw [if_neg (by omega), show n = 0 by omega]
      rfl

end Linked

end SkynetEureka.Lib
