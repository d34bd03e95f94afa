import Mathlib

/-!
# The first place of a pattern

`indexOf pat l` is the first place of the pattern in the list. What a search finds in the part of a list
that is there so far, it finds at the same place in the whole of it, and the other way round as soon as the
place is in that part.
-/

namespace SkynetEureka.Lib

variable {α : Type} [DecidableEq α]

/-- The first place in the list where the pattern begins. -/
def indexOf (pat : List α) : List α → Option ℕ
  | [] => if pat = [] then some 0 else none
  | a :: l => if pat <+: a :: l then some 0 else (indexOf pat l).map (· + 1)

/-- The first place from `init` on. -/
def indexFrom (pat l : List α) (init : ℕ) : Option ℕ := (indexOf pat (l.drop init)).map (· + init)

variable {pat l l' : List α} {i k : ℕ}

theorem indexOf_eq_some (hpat : pat ≠ []) :
    indexOf pat l = some i ↔ pat <+: l.drop i ∧ ∀ j < i, ¬ pat <+: l.drop j := by
  induction l generalizing i with
  | nil => simp [indexOf, hpat]
  | cons a l ih =>
    rw [indexOf]
    by_cases hhere : pat <+: a :: l
    · rw [if_pos hhere]
      constructor
      · rintro ⟨⟩
        exact ⟨hhere, fun j hj => absurd hj (Nat.not_lt_zero j)⟩
      · rintro ⟨-, hfirst⟩
        cases i with
        | zero => rfl
        | succ i => exact absurd hhere (hfirst 0 (Nat.succ_pos i))
    · rw [if_neg hhere, Option.map_eq_some_iff]
      constructor
      · rintro ⟨i, hi, rfl⟩
        obtain ⟨hat, hfirst⟩ := ih.mp hi
        refine ⟨hat, fun j hj => ?_⟩
        cases j with
        | zero => exact hhere
        | succ j => exact hfirst j (Nat.lt_of_succ_lt_succ hj)
      · rintro ⟨hat, hfirst⟩
        cases i with
        | zero => exact absurd hat hhere
        | succ i => exact ⟨i, ih.mpr ⟨hat, fun j hj => hfirst (j + 1) (Nat.succ_lt_succ hj)⟩, rfl⟩

theorem indexOf_eq_none (hpat : pat ≠ []) : indexOf pat l = none ↔ ∀ i, ¬ pat <+: l.drop i := by
  constructor
  · intro hnone i hi
    -- there is a first place if there is one at all
    have hex : ∃ j, pat <+: l.drop j := ⟨i, hi⟩
    classical
    have hfirst : indexOf pat l = some (Nat.find hex) :=
      (indexOf_eq_some hpat).mpr ⟨Nat.find_spec hex, fun j hj => Nat.find_min hex hj⟩
    rw [hnone] at hfirst
    cases hfirst
  · intro hno
    rw [Option.eq_none_iff_forall_ne_some]
    intro i hi
    exact hno i ((indexOf_eq_some hpat).mp hi).1

/-- The pattern ends in the list. -/
theorem indexOf_le (hpat : pat ≠ []) (h : indexOf pat l = some i) : i + pat.length ≤ l.length := by
  obtain ⟨hat, -⟩ := (indexOf_eq_some hpat).mp h
  have hle := hat.length_le
  have hpos := List.length_pos_of_ne_nil hpat
  rw [List.length_drop] at hle
  omega

omit [DecidableEq α] in
/-- In front of the end of `l`, the pattern is where it is with `l'` behind it. -/
theorem prefix_drop_append (h : i + pat.length ≤ l.length) :
    pat <+: (l ++ l').drop i ↔ pat <+: l.drop i := by
  have hle : pat.length ≤ (l.drop i).length := by
    rw [List.length_drop]
    omega
  rw [List.drop_append_of_le_length (by omega)]
  exact ⟨fun hp => List.prefix_of_prefix_length_le hp (List.prefix_append _ _) hle,
    fun hp => hp.trans (List.prefix_append _ _)⟩

theorem indexOf_append (hpat : pat ≠ []) (h : i + pat.length ≤ l.length) :
    indexOf pat (l ++ l') = some i ↔ indexOf pat l = some i := by
  rw [indexOf_eq_some hpat, indexOf_eq_some hpat, prefix_drop_append h]
  refine and_congr_right fun _ => forall₂_congr fun j hj => ?_
  rw [prefix_drop_append (by omega)]

/-- What is found stays where it is. -/
theorem indexOf_append_of_some (hpat : pat ≠ []) (h : indexOf pat l = some i) :
    indexOf pat (l ++ l') = some i :=
  (indexOf_append hpat (indexOf_le hpat h)).mpr h

/-- What is not found yet is not in the list, or its end is not. -/
theorem indexOf_none_of_append (hpat : pat ≠ []) (h : indexOf pat l = none)
    (h' : indexOf pat (l ++ l') = some i) : l.length < i + pat.length := by
  by_contra hle
  rw [(indexOf_append hpat (Nat.le_of_not_lt hle)).mp h'] at h
  cases h

/-- Where the pattern does not begin in front of `k`, a search may begin there. -/
theorem indexFrom_eq (hpat : pat ≠ []) (hk : ∀ j < k, ¬ pat <+: l.drop j) : indexFrom pat l k = indexOf pat l := by
  have hshift : ∀ i, indexFrom pat l k = some i ↔ indexOf pat l = some i := by
    intro i
    rw [indexFrom, Option.map_eq_some_iff, indexOf_eq_some hpat]
    constructor
    · rintro ⟨j, hj, rfl⟩
      obtain ⟨hat, hfirst⟩ := (indexOf_eq_some hpat).mp hj
      rw [List.drop_drop, Nat.add_comm] at hat
      refine ⟨hat, fun n hn => ?_⟩
      by_cases hnk : n < k
      · exact hk n hnk
      · have := hfirst (n - k) (by omega)
        rwa [List.drop_drop, Nat.add_sub_cancel' (by omega)] at this
    · rintro ⟨hat, hfirst⟩
      have hki : k ≤ i := Nat.le_of_not_lt fun hlt => hk i hlt hat
      refine ⟨i - k, (indexOf_eq_some hpat).mpr ⟨?_, fun n hn => ?_⟩, by omega⟩
      · rwa [List.drop_drop, Nat.add_sub_cancel' hki]
      · rw [List.drop_drop]
        exact hfirst (k + n) (by omega)
  exact Option.ext hshift

/-- Elements with which the pattern does not begin. -/
theorem indexOf_append_of_not_mem {a : α} {p : List α} (h : a ∉ l) :
    indexOf (a :: p) (l ++ l') = (indexOf (a :: p) l').map (· + l.length) := by
  induction l with
  | nil => simp
  | cons b l ih =>
    rw [List.mem_cons, not_or] at h
    have hno : ¬ a :: p <+: b :: (l ++ l') := by
      intro hp
      exact h.1 (List.cons_prefix_cons.mp hp).1
    rw [List.cons_append, indexOf, if_neg hno, ih h.2, Option.map_map, List.length_cons]
    rfl

end SkynetEureka.Lib
