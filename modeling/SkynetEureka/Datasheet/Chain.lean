import Mathlib

/-!
# Counting the references of a chain of versions

Version `w + 1` comes after version `w`. Each holder passes through the versions one after the other,
from the one it comes in with; `rests` has the oldest version that each has not given back. A new
version starts with the count of the version before it: everybody who has not given this one back will
come to the new one.
-/

namespace SkynetEureka.Datasheet

open Function

variable {latest : Option ℕ} {rests rests' : List ℕ} {ref : ℕ → Option ℤ} {L r w : ℕ} {n : ℤ}

/-- How many have not given `w` back, or will come to it. -/
def holders (rests : List ℕ) (w : ℕ) : ℕ := rests.countP (· ≤ w)

/-- `ref` counts the holders of each version, until it is forgotten. -/
structure Counted (latest : Option ℕ) (rests : List ℕ) (ref : ℕ → Option ℤ) : Prop where
  counted : ∀ w n, ref w = some n → n = holders rests w
  gone : ∀ L ∈ latest, ∀ w ≤ L, ref w = none → holders rests w = 0
  later : ∀ w, (∀ L ∈ latest, L < w) → ref w = none
  le : ∀ r ∈ rests, ∃ L ∈ latest, r ≤ L

theorem holders_cons : holders (r :: rests) w = holders rests w + if r ≤ w then 1 else 0 := by
  unfold holders
  rw [List.countP_cons]
  simp

theorem holders_perm (h : rests'.Perm rests) : holders rests' w = holders rests w := h.countP_eq _

theorem holders_pos (hr : r ∈ rests) (hle : r ≤ w) : 0 < holders rests w :=
  List.countP_pos_iff.mpr ⟨r, hr, decide_eq_true hle⟩

theorem Counted.perm (h : Counted latest rests ref) (hperm : rests'.Perm rests) :
    Counted latest rests' ref := by
  refine ⟨?_, ?_, h.later, fun r hr => h.le r (hperm.mem_iff.mp hr)⟩
  · intro w n hn
    rw [holders_perm hperm]
    exact h.counted w n hn
  · intro L hL w hw hnone
    rw [holders_perm hperm]
    exact h.gone L hL w hw hnone

/-- A version that somebody has is there. -/
theorem Counted.alive (h : Counted (some L) rests ref) (hr : r ∈ rests) (hle : r ≤ w) (hw : w ≤ L) :
    ∃ n, ref w = some n ∧ 0 < n ∧ n = holders rests w := by
  have hpos := holders_pos hr hle
  cases hn : ref w with
  | none =>
    have hzero := h.gone L rfl w hw hn
    omega
  | some n =>
    have heq := h.counted w n hn
    exact ⟨n, rfl, by omega, heq⟩

/-- The first version -/
theorem Counted.create (h : Counted none rests ref) :
    Counted (some 0) (0 :: rests) (update ref 0 (some 1)) := by
  have hnil : rests = [] := by
    refine List.eq_nil_iff_forall_not_mem.mpr fun r hr => ?_
    obtain ⟨L, hL, -⟩ := h.le r hr
    cases hL
  have hnone : ∀ w, w ≠ 0 → update ref 0 (some (1 : ℤ)) w = none := by
    intro w hw
    rw [update_of_ne hw]
    exact h.later w nofun
  rw [hnil]
  refine ⟨?_, ?_, ?_, ?_⟩
  · intro w n hn
    by_cases hw : w = 0
    · subst hw
      rw [update_self] at hn
      cases hn
      rfl
    · rw [hnone w hw] at hn
      cases hn
  · rintro L hL w hw hn
    cases hL
    obtain rfl : w = 0 := Nat.le_zero.mp hw
    rw [update_self] at hn
    cases hn
  · intro w hw
    exact hnone w (hw 0 rfl).ne'
  · intro r hr
    exact ⟨0, rfl, (List.mem_singleton.mp hr).le⟩

/-- The next version -/
theorem Counted.extend (h : Counted (some L) rests ref) (hn : ref L = some n) :
    Counted (some (L + 1)) rests (update ref (L + 1) (some n)) := by
  have hall : ∀ w, L ≤ w → holders rests w = rests.length := by
    intro w hw
    refine List.countP_eq_length.mpr fun r hr => ?_
    obtain ⟨L', hL', hle⟩ := h.le r hr
    cases hL'
    exact decide_eq_true (hle.trans hw)
  refine ⟨?_, ?_, ?_, ?_⟩
  · intro w m hm
    by_cases hw : w = L + 1
    · subst hw
      rw [update_self] at hm
      cases hm
      rw [h.counted L n hn, hall L le_rfl, hall (L + 1) (Nat.le_succ L)]
    · rw [update_of_ne hw] at hm
      exact h.counted w m hm
  · rintro _ ⟨⟩ w hw hnone
    by_cases heq : w = L + 1
    · subst heq
      rw [update_self] at hnone
      cases hnone
    · rw [update_of_ne heq] at hnone
      exact h.gone L rfl w (by omega) hnone
  · intro w hw
    have hlt := hw (L + 1) rfl
    rw [update_of_ne hlt.ne']
    refine h.later w ?_
    rintro _ ⟨⟩
    omega
  · intro r hr
    obtain ⟨L', hL', hle⟩ := h.le r hr
    cases hL'
    exact ⟨L + 1, rfl, hle.trans (Nat.le_succ L)⟩

/-- Somebody comes in with the latest version. -/
theorem Counted.join (h : Counted (some L) rests ref) (hn : ref L = some n) :
    Counted (some L) (L :: rests) (update ref L (some (n + 1))) := by
  refine ⟨?_, ?_, ?_, ?_⟩
  · intro w m hm
    rw [holders_cons]
    by_cases hw : w = L
    · subst hw
      rw [update_self] at hm
      cases hm
      rw [h.counted w n hn, if_pos le_rfl]
      rfl
    · rw [update_of_ne hw] at hm
      have hlt : ¬L ≤ w := by
        intro hle
        have hnone := h.later w (by rintro _ ⟨⟩; omega)
        rw [hnone] at hm
        cases hm
      rw [if_neg hlt]
      exact h.counted w m hm
  · rintro _ ⟨⟩ w hw hnone
    by_cases heq : w = L
    · subst heq
      rw [update_self] at hnone
      cases hnone
    · rw [update_of_ne heq] at hnone
      rw [holders_cons, if_neg (by omega)]
      exact h.gone L rfl w hw hnone
  · intro w hw
    rw [update_of_ne (hw L rfl).ne']
    exact h.later w hw
  · intro r hr
    rcases List.mem_cons.mp hr with rfl | hold
    · exact ⟨r, rfl, le_rfl⟩
    · exact h.le r hold

/-- Somebody gives a version back, which is forgotten with its last reference or is kept. -/
theorem Counted.advance (h : Counted (some L) (r :: rests) ref) (hlt : r < L) (hn : ref r = some n)
    {o : Option ℤ} (ho : o = some (n - 1) ∨ o = none ∧ n - 1 = 0) :
    Counted (some L) ((r + 1) :: rests) (update ref r o) := by
  have hsame : ∀ w, w ≠ r → holders ((r + 1) :: rests) w = holders (r :: rests) w := by
    intro w hw
    rw [holders_cons, holders_cons]
    by_cases hle : r + 1 ≤ w
    · rw [if_pos hle, if_pos (by omega)]
    · rw [if_neg hle, if_neg (by omega)]
  have hone : (holders ((r + 1) :: rests) r : ℤ) = n - 1 := by
    have heq := h.counted r n hn
    rw [holders_cons, if_pos le_rfl] at heq
    rw [holders_cons, if_neg (by omega)]
    omega
  refine ⟨?_, ?_, ?_, ?_⟩
  · intro w m hm
    by_cases hw : w = r
    · subst hw
      rw [update_self] at hm
      rcases ho with rfl | ⟨rfl, -⟩
      · cases hm
        exact hone.symm
      · cases hm
    · rw [update_of_ne hw] at hm
      rw [hsame w hw]
      exact h.counted w m hm
  · rintro _ ⟨⟩ w hw hnone
    by_cases heq : w = r
    · subst heq
      rw [update_self] at hnone
      rcases ho with rfl | ⟨-, hzero⟩
      · cases hnone
      · omega
    · rw [update_of_ne heq] at hnone
      rw [hsame w heq]
      exact h.gone L rfl w hw hnone
  · intro w hw
    have hw' := hw L rfl
    rw [update_of_ne (by omega)]
    exact h.later w hw
  · intro r' hr'
    rcases List.mem_cons.mp hr' with rfl | hold
    · exact ⟨L, rfl, hlt⟩
    · exact h.le r' (List.mem_cons_of_mem _ hold)

/-- A version without references is forgotten. -/
theorem Counted.forget (h : Counted latest rests ref) (hn : ref w = some 0) :
    Counted latest rests (update ref w none) := by
  refine ⟨?_, ?_, ?_, h.le⟩
  · intro w' m hm
    by_cases hw : w' = w
    · subst hw
      rw [update_self] at hm
      cases hm
    · rw [update_of_ne hw] at hm
      exact h.counted w' m hm
  · intro L hL w' hw' hnone
    by_cases heq : w' = w
    · subst heq
      have hzero := h.counted w' 0 hn
      omega
    · rw [update_of_ne heq] at hnone
      exact h.gone L hL w' hw' hnone
  · intro w' hw'
    by_cases heq : w' = w
    · subst heq
      exact update_self _ _ _
    · rw [update_of_ne heq]
      exact h.later w' hw'

end SkynetEureka.Datasheet
