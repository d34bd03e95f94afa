import Mathlib

/-!
# Agendas

Items with a due date, entered one after another, are served date by date, and those of one
date in the order of their entry. `agenda due entered n` is what has been served when date `n`
is over: what a queue sorted by due date hands out.
-/

namespace SkynetEureka.Lib

variable {α : Type*} {due : α → ℕ} {entered : List α} {n : ℕ}

/-- The items that are due on one date. -/
def dueOn (due : α → ℕ) (entered : List α) (n : ℕ) : List α :=
  entered.filter fun x => due x = n

/-- The items served up to and with date `n`, in the order of service. -/
def agenda (due : α → ℕ) (entered : List α) (n : ℕ) : List α :=
  (List.range (n + 1)).flatMap (dueOn due entered)

theorem mem_dueOn {x : α} : x ∈ dueOn due entered n ↔ x ∈ entered ∧ due x = n := by
  rw [dueOn, List.mem_filter, decide_eq_true_iff]

/-- One more date serves the items due on it. -/
theorem agenda_succ :
    agenda due entered (n + 1) = agenda due entered n ++ dueOn due entered (n + 1) := by
  rw [agenda, List.range_succ, List.flatMap_append, List.flatMap_singleton, ← agenda]

theorem dueOn_append_of_ne {x : α} (h : due x ≠ n) :
    dueOn due (entered ++ [x]) n = dueOn due entered n := by
  rw [dueOn, List.filter_append, List.filter_singleton, decide_eq_false h, Bool.cond_false,
    List.append_nil, ← dueOn]

/-- An item that is entered for a later date changes nothing. -/
theorem agenda_append_of_lt {x : α} (h : n < due x) :
    agenda due (entered ++ [x]) n = agenda due entered n := by
  refine List.flatMap_congr fun k hk => dueOn_append_of_ne ?_
  rw [List.mem_range] at hk
  omega

/-- Exactly the items due by now have been served. -/
theorem mem_agenda {x : α} : x ∈ agenda due entered n ↔ x ∈ entered ∧ due x ≤ n := by
  rw [agenda, List.mem_flatMap]
  constructor
  · rintro ⟨k, hk, hx⟩
    obtain ⟨hmem, rfl⟩ := mem_dueOn.mp hx
    exact ⟨hmem, by rw [List.mem_range] at hk; omega⟩
  · rintro ⟨hmem, hle⟩
    exact ⟨due x, List.mem_range.mpr (by omega), mem_dueOn.mpr ⟨hmem, rfl⟩⟩

/-- Service goes by date, and within a date by entry. -/
theorem agenda_pairwise {R : α → α → Prop} (h : entered.Pairwise R) :
    (agenda due entered n).Pairwise fun x y => due x < due y ∨ due x = due y ∧ R x y := by
  rw [agenda, List.pairwise_flatMap]
  constructor
  · intro k _
    refine (h.filter _).imp_of_mem fun {x y} hx hy hxy => Or.inr ⟨?_, hxy⟩
    rw [(mem_dueOn.mp hx).2, (mem_dueOn.mp hy).2]
  · refine List.pairwise_lt_range.imp fun {k l} hkl x hx y hy => Or.inl ?_
    rw [(mem_dueOn.mp hx).2, (mem_dueOn.mp hy).2]
    exact hkl

/-- No item is served twice. -/
theorem agenda_nodup (h : entered.Nodup) : (agenda due entered n).Nodup := by
  have hpair : (agenda due entered n).Pairwise _ := agenda_pairwise h
  refine hpair.imp ?_
  rintro x y (hlt | ⟨-, hne⟩) rfl
  · omega
  · exact hne rfl

end SkynetEureka.Lib
