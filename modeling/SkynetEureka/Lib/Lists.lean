import Mathlib

/-!
# Lists that stand for an array of records

A record is its index: a new one comes at the end, and one is changed in its place. Each lemma says
what an index may give after such a change.
-/

namespace SkynetEureka.Lib

variable {α : Type*} {l : List α} {i j : ℕ} {a b : α} {f : α → α}

/-- An index of a list with one more at its end. -/
theorem getElem?_concat_cases (h : (l ++ [a])[j]? = some b) :
    l[j]? = some b ∨ j = l.length ∧ b = a := by
  rcases Nat.lt_or_ge j l.length with hlt | hge
  · rw [List.getElem?_append_left hlt] at h
    exact .inl h
  · rw [List.getElem?_append_right hge] at h
    obtain ⟨hlt, heq⟩ := List.getElem?_eq_some_iff.mp h
    rw [List.length_singleton] at hlt
    rw [List.getElem_singleton] at heq
    exact .inr ⟨by omega, heq.symm⟩

theorem getElem?_concat_of_eq_some (h : l[j]? = some b) : (l ++ [a])[j]? = some b := by
  rw [List.getElem?_append_left (List.getElem?_eq_some_iff.mp h).1]
  exact h

/-- An index of a list in which one is changed. -/
theorem getElem?_modify_cases (hget : l[i]? = some a) (h : (l.modify i f)[j]? = some b) :
    j = i ∧ b = f a ∨ j ≠ i ∧ l[j]? = some b := by
  by_cases hj : j = i
  · subst hj
    rw [List.getElem?_modify_eq, hget] at h
    exact .inl ⟨rfl, (Option.some.inj h).symm⟩
  · rw [List.getElem?_modify_ne f _ (Ne.symm hj)] at h
    exact .inr ⟨hj, h⟩

/-- An index of a list in which one is replaced. -/
theorem getElem?_set_cases (h : (l.set i a)[j]? = some b) :
    j = i ∧ b = a ∨ j ≠ i ∧ l[j]? = some b := by
  by_cases hj : j = i
  · subst hj
    obtain ⟨hlt, heq⟩ := List.getElem?_eq_some_iff.mp h
    rw [List.getElem_set_self] at heq
    exact .inl ⟨rfl, heq.symm⟩
  · rw [List.getElem?_set_ne (Ne.symm hj)] at h
    exact .inr ⟨hj, h⟩

/-- The record of an index, and the others -/
theorem perm_cons_eraseIdx (h : l[i]? = some a) : l.Perm (a :: l.eraseIdx i) := by
  obtain ⟨hlt, rfl⟩ := List.getElem?_eq_some_iff.mp h
  exact (List.getElem_cons_eraseIdx_perm hlt).symm

/-- A record takes the place of another. -/
theorem cons_set_perm (h : l[i]? = some b) : (b :: l.set i a).Perm (a :: l) := by
  obtain ⟨hlt, rfl⟩ := List.getElem?_eq_some_iff.mp h
  have hset := (List.set_perm_cons_eraseIdx hlt a).cons l[i]
  refine hset.trans ((List.Perm.swap _ _ _).trans ?_)
  exact (List.getElem_cons_eraseIdx_perm hlt).cons a

/-- A value that each record has at most once, and only records of one kind have, is not more
frequent than the records of that kind. -/
theorem count_flatMap_le {β γ : Type*} [BEq β] [LawfulBEq β] [BEq γ] [LawfulBEq γ]
    {f : α → β} {g : α → List γ} {x : γ} {y : β} (hle : ∀ a ∈ l, (g a).count x ≤ 1)
    (hkind : ∀ a ∈ l, x ∈ g a → f a = y) : (l.flatMap g).count x ≤ (l.map f).count y := by
  induction l with
  | nil => exact le_rfl
  | cons a l ih =>
    have hl := ih (fun b hb => hle b (List.mem_cons_of_mem _ hb))
      fun b hb => hkind b (List.mem_cons_of_mem _ hb)
    have ha := hle a List.mem_cons_self
    rw [List.flatMap_cons, List.count_append, List.map_cons, List.count_cons]
    by_cases hx : x ∈ g a
    · rw [if_pos (beq_iff_eq.mpr (hkind a List.mem_cons_self hx))]
      omega
    · rw [List.count_eq_zero.mpr hx]
      omega

/-- The first record of a kind is taken out, or a record of none. -/
theorem filterMap_eraseIdx {β : Type*} {g : α → Option β} (hget : l[i]? = some a)
    (hfirst : ∀ b ∈ g a, ∀ j < i, ∀ a', l[j]? = some a' → g a' = none) :
    l.filterMap g = (g a).toList ++ (l.eraseIdx i).filterMap g := by
  induction l generalizing i with
  | nil => cases hget
  | cons x l ih =>
    cases i with
    | zero =>
      cases hget
      rw [List.eraseIdx_zero, List.tail_cons, List.filterMap_cons]
      cases g a <;> rfl
    | succ i =>
      have hrest := ih hget fun b hb j hj a' ha' =>
        hfirst b hb (j + 1) (Nat.succ_lt_succ hj) a' ha'
      rw [List.eraseIdx_cons_succ, List.filterMap_cons, List.filterMap_cons]
      cases ha : g a with
      | none =>
        rw [ha] at hrest
        cases g x with
        | none => exact hrest
        | some y => exact congrArg (y :: ·) hrest
      | some b =>
        rw [ha] at hrest
        rw [hfirst b ha 0 (Nat.succ_pos i) x rfl]
        exact hrest

/-- A record is replaced by one that is as good. -/
theorem filterMap_set {β : Type*} {g : α → Option β} (hget : l[i]? = some a) (heq : g b = g a) :
    (l.set i b).filterMap g = l.filterMap g := by
  induction l generalizing i with
  | nil => rfl
  | cons x l ih =>
    cases i with
    | zero =>
      cases hget
      rw [List.set_cons_zero, List.filterMap_cons, List.filterMap_cons, heq]
    | succ i =>
      rw [List.set_cons_succ, List.filterMap_cons, List.filterMap_cons, ih hget]

/-- Each record is replaced by one that is as good. -/
theorem filterMap_mapIdx {β : Type*} {g : α → Option β} {f : ℕ → α → α}
    (heq : ∀ i a, l[i]? = some a → g (f i a) = g a) : (l.mapIdx f).filterMap g = l.filterMap g := by
  induction l generalizing f with
  | nil => rfl
  | cons x l ih =>
    rw [List.mapIdx_cons, List.filterMap_cons, List.filterMap_cons, heq 0 x rfl,
      ih fun i a ha => heq (i + 1) a ha]

end SkynetEureka.Lib
