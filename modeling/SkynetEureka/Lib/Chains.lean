import Mathlib

/-!
# Hash tables of chains

A table is a chain of items for every hash value. `key` reads the key of an item and `hash` the
hash value of a key. `link` puts an item in front of its chain; `unlink` walks along the chain of
a key, takes the first item with this key out of it and returns it.

`Holds key hash t m` says that the table `t` represents the map `m` from keys to items, whatever
keys share a chain: `unlink` looks a key up and removes it, `link` adds an item.
-/

namespace SkynetEureka.Lib

open Function

variable {κ α : Type*}

/-- A chain for every hash value. -/
abbrev Chains (α : Type*) := ℕ → List α

namespace Chains

variable [DecidableEq κ] {key : α → κ} {hash : κ → ℕ} {k : κ} {l : List α}

/-- The walk along a chain. -/
def take (key : α → κ) (k : κ) : List α → Option (α × List α)
  | [] => none
  | x :: l => if key x = k then some (x, l) else (take key k l).map fun (y, l) => (y, x :: l)

def unlink (key : α → κ) (hash : κ → ℕ) (t : Chains α) (k : κ) : Option α × Chains α :=
  match take key k (t (hash k)) with
  | none => (none, t)
  | some (x, l) => (some x, update t (hash k) l)

def link (key : α → κ) (hash : κ → ℕ) (t : Chains α) (x : α) : Chains α :=
  update t (hash (key x)) (x :: t (hash (key x)))

/-- The items of the table are those of the map. -/
structure Holds (key : α → κ) (hash : κ → ℕ) (t : Chains α) (m : κ → Option α) : Prop where
  mem : ∀ h x, x ∈ t h ↔ hash (key x) = h ∧ m (key x) = some x
  key_eq : ∀ k x, m k = some x → key x = k
  nodup : ∀ h, ((t h).map key).Nodup

omit [DecidableEq κ] in
theorem holds_empty : Holds key hash (fun _ => []) fun _ => none where
  mem := by simp
  key_eq := by simp
  nodup := fun _ => List.nodup_nil

/-! ## The walk -/

theorem take_eq_none (h : ∀ x ∈ l, key x ≠ k) : take key k l = none := by
  induction l with
  | nil => rfl
  | cons x l ih =>
    rw [take, if_neg (h x (by simp)), ih fun y hy => h y (by simp [hy])]
    rfl

/-- The item with the key is found, and the others stay. -/
theorem take_eq_some (hnodup : (l.map key).Nodup) {x : α} (hx : x ∈ l) (hk : key x = k) :
    ∃ l', take key k l = some (x, l') ∧ (l'.map key).Sublist (l.map key) ∧
      ∀ y, y ∈ l' ↔ y ∈ l ∧ key y ≠ k := by
  induction l with
  | nil => cases hx
  | cons y l ih =>
    rw [List.map_cons, List.nodup_cons] at hnodup
    have hother : ∀ z ∈ l, key z ≠ key y := by
      intro z hz heq
      exact hnodup.1 (heq ▸ List.mem_map_of_mem hz)
    by_cases hy : key y = k
    · have hxy : x = y := by
        obtain hxy | hx := List.mem_cons.mp hx
        · exact hxy
        · exact (hother x hx (hk.trans hy.symm)).elim
      subst hxy
      refine ⟨l, by rw [take, if_pos hy], List.sublist_cons_self .., fun z => ?_⟩
      constructor
      · intro hz
        exact ⟨List.mem_cons_of_mem _ hz, hy ▸ hother z hz⟩
      · rintro ⟨hz, hne⟩
        obtain rfl | hz := List.mem_cons.mp hz
        · exact (hne hy).elim
        · exact hz
    · have hx : x ∈ l := by
        obtain rfl | hx := List.mem_cons.mp hx
        · exact (hy hk).elim
        · exact hx
      obtain ⟨l', hl', hsub, hmem⟩ := ih hnodup.2 hx
      refine ⟨y :: l', by rw [take, if_neg hy, hl']; rfl, hsub.cons_cons _, fun z => ?_⟩
      rw [List.mem_cons, List.mem_cons, hmem]
      constructor
      · rintro (rfl | ⟨hz, hne⟩)
        · exact ⟨.inl rfl, hy⟩
        · exact ⟨.inr hz, hne⟩
      · rintro ⟨rfl | hz, hne⟩
        · exact .inl rfl
        · exact .inr ⟨hz, hne⟩

/-! ## The operations -/

namespace Holds

variable {t : Chains α} {m : κ → Option α}

/-- **Unlink** returns the item of the key and removes it. -/
theorem unlink (h : Holds key hash t m) (k : κ) :
    ∃ t', Chains.unlink key hash t k = (m k, t') ∧ Holds key hash t' (update m k none) := by
  cases hm : m k with
  | none =>
    have hnone : take key k (t (hash k)) = none := by
      apply take_eq_none
      intro x hx hk
      have hmx := ((h.mem _ _).mp hx).2
      rw [hk, hm] at hmx
      cases hmx
    refine ⟨t, by rw [Chains.unlink, hnone], ?_⟩
    rw [← hm, update_eq_self]
    exact h
  | some x =>
    have hk := h.key_eq _ _ hm
    have hx : x ∈ t (hash k) := (h.mem _ _).mpr ⟨by rw [hk], by rw [hk, hm]⟩
    obtain ⟨l, hl, hsub, hmem⟩ := take_eq_some (h.nodup (hash k)) hx hk
    refine ⟨update t (hash k) l, by rw [Chains.unlink, hl], ?_, ?_, ?_⟩
    · intro i y
      by_cases hy : key y = k
      · rw [hy, update_self]
        by_cases hi : i = hash k
        · subst hi
          simp [hmem, hy]
        · rw [update_of_ne hi, h.mem, hy]
          simp [Ne.symm hi]
      · rw [update_of_ne hy]
        by_cases hi : i = hash k
        · subst hi
          rw [update_self, hmem, h.mem]
          simp [hy]
        · rw [update_of_ne hi, h.mem]
    · intro j y hy
      by_cases hj : j = k
      · subst hj
        rw [update_self] at hy
        cases hy
      · rw [update_of_ne hj] at hy
        exact h.key_eq _ _ hy
    · intro i
      by_cases hi : i = hash k
      · subst hi
        rw [update_self]
        exact (h.nodup _).sublist hsub
      · rw [update_of_ne hi]
        exact h.nodup i

/-- **Link** adds an item with a new key. -/
theorem link (h : Holds key hash t m) {x : α} (hnew : m (key x) = none) :
    Holds key hash (Chains.link key hash t x) (update m (key x) (some x)) where
  mem := by
    intro i y
    by_cases hy : key y = key x
    · rw [hy, update_self]
      have hold : y ∉ t (hash (key x)) := by
        intro hmem
        have hmy := ((h.mem _ _).mp hmem).2
        rw [hy, hnew] at hmy
        cases hmy
      by_cases hi : i = hash (key x)
      · subst hi
        rw [Chains.link, update_self, List.mem_cons]
        simp [hold, eq_comm]
      · rw [Chains.link, update_of_ne hi, h.mem, hy]
        simp [Ne.symm hi]
    · rw [update_of_ne hy]
      by_cases hi : i = hash (key x)
      · subst hi
        have hne : y ≠ x := fun heq => hy (heq ▸ rfl)
        rw [Chains.link, update_self, List.mem_cons, h.mem]
        simp [hne]
      · rw [Chains.link, update_of_ne hi, h.mem]
  key_eq := by
    intro j y hy
    by_cases hj : j = key x
    · subst hj
      rw [update_self] at hy
      rw [Option.some.inj hy]
    · rw [update_of_ne hj] at hy
      exact h.key_eq _ _ hy
  nodup := by
    intro i
    by_cases hi : i = hash (key x)
    · subst hi
      rw [Chains.link, update_self, List.map_cons, List.nodup_cons]
      refine ⟨fun hmem => ?_, h.nodup _⟩
      obtain ⟨y, hy, hkey⟩ := List.mem_map.mp hmem
      have hmy := ((h.mem _ _).mp hy).2
      rw [hkey, hnew] at hmy
      cases hmy
    · rw [Chains.link, update_of_ne hi]
      exact h.nodup i

end Holds

end Chains

end SkynetEureka.Lib
