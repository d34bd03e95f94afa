import Mathlib

/-!
# Growing rings

A ring of `cap` slots holds its items from `head` on, up to `tail`, and goes around at the end.
`push` writes at `tail` and copies a ring that has become full into one of capacity
`grow cap`; `pop` takes the item at `head`. A slot that was never written is `none`.

`r.Holds l` says that the ring `r` represents the list `l`: `push` appends to `l`, `pop` takes
its first item.
-/

namespace SkynetEureka.Lib

variable {α : Type*}

structure RingBuffer (α : Type*) where
  cap : ℕ
  head : ℕ
  tail : ℕ
  slots : ℕ → Option α

namespace RingBuffer

/-- A new ring. -/
def empty (cap : ℕ) : RingBuffer α := ⟨cap, 0, 0, fun _ => none⟩

/-- The copy of a full ring: the items lie in order from slot 0 on. -/
def expand (grow : ℕ → ℕ) (r : RingBuffer α) : RingBuffer α where
  cap := grow r.cap
  head := 0
  tail := r.cap
  slots := fun i => if i < r.cap then r.slots ((r.head + i) % r.cap) else none

def push (grow : ℕ → ℕ) (r : RingBuffer α) (x : α) : RingBuffer α :=
  let r := { r with
    slots := Function.update r.slots r.tail (some x)
    tail := if r.cap ≤ r.tail + 1 then 0 else r.tail + 1 }
  if r.head = r.tail then r.expand grow else r

def pop (r : RingBuffer α) : Option (α × RingBuffer α) :=
  if r.head = r.tail then none
  else (r.slots r.head).map fun x =>
    (x, { r with head := if r.cap ≤ r.head + 1 then 0 else r.head + 1 })

/-- The number of items between `head` and `tail`. -/
def length (r : RingBuffer α) : ℕ :=
  if r.head ≤ r.tail then r.tail - r.head else r.tail + r.cap - r.head

/-- Pop until the ring is empty, at most `n` times. -/
def drain : ℕ → RingBuffer α → List α × RingBuffer α
  | 0, r => ([], r)
  | n + 1, r =>
    match r.pop with
    | none => ([], r)
    | some (x, r') => (x :: (drain n r').1, (drain n r').2)

/-! ## The list of a ring -/

/-- The items of the ring, from `head` to `tail`, are those of the list. -/
structure Holds (r : RingBuffer α) (l : List α) : Prop where
  head_lt : r.head < r.cap
  length_lt : l.length < r.cap
  tail_eq : r.tail = (r.head + l.length) % r.cap
  item : ∀ i, (h : i < l.length) → r.slots ((r.head + i) % r.cap) = some l[i]

/-- Less than one turn from the head, an index goes around the end at most once. -/
theorem add_mod_eq {cap head i : ℕ} (hhead : head < cap) (hi : i ≤ cap) :
    (head + i) % cap = if head + i < cap then head + i else head + i - cap := by
  split
  · exact Nat.mod_eq_of_lt ‹_›
  · rw [Nat.mod_eq_sub_mod (by omega), Nat.mod_eq_of_lt (by omega)]

theorem add_mod_inj {cap head i j : ℕ} (hhead : head < cap) (hi : i < cap) (hj : j < cap)
    (h : (head + i) % cap = (head + j) % cap) : i = j := by
  rw [add_mod_eq hhead hi.le, add_mod_eq hhead hj.le] at h
  split at h <;> split at h <;> omega

/-- One step from an index, with the comparison that the code makes. -/
theorem add_mod_succ {cap head i : ℕ} (hhead : head < cap) (hi : i < cap) :
    (if cap ≤ (head + i) % cap + 1 then 0 else (head + i) % cap + 1) = (head + (i + 1)) % cap := by
  rw [add_mod_eq hhead hi.le, add_mod_eq hhead (by omega)]
  split <;> split <;> split <;> omega

theorem holds_empty {cap : ℕ} (h : 0 < cap) : (empty cap : RingBuffer α).Holds [] where
  head_lt := h
  length_lt := h
  tail_eq := (Nat.zero_mod _).symm
  item := fun _ h => absurd h (Nat.not_lt_zero _)

namespace Holds

variable {r : RingBuffer α} {l : List α}

/-- The ring is empty exactly when `head` meets `tail`. -/
theorem head_eq_tail_iff (h : r.Holds l) : r.head = r.tail ↔ l = [] := by
  have hlt := h.length_lt
  rw [h.tail_eq, add_mod_eq h.head_lt hlt.le, ← List.length_eq_zero_iff]
  have hhead := h.head_lt
  split <;> omega

theorem length_eq (h : r.Holds l) : r.length = l.length := by
  have hhead := h.head_lt
  have hlt := h.length_lt
  unfold length
  rw [h.tail_eq, add_mod_eq hhead hlt.le]
  split <;> split <;> omega

/-- **Push.** The item is appended, whether the ring has to grow or not. -/
theorem push (h : r.Holds l) {grow : ℕ → ℕ} (hgrow : r.cap < grow r.cap) (x : α) :
    (r.push grow x).Holds (l ++ [x]) := by
  have hhead := h.head_lt
  have hlt := h.length_lt
  -- the ring after the store, before the test for a full one
  have hitem : ∀ i, (hi : i < (l ++ [x]).length) →
      Function.update r.slots r.tail (some x) ((r.head + i) % r.cap) = some (l ++ [x])[i] := by
    intro i hi
    rw [List.length_append, List.length_singleton] at hi
    by_cases hil : i < l.length
    · have hne : (r.head + i) % r.cap ≠ r.tail := by
        intro heq
        rw [h.tail_eq] at heq
        have := add_mod_inj hhead (by omega) hlt heq
        omega
      rw [Function.update_of_ne hne, h.item i hil, List.getElem_append_left hil]
    · obtain rfl : i = l.length := by omega
      rw [← h.tail_eq, Function.update_self, List.getElem_concat_length rfl]
  have htail : (if r.cap ≤ r.tail + 1 then 0 else r.tail + 1) =
      (r.head + (l ++ [x]).length) % r.cap := by
    rw [List.length_append, List.length_singleton, h.tail_eq]
    exact add_mod_succ hhead hlt
  unfold RingBuffer.push
  simp only [htail]
  have hmod := add_mod_eq hhead (i := (l ++ [x]).length) (by
    rw [List.length_append, List.length_singleton]
    omega)
  by_cases hfull : (l ++ [x]).length = r.cap
  · rw [if_pos (by rw [hmod]; split <;> omega)]
    refine ⟨by simp only [expand]; omega, by simp only [expand]; omega, ?_, fun i hi => ?_⟩
    · simp only [expand, Nat.zero_add]
      rw [hfull, Nat.mod_eq_of_lt hgrow]
    · have hlast : i < r.cap := by omega
      simp only [expand, Nat.zero_add]
      rw [Nat.mod_eq_of_lt (by omega), if_pos hlast, hitem i hi]
  · have hlen : (l ++ [x]).length < r.cap := by
      rw [List.length_append, List.length_singleton] at hfull ⊢
      omega
    have hpos : 0 < (l ++ [x]).length := by simp
    rw [if_neg (by rw [hmod]; split <;> omega)]
    exact ⟨hhead, hlen, rfl, hitem⟩

theorem pop_nil (h : r.Holds []) : r.pop = none := by
  rw [pop, if_pos (h.head_eq_tail_iff.mpr rfl)]

/-- **Pop.** The first item is taken. -/
theorem pop_cons {x : α} (h : r.Holds (x :: l)) :
    ∃ r', r.pop = some (x, r') ∧ r'.Holds l := by
  have hhead := h.head_lt
  have hlt := h.length_lt
  rw [List.length_cons] at hlt
  have hne : r.head ≠ r.tail := fun heq => List.cons_ne_nil x l (h.head_eq_tail_iff.mp heq)
  have hfirst : r.slots r.head = some x := by
    have := h.item 0 (Nat.zero_lt_succ _)
    rwa [Nat.add_zero, Nat.mod_eq_of_lt hhead, List.getElem_cons_zero] at this
  have hnext : (if r.cap ≤ r.head + 1 then 0 else r.head + 1) = (r.head + 1) % r.cap := by
    rw [add_mod_eq hhead (by omega)]
    split <;> split <;> omega
  have hshift : ∀ i, ((r.head + 1) % r.cap + i) % r.cap = (r.head + (i + 1)) % r.cap := by
    intro i
    rw [Nat.mod_add_mod, Nat.add_assoc, Nat.add_comm 1]
  refine ⟨{ r with head := (r.head + 1) % r.cap }, ?_, ?_, ?_, ?_, fun i hi => ?_⟩
  · rw [pop, if_neg hne, hfirst, Option.map_some, hnext]
  · exact Nat.mod_lt _ (by omega)
  · show l.length < r.cap
    omega
  · show r.tail = ((r.head + 1) % r.cap + l.length) % r.cap
    rw [hshift, h.tail_eq, List.length_cons]
  · show r.slots (((r.head + 1) % r.cap + i) % r.cap) = some l[i]
    rw [hshift, h.item (i + 1) (by rw [List.length_cons]; omega), List.getElem_cons_succ]

/-- Popping often enough hands out the whole list. -/
theorem drain (h : r.Holds l) {n : ℕ} (hn : l.length ≤ n) :
    (r.drain n).1 = l ∧ (r.drain n).2.Holds [] := by
  induction n generalizing r l with
  | zero =>
    obtain rfl : l = [] := List.length_eq_zero_iff.mp (by omega)
    exact ⟨rfl, h⟩
  | succ n ih =>
    cases l with
    | nil =>
      rw [RingBuffer.drain, h.pop_nil]
      exact ⟨rfl, h⟩
    | cons x l =>
      obtain ⟨r', hpop, h'⟩ := h.pop_cons
      obtain ⟨hl, hnil⟩ := ih h' (by rw [List.length_cons] at hn; omega)
      rw [RingBuffer.drain, hpop]
      exact ⟨congrArg (x :: ·) hl, hnil⟩

end Holds

end RingBuffer

end SkynetEureka.Lib
