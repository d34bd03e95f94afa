import Mathlib.Logic.Function.Basic
import Mathlib.Data.List.Basic
import Mathlib.Data.Int.Basic
import Mathlib.Data.Int.Notation

/-!
# Arrays in place

An array is a function from indices to cells, of which the first `n` are in use. Here are the loops
that search it, move cells and keep only some of them, each with the list that it leaves.
-/

namespace SkynetEureka.Lib

variable {α : Type*}

/-- The first `n` cells -/
def front (n : ℕ) (a : ℕ → α) : List α := (List.range n).map a

variable {a b c : ℕ → α} {i j k m n : ℕ} {l : List ℕ} {x : α}

@[simp] theorem length_front : (front n a).length = n := by
  unfold front
  rw [List.length_map, List.length_range]

theorem front_zero : front 0 a = [] := rfl

theorem front_succ : front (n + 1) a = front n a ++ [a n] := by
  unfold front
  rw [List.range_succ, List.map_append]
  rfl

theorem mem_front : x ∈ front n a ↔ ∃ i < n, a i = x := by
  unfold front
  simp only [List.mem_map, List.mem_range]

theorem front_congr (h : ∀ i < n, a i = b i) : front n a = front n b := by
  unfold front
  apply List.map_congr_left
  intro i hi
  exact h i (List.mem_range.mp hi)

/-- Two fronts, one behind the other -/
theorem front_add : front (m + n) a = front m a ++ front n (fun i => a (m + i)) := by
  unfold front
  rw [List.range_add, List.map_append, List.map_map]
  rfl

theorem pairwise_front {r : α → α → Prop} :
    (front n a).Pairwise r ↔ ∀ i j, i < j → j < n → r (a i) (a j) := by
  induction n with
  | zero =>
    constructor
    · intro _ i j _ hj
      omega
    · intro _
      exact List.Pairwise.nil
  | succ n ih =>
    rw [front_succ, List.pairwise_append, ih]
    constructor
    · rintro ⟨hold, -, hnew⟩ i j hij hj
      rcases Nat.lt_succ_iff_lt_or_eq.mp hj with hlt | rfl
      · exact hold i j hij hlt
      · exact hnew _ (mem_front.mpr ⟨i, hij, rfl⟩) _ (List.mem_singleton.mpr rfl)
    · intro h
      refine ⟨fun i j hij hj => h i j hij (by omega), List.pairwise_singleton .., ?_⟩
      intro y hy z hz
      obtain ⟨i, hi, rfl⟩ := mem_front.mp hy
      rw [List.mem_singleton.mp hz]
      exact h i n hi (by omega)

/-! ## Searching -/

/-- Where the search ends: at a cell, or in front of a cell -/
inductive Position where
  | found (i : ℕ)
  | before (i : ℕ)
  deriving DecidableEq

/-- Binary search between two indices, both included; `cmp` compares a cell with the key. -/
def bisect (cmp : ℕ → Ordering) (first last : ℤ) : Position :=
  if first ≤ last then
    let mid := (first + last) / 2
    match cmp mid.toNat with
    | .eq => .found mid.toNat
    | .lt => bisect cmp (mid + 1) last
    | .gt => bisect cmp first (mid - 1)
  else .before first.toNat
termination_by (last + 1 - first).toNat
decreasing_by all_goals omega

/-- The cells are in order: smaller ones, at most one that is equal, greater ones. -/
def Ordered (cmp : ℕ → Ordering) (n : ℕ) : Prop :=
  ∀ i j, i < j → j < n → cmp i = .lt ∨ cmp j = .gt

/-- What the search says about the cells -/
def Position.Splits (cmp : ℕ → Ordering) (n : ℕ) : Position → Prop
  | .found i => i < n ∧ cmp i = .eq
  | .before k => k ≤ n ∧ (∀ i < k, cmp i = .lt) ∧ ∀ i, k ≤ i → i < n → cmp i = .gt

theorem bisect_splits {cmp : ℕ → Ordering} {first last : ℤ} (hord : Ordered cmp n)
    (hfirst : 0 ≤ first) (hle : first ≤ last + 1) (hlast : last < n)
    (hlow : ∀ i : ℕ, (i : ℤ) < first → cmp i = .lt)
    (hhigh : ∀ i : ℕ, last < i → i < n → cmp i = .gt) :
    (bisect cmp first last).Splits cmp n := by
  fun_induction bisect cmp first last with
  | case1 first last hin mid heq =>
    constructor
    · omega
    · exact heq
  | case2 first last hin mid hlt ih =>
    apply ih (by omega) (by omega) hlast _ hhigh
    intro i hi
    by_cases hmid : i = mid.toNat
    · rw [hmid, hlt]
    · rcases hord i mid.toNat (by omega) (by omega) with h | h
      · exact h
      · rw [hlt] at h
        cases h
  | case3 first last hin mid hgt ih =>
    apply ih hfirst (by omega) (by omega) hlow
    intro i hi hn
    by_cases hmid : i = mid.toNat
    · rw [hmid, hgt]
    · rcases hord mid.toNat i (by omega) hn with h | h
      · rw [hgt] at h
        cases h
      · exact h
  | case4 first last hout =>
    refine ⟨by omega, ?_, ?_⟩
    · intro i hi
      exact hlow i (by omega)
    · intro i hi hn
      exact hhigh i (by omega) hn

/-! ## Copying -/

/-- `b[i+k] = a[i]` for the indices of the list, one after another -/
def copyCells (a : ℕ → α) (k : ℕ) (l : List ℕ) (b : ℕ → α) : ℕ → α :=
  l.foldl (fun b i => Function.update b (i + k) (a i)) b

theorem copyCells_apply :
    copyCells a k l b j = if k ≤ j ∧ j - k ∈ l then a (j - k) else b j := by
  induction l generalizing b with
  | nil => exact (if_neg (by simp)).symm
  | cons i l ih =>
    show copyCells a k l (Function.update b (i + k) (a i)) j = _
    rw [ih]
    by_cases hl : k ≤ j ∧ j - k ∈ l
    · rw [if_pos hl, if_pos ⟨hl.1, List.mem_cons_of_mem i hl.2⟩]
    · rw [if_neg hl]
      by_cases hj : j = i + k
      · subst hj
        rw [Function.update_self, Nat.add_sub_cancel,
          if_pos ⟨Nat.le_add_left k i, List.mem_cons_self⟩]
      · rw [Function.update_of_ne hj, if_neg]
        rintro ⟨hkj, hmem⟩
        rcases List.mem_cons.mp hmem with heq | hmem
        · omega
        · exact hl ⟨hkj, hmem⟩

/-- `for (i=n;i>k;i--) a[i] = a[i-1];` -/
def shiftCells (k : ℕ) : ℕ → (ℕ → α) → (ℕ → α)
  | 0, a => a
  | i + 1, a => if k < i + 1 then shiftCells k i (Function.update a (i + 1) (a i)) else a

theorem shiftCells_apply :
    shiftCells k n a j = if k < j ∧ j ≤ n then a (j - 1) else a j := by
  induction n generalizing a with
  | zero => exact (if_neg (by omega)).symm
  | succ n ih =>
    unfold shiftCells
    by_cases hk : k < n + 1
    · rw [if_pos hk, ih]
      by_cases hj : j = n + 1
      · subst hj
        rw [if_neg (by omega), if_pos ⟨hk, Nat.le_refl _⟩, Function.update_self,
          Nat.add_sub_cancel]
      · by_cases hin : k < j ∧ j ≤ n
        · rw [if_pos hin, if_pos (by omega), Function.update_of_ne (by omega)]
        · rw [if_neg hin, if_neg (by omega), Function.update_of_ne hj]
    · rw [if_neg hk, if_neg (by omega)]

/-- A cell put in at `k`, with the cells behind it moved up -/
theorem front_insert (hk : k ≤ n) (hlow : ∀ i < k, b i = a i) (hat : b k = x)
    (hhigh : ∀ i, k ≤ i → i < n → b (i + 1) = a i) :
    front (n + 1) b = (front n a).take k ++ x :: (front n a).drop k := by
  obtain ⟨m, rfl⟩ : ∃ m, n = k + m := ⟨n - k, by omega⟩
  have hsplit : front (k + m + 1) b =
      front (k + 1) b ++ front m (fun i => b (k + 1 + i)) := by
    rw [← front_add]
    congr 1
    omega
  have hbehind : front m (fun i => b (k + 1 + i)) = front m (fun i => a (k + i)) := by
    apply front_congr
    intro i hi
    rw [← hhigh (k + i) (by omega) (by omega)]
    congr 1
    omega
  rw [hsplit, hbehind, front_succ, hat, front_congr hlow, front_add,
    List.take_left' length_front, List.drop_left' length_front, List.append_assoc]
  rfl

/-! ## Keeping some cells -/

/-- Cell `i` is moved down to `j` if it is kept. -/
def compactStep (p : α → Bool) (s : (ℕ → α) × ℕ) (i : ℕ) : (ℕ → α) × ℕ :=
  if p (s.1 i) then (if i ≠ s.2 then Function.update s.1 s.2 (s.1 i) else s.1, s.2 + 1) else s

/-- `for (i=0; i<n; ++i)`: the kept cells are moved to the front, and they are counted. -/
def compactCells (p : α → Bool) (n : ℕ) (a : ℕ → α) : (ℕ → α) × ℕ :=
  (List.range n).foldl (compactStep p) (a, 0)

theorem compactCells_succ {p : α → Bool} :
    compactCells p (n + 1) a = compactStep p (compactCells p n a) n := by
  unfold compactCells
  rw [List.range_succ, List.foldl_append]
  rfl

theorem compactCells_spec {p : α → Bool} :
    (compactCells p n a).2 ≤ n ∧ (∀ i, n ≤ i → (compactCells p n a).1 i = a i) ∧
      front (compactCells p n a).2 (compactCells p n a).1 = (front n a).filter p := by
  induction n with
  | zero => exact ⟨Nat.le_refl _, fun _ _ => rfl, rfl⟩
  | succ n ih =>
    obtain ⟨hle, hrest, hfront⟩ := ih
    rw [compactCells_succ, front_succ, List.filter_append, ← hfront]
    unfold compactStep
    rw [hrest n (Nat.le_refl n)]
    cases hp : p (a n) with
    | false =>
      rw [if_neg Bool.false_ne_true, List.filter_cons_of_neg (by rw [hp]; exact Bool.false_ne_true)]
      refine ⟨by omega, fun i hi => hrest i (by omega), ?_⟩
      rw [List.filter_nil, List.append_nil]
    | true =>
      rw [if_pos rfl, List.filter_cons_of_pos hp, List.filter_nil]
      dsimp only
      refine ⟨by omega, ?_, ?_⟩
      · intro i hi
        split
        · rw [Function.update_of_ne (by omega), hrest i (by omega)]
        · exact hrest i (by omega)
      · rw [front_succ]
        split
        · rw [Function.update_self]
          congr 1
          apply front_congr
          intro i hi
          rw [Function.update_of_ne (by omega)]
        · rename_i hsame
          rw [show (compactCells p n a).2 = n by omega, hrest n (Nat.le_refl n)]

end SkynetEureka.Lib
