import SkynetEureka.TimerWheel.Timer
import Mathlib

/-!
# Timing wheel: supporting lemmas

* `place expire time`: the list in which `add_node` files a node when the counter is `time`;
* what `addNode`, `moveList` and `timerShift` do to the lists;
* `Filed`: every list holds the waiting nodes of its place, in the order of their entry. A shift
  keeps it when nothing is due at the old counter.
-/

namespace SkynetEureka.TimerWheel

/-! ## Blocks of the counter -/

/-- Setting the low `k` bits forgets all but the block of size `2 ^ k`. -/
lemma or_mask_eq (a k : ℕ) : a ||| (2 ^ k - 1) = a / 2 ^ k * 2 ^ k + (2 ^ k - 1) := by
  have hk : 0 < 2 ^ k := Nat.two_pow_pos k
  refine Nat.eq_of_testBit_eq fun j => ?_
  rw [Nat.testBit_or, Nat.testBit_two_pow_sub_one, Nat.mul_comm,
    Nat.testBit_two_pow_mul_add _ (by omega), Nat.testBit_two_pow_sub_one,
    Nat.testBit_div_two_pow]
  by_cases hj : j < k
  · simp [hj]
  · simp [hj, Nat.sub_add_cancel (Nat.le_of_not_lt hj)]

lemma or_mask_eq_iff (a b k : ℕ) :
    a ||| (2 ^ k - 1) = b ||| (2 ^ k - 1) ↔ a / 2 ^ k = b / 2 ^ k := by
  rw [or_mask_eq, or_mask_eq]
  constructor
  · intro h
    exact Nat.eq_of_mul_eq_mul_right (Nat.two_pow_pos k) (Nat.add_right_cancel h)
  · intro h
    rw [h]

/-- A list of the wheel. -/
inductive Place where
  | near (idx : ℕ)
  | level (i idx : ℕ)
deriving DecidableEq

/-- The number of the innermost level whose block holds both times. -/
def blockLevel (expire time : ℕ) : ℕ :=
  if expire / 2 ^ 14 = time / 2 ^ 14 then 0
  else if expire / 2 ^ 20 = time / 2 ^ 20 then 1
  else if expire / 2 ^ 26 = time / 2 ^ 26 then 2
  else 3

/-- Where a node belongs when the counter is `time`. -/
def place (expire time : ℕ) : Place :=
  if expire / 2 ^ 8 = time / 2 ^ 8 then .near (expire % 2 ^ 8)
  else .level (blockLevel expire time) (expire / 2 ^ (8 + 6 * blockLevel expire time) % 2 ^ 6)

/-- The level of a place, counted from the near lists. -/
def Place.rank : Place → ℕ
  | .near _ => 0
  | .level i _ => i + 1

lemma findLevel_eq (expire time : ℕ) :
    findLevel expire time 3 0 (timeNear <<< timeLevelShift) = blockLevel expire time := by
  have h14 : timeNear <<< timeLevelShift = 2 ^ 14 := by decide
  have h20 : 2 ^ 14 <<< timeLevelShift % 2 ^ 32 = 2 ^ 20 := by decide
  have h26 : 2 ^ 20 <<< timeLevelShift % 2 ^ 32 = 2 ^ 26 := by decide
  simp only [findLevel, h14, h20, h26, or_mask_eq_iff, blockLevel]

/-! ## The lists -/

variable {α : Type*}

/-- The list at a place. -/
def Timer.list (T : Timer α) : Place → List (TimerNode α)
  | .near idx => T.near idx
  | .level i idx => T.t i idx

lemma Timer.list_linkNear (T : Timer α) (idx : ℕ) (node : TimerNode α) (p : Place) :
    (T.linkNear idx node).list p =
      T.list p ++ if p = .near idx then [node] else [] := by
  cases p with
  | near j =>
    by_cases h : j = idx
    · simp [list, linkNear, h]
    · simp [list, linkNear, h]
  | level i j => simp [list, linkNear]

lemma Timer.list_linkLevel (T : Timer α) (level idx : ℕ) (node : TimerNode α) (p : Place) :
    (T.linkLevel level idx node).list p =
      T.list p ++ if p = .level level idx then [node] else [] := by
  cases p with
  | near j => simp [list, linkLevel]
  | level i j =>
    by_cases hi : i = level
    · subst hi
      by_cases hj : j = idx
      · simp [list, linkLevel, hj]
      · simp [list, linkLevel, hj]
    · simp [list, linkLevel, hi]

/-- **`add_node`** appends the node to the list of its place. -/
lemma list_addNode (T : Timer α) (node : TimerNode α) (p : Place) :
    (addNode T node).list p =
      T.list p ++ if p = place node.expire T.time then [node] else [] := by
  have hmask : timeNearMask = 2 ^ 8 - 1 := by decide
  have hlevel : timeLevelMask = 2 ^ 6 - 1 := by decide
  simp only [addNode, hmask, or_mask_eq_iff, place, findLevel_eq]
  split
  · rw [Timer.list_linkNear, Nat.and_two_pow_sub_one_eq_mod]
  · rw [Timer.list_linkLevel, hlevel, Nat.and_two_pow_sub_one_eq_mod, Nat.shiftRight_eq_div_pow,
      timeNearShift, timeLevelShift, Nat.mul_comm 6]

@[simp] lemma addNode_time (T : Timer α) (node : TimerNode α) : (addNode T node).time = T.time := by
  simp only [addNode]
  split <;> rfl

/-- Filing nodes one after another. -/
lemma list_foldl_addNode (p : Place) : ∀ (l : List (TimerNode α)) (T : Timer α),
    (l.foldl addNode T).time = T.time ∧
      (l.foldl addNode T).list p = T.list p ++ l.filter fun x => place x.expire T.time = p
  | [], T => ⟨rfl, by simp⟩
  | x :: l, T => by
    obtain ⟨htime, hlist⟩ := list_foldl_addNode p l (addNode T x)
    rw [addNode_time] at htime hlist
    refine ⟨htime, ?_⟩
    rw [List.foldl_cons, hlist, list_addNode, List.append_assoc, List.filter_cons]
    by_cases h : place x.expire T.time = p
    · simp [h]
    · simp [h, Ne.symm h]

@[simp] lemma moveList_time (T : Timer α) (i idx : ℕ) : (moveList T i idx).time = T.time :=
  (list_foldl_addNode (.near 0) _ _).1

/-- **`move_list`** empties a list and files its nodes anew. -/
lemma list_moveList (T : Timer α) (i idx : ℕ) (p : Place) :
    (moveList T i idx).list p = (if p = .level i idx then [] else T.list p) ++
      (T.list (.level i idx)).filter fun x => place x.expire T.time = p := by
  rw [moveList, (list_foldl_addNode p _ _).2]
  congr 1
  cases p with
  | near j => simp [Timer.list]
  | level k j =>
    by_cases hk : k = i
    · subst hk
      by_cases hj : j = idx
      · simp [Timer.list, hj]
      · simp [Timer.list, hj]
    · simp [Timer.list, hk]

/-! ## `timerShift` -/

/-- The loop of `timer_shift`, entered with a multiple of the level's block: it moves the list of
the innermost level whose index is not 0. -/
lemma shiftLoop_eq (T : Timer α) {ct : ℕ} (hpos : ct ≠ 0) (hlt : ct < 2 ^ 32) :
    ∀ n i, i + n = 4 → ct % 2 ^ (8 + 6 * i) = 0 →
      ∃ j ≤ 3, ct % 2 ^ (8 + 6 * j) = 0 ∧ ct / 2 ^ (8 + 6 * j) % 2 ^ 6 ≠ 0 ∧
        shiftLoop T ct n (2 ^ (8 + 6 * i)) (ct / 2 ^ (8 + 6 * i)) i =
          moveList T j (ct / 2 ^ (8 + 6 * j) % 2 ^ 6)
  | 0, i, hi, hdvd => by
    obtain rfl : i = 4 := by omega
    omega
  | n + 1, i, hi, hdvd => by
    have hidx : ct / 2 ^ (8 + 6 * i) &&& timeLevelMask = ct / 2 ^ (8 + 6 * i) % 2 ^ 6 :=
      Nat.and_two_pow_sub_one_eq_mod _ 6
    rw [shiftLoop, Nat.and_two_pow_sub_one_eq_mod, if_pos hdvd]
    simp only [hidx]
    by_cases hzero : ct / 2 ^ (8 + 6 * i) % 2 ^ 6 = 0
    · have hpow : 2 ^ (8 + 6 * (i + 1)) = 2 ^ (8 + 6 * i) * 2 ^ 6 := by ring
      have hmask : 2 ^ (8 + 6 * i) <<< timeLevelShift = 2 ^ (8 + 6 * (i + 1)) := by
        rw [hpow, Nat.shiftLeft_eq, timeLevelShift]
      have htime : (ct / 2 ^ (8 + 6 * i)) >>> timeLevelShift = ct / 2 ^ (8 + 6 * (i + 1)) := by
        rw [hpow, Nat.shiftRight_eq_div_pow, timeLevelShift, Nat.div_div_eq_div_mul]
      have hdvd' : ct % 2 ^ (8 + 6 * (i + 1)) = 0 := by
        rw [hpow, Nat.mod_mul, hdvd, hzero, Nat.mul_zero]
      rw [if_neg (not_not.mpr hzero), hmask, htime]
      exact shiftLoop_eq T hpos hlt n (i + 1) (by omega) hdvd'
    · rw [if_pos hzero]
      exact ⟨i, by omega, hdvd, hzero, rfl⟩

/-- **`timer_shift`** moves the counter on, and where it enters a new block of level `j` files
the list of that block anew. -/
lemma timerShift_cases (T : Timer α) {ct : ℕ} (hct : ct = (T.time + 1) % 2 ^ 32) :
    ct % 2 ^ 8 ≠ 0 ∧ timerShift T = { T with time := ct } ∨
      ∃ j ≤ 3, ct % 2 ^ (8 + 6 * j) = 0 ∧ (j < 3 → ct / 2 ^ (8 + 6 * j) % 2 ^ 6 ≠ 0) ∧
        timerShift T = moveList { T with time := ct } j (ct / 2 ^ (8 + 6 * j) % 2 ^ 6) := by
  simp only [timerShift, ← hct]
  by_cases hzero : ct = 0
  · refine Or.inr ⟨3, le_rfl, by rw [hzero, Nat.zero_mod], by omega, ?_⟩
    rw [if_pos hzero, hzero, Nat.zero_div, Nat.zero_mod]
  · rw [if_neg hzero]
    by_cases hnear : ct % 2 ^ 8 = 0
    · obtain ⟨j, hj, hdvd, hidx, heq⟩ :=
        shiftLoop_eq { T with time := ct } hzero (by omega) 4 0 rfl hnear
      refine Or.inr ⟨j, hj, hdvd, fun _ => hidx, ?_⟩
      rw [← heq, Nat.shiftRight_eq_div_pow]
      rfl
    · refine Or.inl ⟨hnear, ?_⟩
      have hmask : timeNear - 1 = 2 ^ 8 - 1 := by decide
      rw [shiftLoop, hmask, Nat.and_two_pow_sub_one_eq_mod, if_neg hnear]

lemma timerShift_time (T : Timer α) : (timerShift T).time = (T.time + 1) % 2 ^ 32 := by
  rcases timerShift_cases T rfl with ⟨-, h⟩ | ⟨j, -, -, -, h⟩
  · rw [h]
  · rw [h, moveList_time]

/-! ## How a shift changes the places -/

lemma place_congr {e c c' : ℕ} (h : ∀ k ≤ 3,
    e / 2 ^ (8 + 6 * k) = c / 2 ^ (8 + 6 * k) ↔ e / 2 ^ (8 + 6 * k) = c' / 2 ^ (8 + 6 * k)) :
    place e c = place e c' := by
  have h0 := h 0 (by omega)
  have h1 := h 1 (by omega)
  have h2 := h 2 (by omega)
  have h3 := h 3 (by omega)
  simp only [Nat.mul_zero, Nat.add_zero, Nat.mul_one, Nat.reduceAdd, Nat.reduceMul] at h0 h1 h2 h3
  simp only [place, blockLevel, h0, h1, h2, h3]

/-- The rank of a place tells the innermost block that holds both times. -/
lemma rank_place_le {e c j : ℕ} (hj : j ≤ 3) :
    (place e c).rank ≤ j ↔ e / 2 ^ (8 + 6 * j) = c / 2 ^ (8 + 6 * j) := by
  rw [place, blockLevel]
  interval_cases j <;> split_ifs <;> simp only [Place.rank] <;> omega

/-- The index of a node in its level. -/
lemma place_of_rank {e c j : ℕ} (h : (place e c).rank = j + 1) :
    place e c = .level j (e / 2 ^ (8 + 6 * j) % 2 ^ 6) := by
  by_cases hnear : e / 2 ^ 8 = c / 2 ^ 8
  · rw [place, if_pos hnear, Place.rank] at h
    omega
  · rw [place, if_neg hnear, Place.rank, Nat.add_right_cancel_iff] at h
    rw [place, if_neg hnear, h]

lemma place_level {e c j idx : ℕ} (h : place e c = .level j idx) :
    e / 2 ^ (8 + 6 * j) % 2 ^ 6 = idx := by
  have := place_of_rank (e := e) (c := c) (j := j) (by rw [h, Place.rank])
  rw [h, Place.level.injEq] at this
  exact this.2.symm

section Shift

variable {c d e ct j : ℕ}

/-- At the end of a block no time ahead lies in it. -/
lemma block_end (hct : ct = (c + 1) % 2 ^ 32) (he : e = (c + d) % 2 ^ 32) (hpos : 1 ≤ d)
    (hlt : d < 2 ^ 31) (hj : j ≤ 3) (hdvd : ct % 2 ^ (8 + 6 * j) = 0) {k : ℕ} (hk : k ≤ j) :
    e / 2 ^ (8 + 6 * k) ≠ c / 2 ^ (8 + 6 * k) := by
  interval_cases j <;> interval_cases k <;> omega

/-- The blocks above the level whose index is not 0 stay. -/
lemma block_above (hct : ct = (c + 1) % 2 ^ 32) (hc : c < 2 ^ 32)
    (hdvd : ct % 2 ^ (8 + 6 * j) = 0) (hidx : ct / 2 ^ (8 + 6 * j) % 2 ^ 6 ≠ 0) {k : ℕ}
    (hk : j < k) (hk3 : k ≤ 3) : c / 2 ^ (8 + 6 * k) = ct / 2 ^ (8 + 6 * k) := by
  have hj : j < 3 := by omega
  interval_cases j <;> interval_cases k <;> omega

/-- Within a near block all blocks stay. -/
lemma block_same (hct : ct = (c + 1) % 2 ^ 32) (hc : c < 2 ^ 32) (hdvd : ct % 2 ^ 8 ≠ 0) {k : ℕ}
    (hk : k ≤ 3) : c / 2 ^ (8 + 6 * k) = ct / 2 ^ (8 + 6 * k) := by
  interval_cases k <;> omega

/-- A smaller block lies in one larger block. -/
lemma block_mono {a b k : ℕ} (hk : k ≤ j) (h : a / 2 ^ (8 + 6 * k) = b / 2 ^ (8 + 6 * k)) :
    a / 2 ^ (8 + 6 * j) = b / 2 ^ (8 + 6 * j) := by
  obtain ⟨i, rfl⟩ := Nat.exists_eq_add_of_le hk
  rw [show 8 + 6 * (k + i) = 8 + 6 * k + 6 * i by ring, pow_add, ← Nat.div_div_eq_div_mul,
    ← Nat.div_div_eq_div_mul, h]

/-- A time ahead whose place the shift does not file anew keeps its place; one whose place is
filed anew comes to a lower level; and there is none in the lower levels. -/
lemma place_shift (hct : ct = (c + 1) % 2 ^ 32) (hc : c < 2 ^ 32) (he : e = (c + d) % 2 ^ 32)
    (hpos : 1 ≤ d) (hlt : d < 2 ^ 31) (hj : j ≤ 3) (hdvd : ct % 2 ^ (8 + 6 * j) = 0)
    (hidx : j < 3 → ct / 2 ^ (8 + 6 * j) % 2 ^ 6 ≠ 0) :
    j < (place e c).rank ∧
      (place e c = .level j (ct / 2 ^ (8 + 6 * j) % 2 ^ 6) → (place e ct).rank ≤ j) ∧
      (place e c ≠ .level j (ct / 2 ^ (8 + 6 * j) % 2 ^ 6) → place e ct = place e c) := by
  have hend : ∀ k ≤ j, e / 2 ^ (8 + 6 * k) ≠ c / 2 ^ (8 + 6 * k) :=
    fun k hk => block_end hct he hpos hlt hj hdvd hk
  have habove : ∀ k, j < k → k ≤ 3 → c / 2 ^ (8 + 6 * k) = ct / 2 ^ (8 + 6 * k) :=
    fun k hk hk3 => block_above hct hc hdvd (hidx (by omega)) hk hk3
  have hrank : j < (place e c).rank := by
    rw [← Nat.not_le, rank_place_le hj]
    exact hend j le_rfl
  -- the node lies in the outer block of level `j` and in the new block of it, or not
  have hiff : place e c = .level j (ct / 2 ^ (8 + 6 * j) % 2 ^ 6) ↔
      e / 2 ^ (8 + 6 * j) = ct / 2 ^ (8 + 6 * j) := by
    constructor
    · intro h
      have hmod := place_level h
      have hout : j < 3 → e / 2 ^ (8 + 6 * (j + 1)) = ct / 2 ^ (8 + 6 * (j + 1)) := by
        intro hj3
        rw [← habove (j + 1) (by omega) (by omega), ← rank_place_le (by omega), h, Place.rank]
      interval_cases j <;> omega
    · intro h
      have hle : (place e c).rank ≤ j + 1 := by
        by_cases hj3 : j < 3
        · rw [rank_place_le (by omega), habove (j + 1) (by omega) (by omega)]
          exact block_mono (by omega) h
        · rw [place]
          split
          · simp [Place.rank]
          · rw [Place.rank, blockLevel]
            split_ifs <;> omega
      rw [place_of_rank (j := j) (by omega), h]
  refine ⟨hrank, fun h => (rank_place_le hj).mpr (hiff.mp h), fun h => ?_⟩
  rw [Ne, hiff] at h
  refine place_congr fun k hk => ?_
  by_cases hkj : k ≤ j
  · exact iff_of_false (fun hk' => h (block_mono hkj hk')) (hend k hkj)
  · rw [habove k (by omega) hk]

end Shift

/-! ## The filed wheel -/

/-- The nodes `l` are filed: every list holds those of its place, in the order of `l`. -/
def Filed (T : Timer α) (l : List (TimerNode α)) : Prop :=
  ∀ p, T.list p = l.filter fun x => place x.expire T.time = p

/-- The node expires after `d` more ticks. -/
def Timer.Ahead (T : Timer α) (x : TimerNode α) (d : ℕ) : Prop :=
  x.expire = (T.time + d) % 2 ^ 32 ∧ d < 2 ^ 31

namespace Filed

variable {T : Timer α} {l : List (TimerNode α)}

lemma create (time : ℕ) : Filed (timerCreateTimer time : Timer α) [] := by
  intro p
  cases p <;> rfl

/-- **`timer_add`** files one more node. -/
lemma add (f : Filed T l) (arg : α) (time : ℕ) :
    Filed (timerAdd T arg time) (l ++ [⟨(time + T.time) % 2 ^ 32, arg⟩]) := by
  intro p
  rw [timerAdd, list_addNode, f p, addNode_time, List.filter_append, List.filter_singleton,
    Bool.cond_decide]
  simp only [eq_comm]

/-- **`timer_shift`** keeps all nodes filed when none is due at the old counter. -/
lemma shift (f : Filed T l) (htime : T.time < 2 ^ 32)
    (hahead : ∀ x ∈ l, ∃ d, 1 ≤ d ∧ T.Ahead x d) : Filed (timerShift T) l := by
  obtain ⟨ct, hct⟩ : ∃ ct, ct = (T.time + 1) % 2 ^ 32 := ⟨_, rfl⟩
  rcases timerShift_cases T hct with ⟨hnear, heq⟩ | ⟨j, hj, hdvd, hidx, heq⟩
  · rw [heq]
    intro p
    refine (f p).trans (List.filter_congr fun x _ => ?_)
    have hsame : place x.expire T.time = place x.expire ct :=
      place_congr fun k hk => by rw [block_same hct htime hnear hk]
    rw [hsame]
  · rw [heq]
    obtain ⟨idx, hidx'⟩ : ∃ idx, idx = ct / 2 ^ (8 + 6 * j) % 2 ^ 6 := ⟨_, rfl⟩
    have hplace : ∀ x ∈ l, j < (place x.expire T.time).rank ∧
        (place x.expire T.time = .level j idx → (place x.expire ct).rank ≤ j) ∧
        (place x.expire T.time ≠ .level j idx → place x.expire ct = place x.expire T.time) := by
      intro x hx
      obtain ⟨d, hpos, he, hlt⟩ := hahead x hx
      rw [hidx']
      exact place_shift hct htime he hpos hlt hj hdvd hidx
    rw [← hidx']
    intro p
    have hold : ∀ q, Timer.list { T with time := ct } q =
        l.filter fun x => place x.expire T.time = q := fun q => by rw [← f q]; cases q <;> rfl
    rw [list_moveList, hold, hold, moveList_time, List.filter_filter]
    by_cases hp : p.rank ≤ j
    · -- a list of a lower level was empty, and gets what was filed anew
      have hempty : l.filter (fun x => place x.expire T.time = p) = [] := by
        refine List.filter_eq_nil_iff.mpr fun x hx h => ?_
        have := (hplace x hx).1
        rw [decide_eq_true_iff] at h
        rw [h] at this
        omega
      rw [hempty, ite_self, List.nil_append]
      refine List.filter_congr fun x hx => ?_
      obtain ⟨hrank, -, hkeep⟩ := hplace x hx
      by_cases h : place x.expire T.time = .level j idx
      · simp [h]
      · rw [hkeep h]
        have : place x.expire T.time ≠ p := by
          rintro rfl
          omega
        simp [this]
    · -- a list of this level or a higher one loses what was filed anew, and gets nothing
      have hempty : l.filter (fun x => decide (place x.expire ct = p) &&
          decide (place x.expire T.time = .level j idx)) = [] := by
        refine List.filter_eq_nil_iff.mpr fun x hx h => ?_
        rw [Bool.and_eq_true, decide_eq_true_iff, decide_eq_true_iff] at h
        have := (hplace x hx).2.1 h.2
        rw [h.1] at this
        exact hp this
      rw [hempty, List.append_nil]
      split
      · rename_i hpj
        refine (List.filter_eq_nil_iff.mpr fun x hx h => ?_).symm
        rw [decide_eq_true_iff] at h
        obtain ⟨-, hmove, hkeep⟩ := hplace x hx
        by_cases hx' : place x.expire T.time = .level j idx
        · exact hp (h ▸ hmove hx')
        · exact hx' (by rw [← hkeep hx', h, hpj])
      · rename_i hpj
        refine List.filter_congr fun x hx => ?_
        obtain ⟨-, hmove, hkeep⟩ := hplace x hx
        by_cases hx' : place x.expire T.time = .level j idx
        · have hne : place x.expire ct ≠ p := fun h => hp (h ▸ hmove hx')
          simp [hx', hne, Ne.symm hpj]
        · rw [hkeep hx']

end Filed

end SkynetEureka.TimerWheel
