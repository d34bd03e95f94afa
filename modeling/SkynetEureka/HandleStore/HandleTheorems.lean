import SkynetEureka.HandleStore.Handle
import Mathlib

/-!
# Handle store: supporting lemmas

* the arithmetic of handles: masking by a power of two, low 24 bits and harbor bits;
* which handles the scan tries, and what it means that it finds none;
* the invariant `Valid` and one specification lemma for each function: `growSlot`,
  `skynetHandleRegister`, `skynetHandleRetire`, `skynetHandleGrab`, `skynetHandleRetireall`.

`Valid` speaks of the handle that was *given* to each context (`handle c`), not of the field
`ctx->handle`: the two differ between the return of `skynet_handle_register` and the store of
its result.
-/

namespace SkynetEureka.HandleStore

/-! ## Arithmetic of handles -/

lemma handleMask_eq : handleMask = 2 ^ 24 - 1 := by decide

lemma and_handleMask (x : ℕ) : x &&& handleMask = x % 2 ^ 24 := by
  rw [handleMask_eq, Nat.and_two_pow_sub_one_eq_mod]

/-- A handle whose low bits are below the mask, with the harbor bits put on top. -/
lemma or_harbor_eq {low b : ℕ} (h : low ≤ handleMask) :
    low ||| b <<< handleRemoteShift = b * 2 ^ 24 + low := by
  have hlt : low < 2 ^ 24 := by rw [handleMask_eq] at h; omega
  rw [Nat.lor_comm, handleRemoteShift, ← Nat.shiftLeft_add_eq_or_of_lt hlt, Nat.shiftLeft_eq]

lemma or_harbor_and_mask {low b : ℕ} (h : low ≤ handleMask) :
    (low ||| b <<< handleRemoteShift) &&& handleMask = low := by
  rw [or_harbor_eq h, and_handleMask]
  rw [handleMask_eq] at h
  omega

lemma or_harbor_shiftRight {low b : ℕ} (h : low ≤ handleMask) :
    (low ||| b <<< handleRemoteShift) >>> handleRemoteShift = b := by
  rw [or_harbor_eq h, handleRemoteShift, Nat.shiftRight_eq_div_pow]
  rw [handleMask_eq] at h
  omega

/-- The harbor bits do not reach the index into a table of at most `2 ^ 24` slots. -/
lemma or_harbor_and_size {low b k : ℕ} (h : low ≤ handleMask) (hk : k ≤ 24) :
    (low ||| b <<< handleRemoteShift) &&& (2 ^ k - 1) = low &&& (2 ^ k - 1) := by
  obtain ⟨j, hj⟩ := Nat.exists_eq_add_of_le hk
  rw [or_harbor_eq h, Nat.and_two_pow_sub_one_eq_mod, Nat.and_two_pow_sub_one_eq_mod, hj,
    show b * 2 ^ (k + j) + low = low + 2 ^ k * (b * 2 ^ j) by rw [pow_add]; ring,
    Nat.add_mul_mod_self_left]

/-! ## The scan -/

/-- The scan from `handle` on is full: it finds no free slot within `n` tries. The handles up
to the mask have been tried … -/
lemma taken_of_scanSlot_none {slot : ℕ → Option Ctx} {size : ℕ} :
    ∀ {n handle j : ℕ}, scanSlot slot size n handle = none → j < n →
      handle + j ≤ handleMask → slot ((handle + j) &&& (size - 1)) ≠ none
  | 0, _, _, _, hj, _ => by omega
  | n + 1, handle, j, h, hj, hle => by
    rw [scanSlot, if_neg (by omega : ¬ handleMask < handle)] at h
    split at h
    · cases h
    · rename_i htaken
      cases j with
      | zero => simpa using htaken
      | succ j =>
        have := taken_of_scanSlot_none (j := j) h (by omega) (by omega)
        rwa [show handle + 1 + j = handle + (j + 1) by omega] at this

/-- … and so have those after the wrap to 1. -/
lemma taken_of_scanSlot_none_wrap {slot : ℕ → Option Ctx} {size : ℕ} :
    ∀ {n handle j : ℕ}, scanSlot slot size n handle = none → handle ≤ handleMask + 1 →
      1 ≤ j → j ≤ handleMask → handleMask + 1 - handle + j ≤ n →
      slot (j &&& (size - 1)) ≠ none
  | 0, _, _, _, _, _, _, _ => by omega
  | n + 1, handle, j, h, hle, hj, hjm, hn => by
    rw [scanSlot] at h
    by_cases hwrap : handleMask < handle
    · rw [if_pos hwrap] at h
      split at h
      · cases h
      · rename_i htaken
        -- the counter restarts at 1, and the tries after it run below the mask
        obtain rfl | hj2 : j = 1 ∨ 2 ≤ j := by omega
        · simpa using htaken
        · have := taken_of_scanSlot_none (j := j - 2) h (by omega) (by omega)
          rwa [show 1 + 1 + (j - 2) = j by omega] at this
    · rw [if_neg hwrap] at h
      split at h
      · cases h
      · exact taken_of_scanSlot_none_wrap h (by omega) hj hjm (by omega)

/-- What a successful scan returns: a handle of a free slot, tried either before or after the
wrap. -/
lemma scanSlot_some {slot : ℕ → Option Ctx} {size : ℕ} :
    ∀ {n handle r : ℕ}, scanSlot slot size n handle = some r → 1 ≤ handle →
      handle ≤ handleMask + 1 →
      slot (r &&& (size - 1)) = none ∧ 1 ≤ r ∧ r ≤ handleMask ∧
        (handle ≤ r ∧ r < handle + n ∨ r + (handleMask + 1 - handle) ≤ n)
  | n + 1, handle, r, h, hpos, hle => by
    rw [scanSlot] at h
    have hmask : 2 ≤ handleMask := by decide
    by_cases hwrap : handleMask < handle
    · rw [if_pos hwrap] at h
      split at h
      · rename_i hfree
        obtain rfl := Option.some.inj h
        exact ⟨by simpa using hfree, by omega, by omega, by omega⟩
      · obtain ⟨h1, h2, h3, h4⟩ := scanSlot_some h (by omega) (by omega)
        exact ⟨h1, h2, h3, by omega⟩
    · rw [if_neg hwrap] at h
      split at h
      · rename_i hfree
        obtain rfl := Option.some.inj h
        exact ⟨by simpa using hfree, by omega, by omega, by omega⟩
      · obtain ⟨h1, h2, h3, h4⟩ := scanSlot_some h (by omega) (by omega)
        exact ⟨h1, h2, h3, by omega⟩

/-! ## The invariant -/

/-- The table is a power of two, at most `2 ^ 24`; the index is between 1 and one past the mask;
every context lies in the slot of the handle it was given, whose low 24 bits are not zero and
whose high bits are the harbor's. -/
structure Valid (handle : Ctx → ℕ) (s : HandleStorage) : Prop where
  size : ∃ k, 2 ≤ k ∧ k ≤ 24 ∧ s.slotSize = 2 ^ k
  index_pos : 1 ≤ s.handleIndex
  index_le : s.handleIndex ≤ handleMask + 1
  harbor : ∃ b < 256, s.harbor = b <<< handleRemoteShift
  placed : ∀ {i c}, s.slot i = some c → i < s.slotSize ∧ handle c &&& (s.slotSize - 1) = i ∧
    ∃ low, 1 ≤ low ∧ low ≤ handleMask ∧ handle c = low ||| s.harbor

/-- `c` is in the table. -/
def HandleStorage.Has (s : HandleStorage) (c : Ctx) : Prop := ∃ i, s.slot i = some c

namespace Valid

variable {handle : Ctx → ℕ} {s : HandleStorage}

lemma four_le (v : Valid handle s) : 4 ≤ s.slotSize := by
  obtain ⟨k, hk, -, hs⟩ := v.size
  rw [hs]
  exact Nat.pow_le_pow_right (n := 2) (by omega) hk

lemma size_le (v : Valid handle s) : s.slotSize ≤ 2 ^ 24 := by
  obtain ⟨k, -, hk, hs⟩ := v.size
  rw [hs]
  exact Nat.pow_le_pow_right (by omega) hk

lemma and_eq_mod (v : Valid handle s) (x : ℕ) : x &&& (s.slotSize - 1) = x % s.slotSize := by
  obtain ⟨k, -, -, hs⟩ := v.size
  rw [hs, Nat.and_two_pow_sub_one_eq_mod]

lemma and_lt (v : Valid handle s) (x : ℕ) : x &&& (s.slotSize - 1) < s.slotSize := by
  rw [v.and_eq_mod]
  exact Nat.mod_lt _ (by have := v.four_le; omega)

lemma two_mul_and_eq_mod (v : Valid handle s) (x : ℕ) :
    x &&& (s.slotSize * 2 - 1) = x % (s.slotSize * 2) := by
  obtain ⟨k, -, -, hs⟩ := v.size
  rw [hs, ← pow_succ, Nat.and_two_pow_sub_one_eq_mod]

lemma size_dvd (v : Valid handle s) : s.slotSize ∣ handleMask + 1 := by
  obtain ⟨k, -, hk, hs⟩ := v.size
  rw [hs, show handleMask + 1 = 2 ^ 24 by decide]
  exact pow_dvd_pow 2 hk

/-- The index into the table sees only the low bits of a handle. -/
lemma or_and_size (v : Valid handle s) {low : ℕ} (h : low ≤ handleMask) :
    (low ||| s.harbor) &&& (s.slotSize - 1) = low &&& (s.slotSize - 1) := by
  obtain ⟨k, -, hk, hs⟩ := v.size
  obtain ⟨b, -, hb⟩ := v.harbor
  rw [hs, hb, or_harbor_and_size h hk]

lemma low_pos (v : Valid handle s) {i c} (h : s.slot i = some c) :
    handle c &&& handleMask ≠ 0 := by
  obtain ⟨b, -, hb⟩ := v.harbor
  obtain ⟨-, -, low, hpos, hle, heq⟩ := v.placed h
  rw [heq, hb, or_harbor_and_mask hle]
  omega

lemma ne_zero (v : Valid handle s) {i c} (h : s.slot i = some c) : handle c ≠ 0 := by
  intro h0
  exact v.low_pos h (by rw [h0, Nat.zero_and])

lemma high_eq (v : Valid handle s) {i c} (h : s.slot i = some c) :
    handle c >>> handleRemoteShift = s.harbor >>> handleRemoteShift := by
  obtain ⟨b, -, hb⟩ := v.harbor
  obtain ⟨-, -, low, -, hle, heq⟩ := v.placed h
  rw [heq, hb, or_harbor_shiftRight hle, Nat.shiftLeft_shiftRight]

/-- A context occupies one slot. -/
lemma slot_inj (v : Valid handle s) {i j c} (hi : s.slot i = some c) (hj : s.slot j = some c) :
    i = j := (v.placed hi).2.1.symm.trans (v.placed hj).2.1

/-- Contexts in the table were given different handles. -/
lemma handle_inj (v : Valid handle s) {c d} (hc : s.Has c) (hd : s.Has d)
    (h : handle c = handle d) : c = d := by
  obtain ⟨i, hi⟩ := hc
  obtain ⟨j, hj⟩ := hd
  have hij : i = j := by rw [← (v.placed hi).2.1, ← (v.placed hj).2.1, h]
  subst hij
  exact Option.some.inj (hi.symm.trans hj)

/-- The invariant only reads the handles of the contexts in the table. -/
lemma congr {handle' : Ctx → ℕ} (v : Valid handle s) (h : ∀ c, s.Has c → handle' c = handle c) :
    Valid handle' s where
  size := v.size
  index_pos := v.index_pos
  index_le := v.index_le
  harbor := v.harbor
  placed := fun {i c} hi => by rw [h c ⟨i, hi⟩]; exact v.placed hi

end Valid

lemma init_valid (harbor : ℤ) (handle : Ctx → ℕ) : Valid handle (skynetHandleInit harbor) where
  size := ⟨2, by decide, by decide, rfl⟩
  index_pos := Nat.le_refl 1
  index_le := Nat.le_add_left 1 handleMask
  harbor := ⟨(harbor % 256).toNat, by omega, rfl⟩
  placed := fun h => nomatch h

/-! ## The scan over a valid table -/

/-- Among the handles from `h` to the mask, those of residue `i` begin within `n` tries, unless
the wrap comes first. -/
lemma exists_residue_below {n q h i : ℕ} (hq : handleMask + 1 = n * q) (hh : h ≤ handleMask + 1)
    (hi : i < n) (hroom : n ≤ i + (handleMask + 1 - h) ∨ h + n ≤ handleMask + 1) :
    ∃ j, j < n ∧ h + j ≤ handleMask ∧ (h + j) % n = i := by
  have hn : 0 < n := by omega
  by_cases hfar : h + n ≤ handleMask + 1
  · -- a whole block of `n` handles lies before the mask
    have hr : h % n < n := Nat.mod_lt _ hn
    have hdiv := Nat.div_add_mod h n
    by_cases hle : h % n ≤ i
    · refine ⟨i - h % n, by omega, by omega, ?_⟩
      rw [show h + (i - h % n) = n * (h / n) + i by omega, Nat.mul_add_mod, Nat.mod_eq_of_lt hi]
    · refine ⟨i + n - h % n, by omega, by omega, ?_⟩
      rw [show h + (i + n - h % n) = n * (h / n + 1) + i by rw [Nat.mul_succ]; omega,
        Nat.mul_add_mod, Nat.mod_eq_of_lt hi]
  · -- fewer than `n` are left; the last one has residue `n - 1`
    have hqpos : 0 < q := Nat.pos_of_ne_zero fun h0 => by
      rw [h0, Nat.mul_zero] at hq
      exact absurd hq (by decide)
    obtain ⟨p, rfl⟩ := Nat.exists_eq_add_of_le' hqpos
    rw [Nat.mul_add, Nat.mul_one] at hq
    refine ⟨n * p + i - h, by omega, by omega, ?_⟩
    rw [show h + (n * p + i - h) = n * p + i by omega, Nat.mul_add_mod, Nat.mod_eq_of_lt hi]

/-- A full scan has seen every slot but perhaps slot 0. -/
lemma Valid.taken_of_scan_none {handle : Ctx → ℕ} {s : HandleStorage} (v : Valid handle s)
    (h : s.scan = none) {i : ℕ} (hi : i < s.slotSize) (hpos : 1 ≤ i) : s.slot i ≠ none := by
  have hmask : handleMask + 1 = 2 ^ 24 := by decide
  have hsize := v.size_le
  have hidx := v.index_le
  obtain ⟨q, hq⟩ := v.size_dvd
  have h4 := v.four_le
  -- the handles tried below the mask end in residue `size - 1`, those after the wrap begin at 1
  by_cases hlow : i + (handleMask + 1 - s.handleIndex) ≤ s.slotSize
  · have := taken_of_scanSlot_none_wrap h hidx hpos (by omega) (by omega)
    rwa [v.and_eq_mod, Nat.mod_eq_of_lt hi] at this
  · obtain ⟨j, hj, hle, hmod⟩ := exists_residue_below hq hidx hi (by omega)
    have := taken_of_scanSlot_none h hj hle
    rwa [v.and_eq_mod, hmod] at this

/-- A full scan that does not wrap, or that begins with the wrap, has seen slot 0 too. -/
lemma Valid.taken_zero_of_scan_none {handle : Ctx → ℕ} {s : HandleStorage} (v : Valid handle s)
    (h : s.scan = none)
    (hidx : s.handleIndex + s.slotSize ≤ handleMask + 1 ∨ s.handleIndex = handleMask + 1)
    (hmax : s.slotSize ≤ handleMask) : s.slot 0 ≠ none := by
  have h4 := v.four_le
  rcases hidx with hidx | hidx
  · obtain ⟨q, hq⟩ := v.size_dvd
    obtain ⟨j, hj, hle, hmod⟩ :=
      exists_residue_below (i := 0) hq v.index_le (by omega) (by omega)
    have := taken_of_scanSlot_none h hj hle
    rwa [v.and_eq_mod, hmod] at this
  · have := taken_of_scanSlot_none_wrap h v.index_le (j := s.slotSize) (by omega) hmax (by omega)
    rwa [v.and_eq_mod, Nat.mod_self] at this

/-! ## `growSlot` -/

/-- Two indices that agree modulo the doubled table agree modulo the table. -/
lemma mod_eq_of_mod_two_mul {n x y : ℕ} (h : x % (n * 2) = y % (n * 2)) : x % n = y % n := by
  rw [← Nat.mod_mul_right_mod x n 2, ← Nat.mod_mul_right_mod y n 2, h]

/-- The first `n` rounds of the copy loop place the first `n` contexts by the handle each was
given, when the fields read agree with these handles modulo the new size; or they meet an empty
slot. -/
lemma Valid.rehash_range {handle : Ctx → ℕ} {s : HandleStorage} (v : Valid handle s)
    {contextHandle : Ctx → ℕ}
    (hfield : ∀ c, s.Has c → contextHandle c &&& (s.slotSize * 2 - 1) =
      handle c &&& (s.slotSize * 2 - 1)) :
    ∀ n ≤ s.slotSize, (∃ newSlot,
      (List.range n).foldlM (rehashSlot contextHandle s) (fun _ => none) = .ok newSlot ∧
      ∀ j c, newSlot j = some c ↔
        ∃ i < n, s.slot i = some c ∧ handle c &&& (s.slotSize * 2 - 1) = j) ∨
      (List.range n).foldlM (rehashSlot contextHandle s) (fun _ => none) = .error .nullContext ∧
        ∃ i < n, s.slot i = none
  | 0, _ => Or.inl ⟨fun _ => none, rfl, fun j c => by simp⟩
  | n + 1, hn => by
    rw [List.range_succ, List.foldlM_append]
    rcases v.rehash_range hfield n (by omega) with ⟨newSlot, hfold, hspec⟩ | ⟨hfold, i, hi, hnone⟩
    swap
    · exact Or.inr ⟨by rw [hfold]; rfl, i, by omega, hnone⟩
    cases hd : s.slot n with
    | none =>
      exact Or.inr ⟨by rw [hfold]; simp [bind, Except.bind, rehashSlot, hd], n, by omega, hd⟩
    | some d =>
    have hfree : newSlot (handle d &&& (s.slotSize * 2 - 1)) = none := by
      by_contra hne
      obtain ⟨c, hc⟩ := Option.ne_none_iff_exists'.mp hne
      obtain ⟨i, hi, hic, heq⟩ := (hspec _ _).mp hc
      -- equal indices modulo the doubled table would put `c` and `d` in the same old slot
      rw [v.two_mul_and_eq_mod, v.two_mul_and_eq_mod] at heq
      have := mod_eq_of_mod_two_mul heq
      rw [← v.and_eq_mod, ← v.and_eq_mod, (v.placed hic).2.1, (v.placed hd).2.1] at this
      omega
    refine Or.inl ⟨Function.update newSlot (handle d &&& (s.slotSize * 2 - 1)) (some d), ?_, ?_⟩
    · rw [hfold]
      simp only [bind, Except.bind, List.foldlM_cons, List.foldlM_nil, rehashSlot, hd,
        hfield d ⟨n, hd⟩, hfree, Option.isSome_none, Bool.false_eq_true, if_false, pure,
        Except.pure]
    · intro j c
      by_cases hj : j = handle d &&& (s.slotSize * 2 - 1)
      · subst hj
        rw [Function.update_self]
        constructor
        · rintro ⟨rfl⟩
          exact ⟨n, by omega, hd, rfl⟩
        · rintro ⟨i, hi, hic, heq⟩
          by_cases hin : i = n
          · subst hin
            exact hd.symm.trans hic
          · have := (hspec _ _).mpr ⟨i, by omega, hic, heq⟩
            rw [hfree] at this
            cases this
      · rw [Function.update_of_ne hj, hspec]
        constructor
        · rintro ⟨i, hi, hic, heq⟩
          exact ⟨i, by omega, hic, heq⟩
        · rintro ⟨i, hi, hic, heq⟩
          have hin : i ≠ n := by
            rintro rfl
            obtain rfl := Option.some.inj (hd.symm.trans hic)
            exact hj heq.symm
          exact ⟨i, by omega, hic, heq⟩

/-- Fields that agree with the given handles keep the contexts apart. -/
lemma Valid.growSlot_ne_newSlotTaken {handle : Ctx → ℕ} {s : HandleStorage} (v : Valid handle s)
    {contextHandle : Ctx → ℕ}
    (hfield : ∀ c, s.Has c → contextHandle c &&& (s.slotSize * 2 - 1) =
      handle c &&& (s.slotSize * 2 - 1)) :
    growSlot contextHandle s ≠ .error .newSlotTaken := by
  rw [growSlot]
  split
  · simp
  · rcases v.rehash_range hfield s.slotSize le_rfl with ⟨newSlot, hfold, -⟩ | ⟨hfold, -⟩
    · simp [hfold]
    · simp [hfold]

/-- Growing a full table keeps the invariant and the contexts. -/
lemma Valid.growSlot {handle : Ctx → ℕ} {s : HandleStorage} (v : Valid handle s)
    (contextHandle : Ctx → ℕ)
    (hfull : ∀ i < s.slotSize, s.slot i ≠ none) (hmax : s.slotSize * 2 - 1 ≤ handleMask)
    (hfield : ∀ c, s.Has c → contextHandle c &&& (s.slotSize * 2 - 1) =
      handle c &&& (s.slotSize * 2 - 1)) :
    ∃ s', growSlot contextHandle s = .ok s' ∧ Valid handle s' ∧ (∀ c, s'.Has c ↔ s.Has c) ∧
      s'.slotSize = s.slotSize * 2 ∧ s'.handleIndex = s.handleIndex ∧ s'.harbor = s.harbor ∧
      s'.name = s.name := by
  obtain ⟨newSlot, hfold, hspec⟩ | ⟨-, i, hi, hnone⟩ := v.rehash_range hfield s.slotSize le_rfl
  swap
  · exact absurd hnone (hfull i hi)
  refine ⟨{ s with slot := newSlot, slotSize := s.slotSize * 2 }, ?_, ?_, ?_, rfl, rfl, rfl, rfl⟩
  · rw [HandleStore.growSlot, if_neg (by omega), hfold]
  · have h4 := v.four_le
    constructor
    · obtain ⟨k, hk, hk', hs⟩ := v.size
      have hlt : 2 ^ (k + 1) ≤ 2 ^ 24 := by
        rw [pow_succ, ← hs]
        rw [handleMask_eq] at hmax
        omega
      exact ⟨k + 1, by omega, (Nat.pow_le_pow_iff_right (by omega)).mp hlt, by
        rw [pow_succ, ← hs]⟩
    · exact v.index_pos
    · exact v.index_le
    · exact v.harbor
    · intro j c hj
      obtain ⟨i, hi, hic, heq⟩ := (hspec j c).mp hj
      refine ⟨?_, heq, (v.placed hic).2.2⟩
      rw [← heq, v.two_mul_and_eq_mod]
      exact Nat.mod_lt _ (by omega)
  · intro c
    constructor
    · rintro ⟨j, hj⟩
      obtain ⟨i, -, hic, -⟩ := (hspec j c).mp hj
      exact ⟨i, hic⟩
    · rintro ⟨i, hi⟩
      exact ⟨_, (hspec _ c).mpr ⟨i, (v.placed hi).1, hi, rfl⟩⟩

/-! ## `skynetHandleRegister` -/

lemma rehash_ne_outOfFuel (contextHandle : Ctx → ℕ) (s : HandleStorage) :
    ∀ l f, List.foldlM (rehashSlot contextHandle s) f l ≠ .error .outOfFuel
  | [], _ => fun h => nomatch h
  | i :: l, f => by
    intro h
    rw [List.foldlM_cons] at h
    cases hi : rehashSlot contextHandle s f i with
    | ok g =>
      rw [hi] at h
      exact rehash_ne_outOfFuel contextHandle s l g h
    | error e =>
      rw [hi] at h
      obtain rfl : e = .outOfFuel := by cases h; rfl
      rw [rehashSlot] at hi
      split at hi
      · cases hi
      · simp only at hi
        split at hi <;> cases hi

lemma growSlot_ne_outOfFuel (contextHandle : Ctx → ℕ) (s : HandleStorage) :
    growSlot contextHandle s ≠ .error .outOfFuel := by
  rw [growSlot]
  split
  · simp
  · split
    · rename_i e he
      intro h
      cases h
      exact rehash_ne_outOfFuel _ _ _ _ he
    · simp

/-- The copy loop only ends when it has met no empty slot. -/
lemma full_of_rehash_ok {contextHandle : Ctx → ℕ} {s : HandleStorage} :
    ∀ {l f g}, List.foldlM (rehashSlot contextHandle s) f l = .ok g → ∀ i ∈ l, s.slot i ≠ none
  | j :: l, f, g, h, i, hi => by
    rw [List.foldlM_cons] at h
    cases hj : rehashSlot contextHandle s f j with
    | error e =>
      rw [hj] at h
      cases h
    | ok f' =>
      rw [hj] at h
      rcases List.mem_cons.mp hi with rfl | hi
      · intro hnone
        rw [rehashSlot, hnone] at hj
        cases hj
      · exact full_of_rehash_ok (f := f') h i hi

lemma growSlot_ok {contextHandle : Ctx → ℕ} {s s' : HandleStorage}
    (h : growSlot contextHandle s = .ok s') :
    s'.slotSize = s.slotSize * 2 ∧ s.slotSize * 2 - 1 ≤ handleMask ∧
      ∀ i < s.slotSize, s.slot i ≠ none := by
  rw [growSlot] at h
  split at h
  · cases h
  · rename_i hmax
    split at h
    · cases h
    · rename_i newSlot hfold
      cases h
      exact ⟨rfl, by omega, fun i hi => full_of_rehash_ok hfold i (List.mem_range.mpr hi)⟩

/-- A registration that returns has grown a full table within the limit, or not grown. -/
lemma of_register_ok {contextHandle : Ctx → ℕ} {s s' : HandleStorage} {c : Ctx} {h : ℕ}
    (heq : skynetHandleRegister contextHandle s c = .ok (s', h)) (hscan : s.scan = none) :
    (∀ i < s.slotSize, s.slot i ≠ none) ∧ s.slotSize * 2 - 1 ≤ handleMask := by
  rw [skynetHandleRegister, registerLoop, hscan] at heq
  cases hg : growSlot contextHandle s with
  | error e =>
    rw [hg] at heq
    cases heq
  | ok t =>
    obtain ⟨-, hmax, hfull⟩ := growSlot_ok hg
    exact ⟨hfull, hmax⟩

/-- The loop ends by itself: the size limit stops it before the rounds run out. -/
theorem registerLoop_ne_outOfFuel (contextHandle : Ctx → ℕ) (ctx : Ctx) :
    ∀ (n : ℕ) (s : HandleStorage), 2 ^ 25 ≤ s.slotSize * 2 ^ n →
      registerLoop contextHandle ctx (n + 1) s ≠ .error .outOfFuel
  | n, s, hsize => by
    rw [registerLoop]
    split
    · simp
    · split
      · rename_i e he
        rintro ⟨⟩
        exact growSlot_ne_outOfFuel _ _ he
      · rename_i s' hs'
        obtain ⟨hsize', hmax, -⟩ := growSlot_ok hs'
        cases n with
        | zero =>
          rw [handleMask_eq] at hmax
          omega
        | succ n =>
          refine registerLoop_ne_outOfFuel contextHandle ctx n s' ?_
          rwa [hsize', mul_assoc, ← pow_succ']

/-- The stores of a successful scan keep the invariant. -/
lemma Valid.put {handle : Ctx → ℕ} {s : HandleStorage} (v : Valid handle s) {c : Ctx} {low : ℕ}
    (hfree : s.slot (low &&& (s.slotSize - 1)) = none) (hpos : 1 ≤ low) (hle : low ≤ handleMask)
    (hc : ¬ s.Has c) :
    Valid (Function.update handle c (low ||| s.harbor)) (s.put c low) ∧
      (∀ d, (s.put c low).Has d ↔ d = c ∨ s.Has d) ∧
      ∀ d, s.Has d → handle d ≠ low ||| s.harbor := by
  refine ⟨⟨v.size, by simp [HandleStorage.put], by simpa [HandleStorage.put] using hle,
    v.harbor, ?_⟩, ?_, ?_⟩
  · intro i d hi
    by_cases hid : i = low &&& (s.slotSize - 1)
    · subst hid
      obtain rfl : c = d := by simpa [HandleStorage.put] using hi
      rw [Function.update_self]
      exact ⟨v.and_lt low, v.or_and_size hle, low, hpos, hle, rfl⟩
    · have hi' : s.slot i = some d := by simpa [HandleStorage.put, hid] using hi
      have hdc : d ≠ c := by
        rintro rfl
        exact hc ⟨i, hi'⟩
      rw [Function.update_of_ne hdc]
      exact v.placed hi'
  · intro d
    constructor
    · rintro ⟨i, hi⟩
      by_cases hid : i = low &&& (s.slotSize - 1)
      · subst hid
        exact Or.inl (by simpa [HandleStorage.put, eq_comm] using hi)
      · exact Or.inr ⟨i, by simpa [HandleStorage.put, hid] using hi⟩
    · rintro (rfl | ⟨i, hi⟩)
      · exact ⟨low &&& (s.slotSize - 1), by simp [HandleStorage.put]⟩
      · refine ⟨i, ?_⟩
        have hid : i ≠ low &&& (s.slotSize - 1) := by
          rintro rfl
          rw [hfree] at hi
          cases hi
        simpa [HandleStorage.put, hid] using hi
  · rintro d ⟨i, hi⟩ heq
    have := (v.placed hi).2.1
    rw [heq, v.or_and_size hle] at this
    rw [this, hi] at hfree
    cases hfree

/-- After a growth the scan finds a slot: of slots 1 and `1 + size` one is free. -/
lemma Valid.scan_ne_none_of_grown {handle : Ctx → ℕ} {s s' : HandleStorage}
    (v : Valid handle s) (v' : Valid handle s') (hhas : ∀ c, s'.Has c ↔ s.Has c)
    (hsize : s'.slotSize = s.slotSize * 2) : s'.scan ≠ none := by
  intro h
  have h4 := v.four_le
  obtain ⟨c, hc⟩ := Option.ne_none_iff_exists'.mp
    (v'.taken_of_scan_none h (i := 1) (by omega) le_rfl)
  obtain ⟨d, hd⟩ := Option.ne_none_iff_exists'.mp
    (v'.taken_of_scan_none h (i := 1 + s.slotSize) (by omega) (by omega))
  -- both contexts were in slot 1 of the old table
  have old : ∀ {i e}, s'.slot i = some e → i % s.slotSize = 1 → s.slot 1 = some e := by
    intro i e hi hmod
    obtain ⟨j, hj⟩ := (hhas e).mp ⟨i, hi⟩
    have hj' := (v.placed hj).2.1
    have hi' := (v'.placed hi).2.1
    rw [v.and_eq_mod] at hj'
    rw [v'.and_eq_mod, hsize] at hi'
    have : j = 1 := by rw [← hj', ← Nat.mod_mul_right_mod _ s.slotSize 2, hi', hmod]
    exact this ▸ hj
  have hc' := old hc (Nat.mod_eq_of_lt (by omega))
  have hd' := old hd (by rw [Nat.add_mod_right, Nat.mod_eq_of_lt (by omega)])
  obtain rfl := Option.some.inj (hc'.symm.trans hd')
  have := v'.slot_inj hc hd
  omega

/-- **`skynet_handle_register`.** When the growth code, if it is entered, finds a full table that
may double and reads the handles as they were given (modulo the new size), the new context
gets a handle that no context in the table has. -/
theorem Valid.register {handle : Ctx → ℕ} {s : HandleStorage} (v : Valid handle s)
    (contextHandle : Ctx → ℕ) {c : Ctx} (hc : ¬ s.Has c)
    (hgrow : s.scan = none → (∀ i < s.slotSize, s.slot i ≠ none) ∧
      s.slotSize * 2 - 1 ≤ handleMask ∧
      ∀ d, s.Has d → contextHandle d &&& (s.slotSize * 2 - 1) =
        handle d &&& (s.slotSize * 2 - 1)) :
    ∃ s' h, skynetHandleRegister contextHandle s c = .ok (s', h) ∧
      Valid (Function.update handle c h) s' ∧ (∀ d, s'.Has d ↔ d = c ∨ s.Has d) ∧
      (∀ d, s.Has d → handle d ≠ h) ∧ s'.harbor = s.harbor := by
  cases hscan : s.scan with
  | some low =>
    obtain ⟨hfree, hpos, hle, -⟩ := scanSlot_some hscan v.index_pos v.index_le
    obtain ⟨vput, hput, hne⟩ := v.put hfree hpos hle hc
    refine ⟨s.put c low, low ||| s.harbor, ?_, vput, hput, hne, rfl⟩
    rw [skynetHandleRegister, registerLoop, hscan]
  | none =>
    obtain ⟨hfull, hmax, hfield⟩ := hgrow hscan
    obtain ⟨s', hs', v', hhas, hsize, hindex, hharbor, -⟩ :=
      v.growSlot contextHandle hfull hmax hfield
    obtain ⟨low, hlow⟩ := Option.ne_none_iff_exists'.mp (v.scan_ne_none_of_grown v' hhas hsize)
    obtain ⟨hfree, hpos, hle, -⟩ := scanSlot_some hlow v'.index_pos v'.index_le
    obtain ⟨vput, hput, hne⟩ := v'.put hfree hpos hle (c := c) (by rwa [hhas])
    refine ⟨s'.put c low, low ||| s'.harbor, ?_, vput, ?_, ?_, hharbor⟩
    · rw [skynetHandleRegister, registerLoop, hscan]
      simp only [hs']
      rw [registerLoop, hlow]
    · intro d
      rw [hput, hhas]
    · intro d hd
      exact hne d ((hhas d).mpr hd)

/-! ## `skynetHandleGrab` and `skynetHandleRetire` -/

lemma grab_eq_some {contextHandle : Ctx → ℕ} {s : HandleStorage} {h : ℕ} {c : Ctx} :
    skynetHandleGrab contextHandle s h = some c ↔
      s.slot (h &&& (s.slotSize - 1)) = some c ∧ contextHandle c = h := by
  rw [skynetHandleGrab]
  split
  · rename_i hslot
    simp [hslot]
  · rename_i d hslot
    rw [hslot]
    split
    · rename_i heq
      constructor
      · rintro ⟨rfl⟩
        exact ⟨rfl, heq⟩
      · rintro ⟨hcd, -⟩
        exact hcd
    · rename_i hne
      constructor
      · intro hn
        cases hn
      · rintro ⟨⟨rfl⟩, heq⟩
        exact absurd heq hne

/-- Over a valid table whose contexts have stored their handles, a grab is a lookup. -/
theorem Valid.grab_iff {handle : Ctx → ℕ} {s : HandleStorage} (v : Valid handle s) {h : ℕ}
    {c : Ctx} : skynetHandleGrab handle s h = some c ↔ s.Has c ∧ handle c = h := by
  rw [grab_eq_some]
  constructor
  · rintro ⟨hslot, heq⟩
    exact ⟨⟨_, hslot⟩, heq⟩
  · rintro ⟨⟨i, hi⟩, rfl⟩
    rw [(v.placed hi).2.1]
    exact ⟨hi, rfl⟩

/-- What a grab finds is what a retire releases. -/
lemma retire_snd (contextHandle : Ctx → ℕ) (s : HandleStorage) (h : ℕ) :
    (skynetHandleRetire contextHandle s h).2 = skynetHandleGrab contextHandle s h := by
  rw [skynetHandleRetire, skynetHandleGrab]
  cases s.slot (h &&& (s.slotSize - 1)) with
  | none => rfl
  | some c => by_cases hc : contextHandle c = h <;> simp [hc]

lemma retire_of_grab_none {contextHandle : Ctx → ℕ} {s : HandleStorage} {h : ℕ}
    (hg : skynetHandleGrab contextHandle s h = none) :
    (skynetHandleRetire contextHandle s h).1 = s := by
  rw [skynetHandleGrab] at hg
  rw [skynetHandleRetire]
  cases hslot : s.slot (h &&& (s.slotSize - 1)) with
  | none => rfl
  | some c =>
    have hc : contextHandle c ≠ h := by
      intro hc
      rw [hslot] at hg
      simp [hc] at hg
    simp [hc]

lemma retire_of_grab_some {contextHandle : Ctx → ℕ} {s : HandleStorage} {h : ℕ} {c : Ctx}
    (hg : skynetHandleGrab contextHandle s h = some c) :
    (skynetHandleRetire contextHandle s h).1 =
      { s with
        slot := Function.update s.slot (h &&& (s.slotSize - 1)) none
        name := s.name.filter fun n => n.handle ≠ h } := by
  obtain ⟨hslot, heq⟩ := grab_eq_some.mp hg
  rw [skynetHandleRetire]
  simp [hslot, heq]

/-- Emptying slots keeps the invariant. -/
lemma Valid.of_slot_sub {handle : Ctx → ℕ} {s s' : HandleStorage} (v : Valid handle s)
    (hslot : ∀ {i c}, s'.slot i = some c → s.slot i = some c)
    (hsize : s'.slotSize = s.slotSize) (hindex : s'.handleIndex = s.handleIndex)
    (hharbor : s'.harbor = s.harbor) : Valid handle s' where
  size := hsize ▸ v.size
  index_pos := hindex ▸ v.index_pos
  index_le := hindex ▸ v.index_le
  harbor := hharbor ▸ v.harbor
  placed := fun hi => by rw [hsize, hharbor]; exact v.placed (hslot hi)

/-- **`skynet_handle_retire`** keeps the invariant and removes the context that a grab of the
same handle finds, and no other. -/
theorem Valid.retire {handle : Ctx → ℕ} {s : HandleStorage} (v : Valid handle s)
    (contextHandle : Ctx → ℕ) (h : ℕ) :
    Valid handle (skynetHandleRetire contextHandle s h).1 ∧
      ∀ d, (skynetHandleRetire contextHandle s h).1.Has d ↔
        s.Has d ∧ skynetHandleGrab contextHandle s h ≠ some d := by
  cases hg : skynetHandleGrab contextHandle s h with
  | none =>
    rw [retire_of_grab_none hg]
    exact ⟨v, fun d => by simp⟩
  | some c =>
    rw [retire_of_grab_some hg]
    obtain ⟨hslot, -⟩ := grab_eq_some.mp hg
    have hsub : ∀ {i d},
        Function.update s.slot (h &&& (s.slotSize - 1)) none i = some d ↔
          s.slot i = some d ∧ i ≠ h &&& (s.slotSize - 1) := by
      intro i d
      by_cases hi : i = h &&& (s.slotSize - 1)
      · simp [hi]
      · simp [hi]
    refine ⟨v.of_slot_sub (fun hi => (hsub.mp hi).1) rfl rfl rfl, fun d => ?_⟩
    constructor
    · rintro ⟨i, hi⟩
      obtain ⟨hi, hne⟩ := hsub.mp hi
      refine ⟨⟨i, hi⟩, ?_⟩
      rintro ⟨⟩
      exact hne (v.slot_inj hi hslot)
    · rintro ⟨⟨i, hi⟩, hne⟩
      refine ⟨i, hsub.mpr ⟨hi, ?_⟩⟩
      rintro rfl
      exact hne (hslot.symm.trans hi)

/-! ## `skynetHandleRetireall` -/

/-- The first `n` rounds of a pass empty the first `n` slots and touch no other. -/
lemma Valid.retirePass_range {handle : Ctx → ℕ} {s : HandleStorage} (v : Valid handle s) :
    ∀ n, let r := (List.range n).foldl (retireSlot handle) (s, 0)
      (∀ i, r.1.slot i = if i < n then none else s.slot i) ∧ r.1.slotSize = s.slotSize ∧
        r.1.handleIndex = s.handleIndex ∧ r.1.harbor = s.harbor
  | 0 => ⟨fun i => by simp, rfl, rfl, rfl⟩
  | n + 1 => by
    obtain ⟨hslot, hsize, hindex, hharbor⟩ := v.retirePass_range n
    rw [List.range_succ, List.foldl_append, List.foldl_cons, List.foldl_nil]
    generalize (List.range n).foldl (retireSlot handle) (s, 0) = r at hslot hsize hindex hharbor
    have v' : Valid handle r.1 := by
      refine v.of_slot_sub (fun {i c} hi => ?_) hsize hindex hharbor
      rw [hslot] at hi
      split at hi
      · cases hi
      · exact hi
    have hn : r.1.slot n = s.slot n := by rw [hslot, if_neg (by omega)]
    cases hs : s.slot n with
    | none =>
      have hkeep : retireSlot handle r n = r := by simp [retireSlot, hn, hs]
      rw [hkeep]
      refine ⟨fun i => ?_, hsize, hindex, hharbor⟩
      rw [hslot]
      by_cases hi : i = n
      · subst hi
        simp [hs]
      · simp only [show i < n + 1 ↔ i < n by omega]
    | some c =>
      have hc : r.1.slot n = some c := hn.trans hs
      have hg : skynetHandleGrab handle r.1 (handle c) = some c :=
        v'.grab_iff.mpr ⟨⟨n, hc⟩, rfl⟩
      have hstep : (retireSlot handle r n).1 = (skynetHandleRetire handle r.1 (handle c)).1 := by
        simp only [retireSlot, hc, ne_eq, v'.ne_zero hc, not_false_eq_true, if_true]
        split <;> simp_all
      simp only [hstep, retire_of_grab_some hg, (v'.placed hc).2.1]
      refine ⟨fun i => ?_, hsize, hindex, hharbor⟩
      by_cases hi : i = n
      · subst hi
        simp
      · rw [Function.update_of_ne hi, hslot]
        simp only [show i < n + 1 ↔ i < n by omega]

/-- **`skynet_handle_retireall`** empties the table. -/
theorem Valid.retireall {handle : Ctx → ℕ} {s : HandleStorage} (v : Valid handle s) :
    Valid handle (skynetHandleRetireall handle s) ∧
      (∀ c, ¬ (skynetHandleRetireall handle s).Has c) ∧
      (skynetHandleRetireall handle s).harbor = s.harbor := by
  have hpass : ∀ {t : HandleStorage}, Valid handle t →
      Valid handle (retirePass handle t).1 ∧ (∀ i, (retirePass handle t).1.slot i = none) ∧
        (retirePass handle t).1.harbor = t.harbor := by
    intro t vt
    obtain ⟨hslot, hsize, hindex, hharbor⟩ := vt.retirePass_range t.slotSize
    have hnone : ∀ i, (retirePass handle t).1.slot i = none := by
      intro i
      rw [retirePass, hslot]
      split
      · rfl
      · rename_i hi
        by_contra hne
        obtain ⟨c, hc⟩ := Option.ne_none_iff_exists'.mp hne
        exact hi (vt.placed hc).1
    refine ⟨vt.of_slot_sub (fun {i c} hi => ?_) hsize hindex hharbor, hnone, hharbor⟩
    rw [hnone] at hi
    cases hi
  have hloop : ∀ k {t : HandleStorage}, Valid handle t →
      Valid handle (retireallLoop handle (k + 1) t) ∧
        (∀ i, (retireallLoop handle (k + 1) t).slot i = none) ∧
        (retireallLoop handle (k + 1) t).harbor = t.harbor := by
    intro k
    induction k with
    | zero =>
      intro t vt
      have := hpass vt
      simp only [retireallLoop]
      split <;> exact this
    | succ k ih =>
      intro t vt
      rw [retireallLoop]
      simp only
      split
      · exact hpass vt
      · obtain ⟨vt', -, hharbor⟩ := hpass vt
        obtain ⟨vr, hr, hr'⟩ := ih vt'
        exact ⟨vr, hr, hr'.trans hharbor⟩
  obtain ⟨vr, hr, hharbor⟩ := hloop s.slotSize v
  refine ⟨vr, ?_, hharbor⟩
  rintro c ⟨i, hi⟩
  rw [skynetHandleRetireall, hr] at hi
  cases hi

end SkynetEureka.HandleStore
