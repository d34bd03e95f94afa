import SkynetEureka.Sproto.Segments

/-!
# Packing segments

The packed form of a message, segment by segment: `Packing` holds the finished bytes and the FF
block that is still open. `whole` takes the packed form apart into the segments again
(`whole_packed`).
-/

namespace SkynetEureka.Sproto

/-! ## Packed segments -/

/-- The header of a segment. -/
def headerOf (seg : List UInt8) : UInt8 :=
  (List.range 8).foldl (fun h i => if seg.getD i 0 ≠ 0 then h ||| 1 <<< UInt8.ofNat i else h) 0

/-- The bytes of a segment that are not zero. -/
def nonzero (seg : List UInt8) : List UInt8 := seg.filter fun b => b ≠ 0

/-- A segment with its header. -/
def sparse (seg : List UInt8) : List UInt8 := headerOf seg :: nonzero seg

/-- An FF block. -/
def block (run : List (List UInt8)) : List UInt8 :=
  if run = [] then [] else 0xff :: UInt8.ofNat (run.length - 1) :: run.flatten

/-- A message that is packed so far. -/
structure Packing where
  done : List UInt8
  /-- the segments of the FF block that is still open -/
  run : List (List UInt8)
  /-- the last segment has no zero byte, and joined a block that was open -/
  spill : Bool
  /-- the last segment was the last one of a block of 256 -/
  closed : Bool

/-- The message with one segment more. A segment without a zero byte opens a block; one with at
most two zero bytes joins a block that is open. -/
def Packing.add (p : Packing) (seg : List UInt8) : Packing :=
  let n := (nonzero seg).length
  if p.run = [] then
    if n = 8 then ⟨p.done, [seg], false, false⟩ else ⟨p.done ++ sparse seg, [], false, false⟩
  else if 6 ≤ n then
    if p.run.length = 255 then ⟨p.done ++ block (p.run ++ [seg]), [], n = 8, true⟩
    else ⟨p.done, p.run ++ [seg], n = 8, false⟩
  else ⟨p.done ++ block p.run ++ sparse seg, [], false, false⟩

/-- The packed form. -/
def Packing.bytes (p : Packing) : List UInt8 := p.done ++ block p.run

/-- The message with zeros up to the next multiple of 8. -/
def padded (x : List UInt8) : List UInt8 := x ++ List.replicate ((8 - x.length % 8) % 8) 0

/-- The segment `k` of a message. -/
def chunk (x : List UInt8) (k : ℕ) : List UInt8 := ((padded x).drop (8 * k)).take 8

/-- The first `k` segments, packed. -/
def packingTo (x : List UInt8) (k : ℕ) : Packing :=
  (List.range k).foldl (fun p i => p.add (chunk x i)) ⟨[], [], false, false⟩

/-- All segments of a message, packed. -/
def packing (x : List UInt8) : Packing := packingTo x ((x.length + 7) / 8)

/-- The packed form of a message. -/
def packed (x : List UInt8) : List UInt8 := (packing x).bytes

/-! ## Segments of a message -/

theorem length_padded (x : List UInt8) : (padded x).length = (x.length + 7) / 8 * 8 := by
  rw [padded, List.length_append, List.length_replicate]
  omega

theorem length_chunk {x : List UInt8} {k : ℕ} (h : k < (x.length + 7) / 8) :
    (chunk x k).length = 8 := by
  rw [chunk, List.length_take, List.length_drop, length_padded]
  omega

/-- The segments in front of `k`. -/
theorem take_padded_succ {x : List UInt8} {k : ℕ} :
    (padded x).take (8 * (k + 1)) = (padded x).take (8 * k) ++ chunk x k := by
  rw [chunk, Nat.mul_succ, List.take_add]

theorem take_padded_count (x : List UInt8) :
    (padded x).take (8 * ((x.length + 7) / 8)) = padded x := by
  apply List.take_of_length_le
  rw [length_padded]
  omega

theorem packingTo_succ (x : List UInt8) (k : ℕ) :
    packingTo x (k + 1) = (packingTo x k).add (chunk x k) := by
  rw [packingTo, packingTo, List.range_succ, List.foldl_append]
  rfl

/-! ## The header of a segment -/

/-- The header with these bits, put together as `pack_seg` does it. -/
def headerBits (bit : ℕ → Bool) : UInt8 :=
  (List.range 8).foldl (fun h i => if bit i then h ||| 1 <<< UInt8.ofNat i else h) 0

theorem marked_iff {header : UInt8} {i : ℕ} (hi : i < 8) :
    marked header i ↔ header.toNat.testBit i = true := by
  have hmod : i % 2 ^ 8 % 8 = i := by omega
  rw [marked, ← UInt8.toNat_inj, UInt8.toNat_and, UInt8.toNat_shiftRight, UInt8.toNat_ofNat', hmod]
  show header.toNat >>> i &&& 1 = 1 ↔ _
  rw [Nat.testBit, Nat.and_comm, bne_iff_ne, Nat.one_and_eq_mod_two]
  omega

/-- The bits that have been put into the header so far -/
theorem testBit_headerBits (bit : ℕ → Bool) {k : ℕ} (hk : k ≤ 8) (i : ℕ) :
    ((List.range k).foldl (fun h i => if bit i then h ||| 1 <<< UInt8.ofNat i else h)
      (0 : UInt8)).toNat.testBit i = (decide (i < k) && bit i) := by
  induction k with
  | zero => simp
  | succ k ih =>
    rw [List.range_succ, List.foldl_append, List.foldl_cons, List.foldl_nil]
    have ih := ih (by omega)
    have hmod : k % 2 ^ 8 % 8 = k := by omega
    have hshift : (1 <<< UInt8.ofNat k : UInt8).toNat = 2 ^ k := by
      rw [UInt8.toNat_shiftLeft, UInt8.toNat_ofNat', hmod]
      show 1 <<< k % 2 ^ 8 = 2 ^ k
      rw [Nat.one_shiftLeft, Nat.mod_eq_of_lt (Nat.pow_lt_pow_right (by omega) (by omega))]
    by_cases hbit : bit k = true
    · rw [if_pos hbit, UInt8.toNat_or, Nat.testBit_lor, ih, hshift, Nat.testBit_two_pow]
      by_cases hi : k = i
      · rw [← hi, hbit]
        simp
      · have hlt : i < k + 1 ↔ i < k := by omega
        simp [hi, hlt]
    · rw [if_neg hbit, ih]
      by_cases hi : i = k
      · rw [hi, Bool.eq_false_iff.mpr hbit]
        simp
      · have hlt : i < k + 1 ↔ i < k := by omega
        simp [hlt]

theorem marked_headerBits (bit : ℕ → Bool) {i : ℕ} (hi : i < 8) :
    marked (headerBits bit) i ↔ bit i = true := by
  rw [marked_iff hi, headerBits, testBit_headerBits bit le_rfl, decide_eq_true hi, Bool.true_and]

theorem marked_headerOf {seg : List UInt8} {i : ℕ} (hi : i < 8) :
    marked (headerOf seg) i ↔ seg.getD i 0 ≠ 0 := by
  have heq : headerOf seg = headerBits fun j => decide (seg.getD j 0 ≠ 0) := by
    simp only [headerOf, headerBits, decide_eq_true_eq]
  rw [heq, marked_headerBits _ hi, decide_eq_true_eq]

/-- The bytes of a segment come back from behind its header. -/
theorem spread_nonzero (header : UInt8) (seg rest : List UInt8) (k : ℕ)
    (hbits : ∀ i < seg.length, marked header (k + i) ↔ seg.getD i 0 ≠ 0) :
    spread header (List.range' k seg.length) (nonzero seg ++ rest) = seg ∧
      weight header (List.range' k seg.length) = (nonzero seg).length := by
  induction seg generalizing k with
  | nil => exact ⟨rfl, rfl⟩
  | cons c seg ih =>
    have hfirst := hbits 0 (by rw [List.length_cons]; omega)
    rw [Nat.add_zero, List.getD_cons_zero] at hfirst
    obtain ⟨hspread, hweight⟩ := ih (k + 1) fun i hi => by
      have := hbits (i + 1) (by rw [List.length_cons]; omega)
      rwa [List.getD_cons_succ, Nat.add_comm i 1, ← Nat.add_assoc] at this
    rw [List.length_cons, List.range'_succ, weight_cons, spread, hweight]
    by_cases hc : c = 0
    · have hplain : ¬ marked header k := fun hm => hfirst.mp hm hc
      have hnz : nonzero (c :: seg) = nonzero seg := by
        rw [nonzero, List.filter_cons_of_neg (by simp [hc])]
        rfl
      rw [if_neg hplain, if_neg hplain, hnz, hspread, hc]
      exact ⟨rfl, rfl⟩
    · have hmark : marked header k := hfirst.mpr hc
      have hnz : nonzero (c :: seg) = c :: nonzero seg := by
        rw [nonzero, List.filter_cons_of_pos (by simp [hc])]
        rfl
      rw [if_pos hmark, if_pos hmark, hnz, List.cons_append, List.headD_cons, List.tail_cons,
        hspread, List.length_cons]
      exact ⟨rfl, rfl⟩

theorem nonzero_length_le (seg : List UInt8) : (nonzero seg).length ≤ seg.length :=
  List.length_filter_le _ _

/-- Only a segment without a zero byte has the header `0xff`. -/
theorem headerOf_ne_ff {seg : List UInt8} (h : seg.length = 8) (hn : (nonzero seg).length ≠ 8) :
    headerOf seg ≠ 0xff := by
  intro hff
  obtain ⟨-, hweight⟩ := spread_nonzero (headerOf seg) seg [] 0 fun i hi => by
    rw [Nat.zero_add]
    exact marked_headerOf (by omega)
  rw [hff, h] at hweight
  exact hn (hweight.symm.trans (by decide))

/-! ## Back to the segments -/

/-- The bytes `b` are whole segments that unpack to `u`. -/
def Unpacks (b u : List UInt8) : Prop :=
  ∀ rest, whole (b ++ rest) = (u ++ (whole rest).1, (whole rest).2)

theorem Unpacks.nil : Unpacks [] [] := fun _ => rfl

theorem Unpacks.append {b u b' u' : List UInt8} (h : Unpacks b u) (h' : Unpacks b' u') :
    Unpacks (b ++ b') (u ++ u') := by
  intro rest
  rw [List.append_assoc, h, h', List.append_assoc]

theorem Unpacks.whole {b u : List UInt8} (h : Unpacks b u) : whole b = (u, []) := by
  have := h []
  rwa [List.append_nil, whole_nil, List.append_nil] at this

theorem unpacks_sparse {seg : List UInt8} (h : seg.length = 8) (hn : (nonzero seg).length ≠ 8) :
    Unpacks (sparse seg) seg := by
  intro rest
  obtain ⟨hspread, hweight⟩ := spread_nonzero (headerOf seg) seg rest 0 fun i hi => by
    rw [Nat.zero_add]
    exact marked_headerOf (by omega)
  rw [h, ← List.range_eq_range'] at hspread hweight
  apply whole_of_some
  rw [sparse, List.cons_append, segment_plain (headerOf_ne_ff h hn), hspread, hweight,
    if_neg (by rw [List.length_append]; omega), List.drop_left]

theorem length_flatten_run {run : List (List UInt8)} (h : ∀ seg ∈ run, seg.length = 8) :
    run.flatten.length = 8 * run.length := by
  rw [List.length_flatten, List.map_congr_left h, List.map_const', List.sum_replicate,
    smul_eq_mul, Nat.mul_comm]

theorem unpacks_block {run : List (List UInt8)} (h : ∀ seg ∈ run, seg.length = 8)
    (hrun : run.length ≤ 256) : Unpacks (block run) run.flatten := by
  by_cases hnil : run = []
  · rw [block, if_pos hnil, hnil]
    exact Unpacks.nil
  · intro rest
    have hpos := List.length_pos_of_ne_nil hnil
    have hlen := length_flatten_run h
    have hcount : ((UInt8.ofNat (run.length - 1)).toNat + 1) * 8 = run.flatten.length := by
      rw [UInt8.toNat_ofNat', Nat.mod_eq_of_lt (by omega), hlen]
      omega
    apply whole_of_some
    rw [block, if_neg hnil, List.cons_append, List.cons_append, segment_ff, hcount,
      if_neg (by rw [List.length_append]; omega), List.take_left, List.drop_left]

/-! ## The packed form -/

/-- The number of bytes that a segment adds to the packed form. -/
def Packing.cost (p : Packing) (seg : List UInt8) : ℕ :=
  let n := (nonzero seg).length
  if p.run = [] then if n = 8 then 10 else n + 1
  else if 6 ≤ n then 8 else n + 1

theorem length_sparse (seg : List UInt8) : (sparse seg).length = (nonzero seg).length + 1 :=
  List.length_cons ..

theorem length_block {run : List (List UInt8)} (h : ∀ seg ∈ run, seg.length = 8)
    (hnil : run ≠ []) : (block run).length = 8 * run.length + 2 := by
  rw [block, if_neg hnil, List.length_cons, List.length_cons, length_flatten_run h]

theorem length_block_add {run : List (List UInt8)} {seg : List UInt8}
    (h : ∀ seg ∈ run, seg.length = 8) (hseg : seg.length = 8) (hnil : run ≠ []) :
    (block (run ++ [seg])).length = (block run).length + 8 := by
  have hall : ∀ s ∈ run ++ [seg], s.length = 8 := by
    intro s hs
    rcases List.mem_append.mp hs with hs | hs
    · exact h s hs
    · rw [List.mem_singleton.mp hs, hseg]
  rw [length_block hall (List.append_ne_nil_of_left_ne_nil hnil _), length_block h hnil,
    List.length_append, List.length_singleton]
  omega

/-- The first `k` segments of the message `x` are packed in `p`. -/
structure Packing.Sound (x : List UInt8) (k : ℕ) (p : Packing) : Prop where
  short : p.run.length ≤ 255
  segs : ∀ seg ∈ p.run, seg.length = 8
  back : p.run.length ≤ k
  flat : p.run.flatten = ((padded x).drop (8 * (k - p.run.length))).take (8 * p.run.length)
  done : Unpacks p.done ((padded x).take (8 * (k - p.run.length)))

section Sound

variable {x seg : List UInt8} {k : ℕ} {p : Packing}

/-- The segments of the open block and one more. -/
theorem Packing.Sound.flat_add (h : p.Sound x k) :
    (p.run ++ [chunk x k]).flatten =
      ((padded x).drop (8 * (k - p.run.length))).take (8 * (p.run.length + 1)) := by
  have hback := h.back
  have hsum : 8 * (k - p.run.length) + 8 * p.run.length = 8 * k := by omega
  rw [List.flatten_append, h.flat, Nat.mul_succ, List.take_add, List.drop_drop, hsum, chunk,
    List.flatten_singleton]

theorem Packing.Sound.segs_add (h : p.Sound x k) (hk : k < (x.length + 7) / 8) :
    ∀ seg ∈ p.run ++ [chunk x k], seg.length = 8 := by
  intro seg hs
  rcases List.mem_append.mp hs with hs | hs
  · exact h.segs seg hs
  · rw [List.mem_singleton.mp hs, length_chunk hk]

/-- The finished bytes and the open block unpack to all segments so far. -/
theorem Packing.Sound.unpacks (h : p.Sound x k) :
    Unpacks p.bytes ((padded x).take (8 * k)) := by
  have hback := h.back
  have hsum : 8 * k = 8 * (k - p.run.length) + 8 * p.run.length := by omega
  rw [hsum, List.take_add, ← h.flat]
  exact h.done.append (unpacks_block h.segs (h.short.trans (by decide)))

theorem Packing.Sound.add (h : p.Sound x k) (hk : k < (x.length + 7) / 8) :
    (p.add (chunk x k)).Sound x (k + 1) := by
  have hseg := length_chunk hk
  have hback := h.back
  have hnext := h.segs_add hk
  have hunpacks := h.unpacks
  unfold Packing.add
  by_cases hnil : p.run = []
  · have hdone : Unpacks p.done ((padded x).take (8 * k)) := by
      rwa [Packing.bytes, hnil, block, if_pos rfl, List.append_nil] at hunpacks
    rw [if_pos hnil]
    by_cases hfull : (nonzero (chunk x k)).length = 8
    · rw [if_pos hfull]
      refine ⟨(by decide : 1 ≤ 255), fun s hs => ?_, Nat.le_add_left 1 k, ?_, hdone⟩
      · rw [List.mem_singleton.mp hs, hseg]
      · exact List.append_nil _
    · rw [if_neg hfull]
      refine ⟨Nat.zero_le _, fun s hs => (by cases hs), Nat.zero_le _, List.take_zero.symm, ?_⟩
      rw [List.length_nil, Nat.sub_zero, take_padded_succ]
      exact hdone.append (unpacks_sparse hseg hfull)
  · rw [if_neg hnil]
    by_cases hjoin : 6 ≤ (nonzero (chunk x k)).length
    · rw [if_pos hjoin]
      have hlen : (p.run ++ [chunk x k]).length = p.run.length + 1 := List.length_append
      have hshort := h.short
      by_cases hclose : p.run.length = 255
      · rw [if_pos hclose]
        refine ⟨Nat.zero_le _, fun s hs => (by cases hs), Nat.zero_le _, List.take_zero.symm, ?_⟩
        have hsum : 8 * (k + 1) = 8 * (k - p.run.length) + 8 * (p.run.length + 1) := by omega
        rw [List.length_nil, Nat.sub_zero, hsum, List.take_add, ← h.flat_add]
        exact h.done.append (unpacks_block hnext (by rw [hlen]; omega))
      · rw [if_neg hclose]
        have hkeep : k + 1 - (p.run ++ [chunk x k]).length = k - p.run.length := by omega
        refine ⟨by rw [hlen]; omega, hnext, by rw [hlen]; omega, ?_, ?_⟩
        · rw [hkeep, hlen]
          exact h.flat_add
        · rw [hkeep]
          exact h.done
    · rw [if_neg hjoin]
      refine ⟨Nat.zero_le _, fun s hs => (by cases hs), Nat.zero_le _, List.take_zero.symm, ?_⟩
      rw [List.length_nil, Nat.sub_zero, take_padded_succ]
      exact hunpacks.append (unpacks_sparse hseg (by omega))

theorem packingTo_sound (h : k ≤ (x.length + 7) / 8) : (packingTo x k).Sound x k := by
  induction k with
  | zero =>
    exact ⟨Nat.zero_le _, fun s hs => (by cases hs), le_rfl, List.take_zero.symm, Unpacks.nil⟩
  | succ k ih =>
    rw [packingTo_succ]
    exact (ih (by omega)).add (by omega)

/-- The packed form of a message unpacks to the message, padded with zeros. -/
theorem whole_packed (x : List UInt8) : whole (packed x) = (padded x, []) := by
  have h := (packingTo_sound (x := x) le_rfl).unpacks
  rw [take_padded_count] at h
  exact h.whole

theorem Packing.Sound.length_add (h : p.Sound x k) (hk : k < (x.length + 7) / 8) :
    (p.add (chunk x k)).bytes.length = p.bytes.length + p.cost (chunk x k) := by
  have hseg := length_chunk hk
  unfold Packing.add Packing.cost Packing.bytes
  by_cases hnil : p.run = []
  · rw [if_pos hnil, if_pos hnil, hnil]
    by_cases hfull : (nonzero (chunk x k)).length = 8
    · rw [if_pos hfull, if_pos hfull, List.length_append, List.length_append,
        length_block (by intro s hs; rw [List.mem_singleton.mp hs, hseg]) (List.cons_ne_nil _ _)]
      rfl
    · rw [if_neg hfull, if_neg hfull]
      show (p.done ++ sparse (chunk x k) ++ block []).length = _
      rw [block, if_pos rfl, List.append_nil, List.append_nil, List.length_append, length_sparse]
  · rw [if_neg hnil, if_neg hnil]
    have hlen := length_block_add h.segs hseg hnil
    by_cases hjoin : 6 ≤ (nonzero (chunk x k)).length
    · rw [if_pos hjoin, if_pos hjoin]
      by_cases hclose : p.run.length = 255
      · rw [if_pos hclose]
        show (p.done ++ block (p.run ++ [chunk x k]) ++ block []).length = _
        rw [block.eq_def [], if_pos rfl, List.append_nil, List.length_append, List.length_append,
          hlen]
        omega
      · rw [if_neg hclose]
        show (p.done ++ block (p.run ++ [chunk x k])).length = _
        rw [List.length_append, List.length_append, hlen]
        omega
    · rw [if_neg hjoin, if_neg hjoin]
      show (p.done ++ block p.run ++ sparse (chunk x k) ++ block []).length = _
      rw [block.eq_def [], if_pos rfl, List.append_nil, List.length_append, length_sparse]

end Sound

end SkynetEureka.Sproto
