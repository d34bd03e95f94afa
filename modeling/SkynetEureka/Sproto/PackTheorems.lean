import SkynetEureka.Sproto.Pack
import SkynetEureka.Sproto.Packing

/-!
# pack_seg and write_ff

What the two helpers of `sproto_pack` write into the buffer, and which segment of the message
the loop reads: in the message itself, or in the copy of its end that is filled up with zeros.
-/

namespace SkynetEureka.Sproto

open Lib

/-! ## pack_seg -/

section packSeg

variable {src : ℕ → Checked UInt8} {seg : List UInt8} {buffer n : ℕ} {out : Cells} {sz : ℤ}

theorem nonzero_take_succ {i : ℕ} (hi : i < seg.length) :
    nonzero (seg.take (i + 1)) =
      nonzero (seg.take i) ++ if seg.getD i 0 ≠ 0 then [seg.getD i 0] else [] := by
  have hget : seg.getD i 0 = seg[i] := by
    rw [List.getD_eq_getElem?_getD, List.getElem?_eq_getElem hi, Option.getD_some]
  rw [List.take_succ_eq_append_getElem hi, nonzero, List.filter_append, hget]
  by_cases hz : seg[i] = 0
  · rw [if_neg (not_not.mpr hz), List.filter_cons_of_neg (by simp [hz]), List.filter_nil]
    rfl
  · rw [if_pos hz, List.filter_cons_of_pos (by simp [hz]), List.filter_nil]
    rfl

/-- The loop of `pack_seg` behind `k` bytes: those that are not zero are written as long as there
is room for them. -/
theorem packSegBytes_eq (hsrc : ∀ i < 8, src i = .ok (seg.getD i 0)) (hseg : seg.length = 8)
    (hroom : sz > 0 → buffer + sz ≤ out.length) {k : ℕ} (hk : k ≤ 8) :
    (List.range k).foldlM (packSegByte src) ⟨0, 0, buffer, sz, out⟩ = .ok
      { header := (List.range k).foldl
          (fun h i => if seg.getD i 0 ≠ 0 then h ||| 1 <<< UInt8.ofNat i else h) 0
        notzero := (nonzero (seg.take k)).length
        buffer := buffer + min (nonzero (seg.take k)).length sz.toNat
        sz := sz - min (nonzero (seg.take k)).length sz.toNat
        out := overwrite out buffer ((nonzero (seg.take k)).take sz.toNat) } := by
  induction k with
  | zero =>
    show (Except.ok _ : Checked SegState) = _
    rw [List.take_zero, nonzero, List.filter_nil, List.length_nil, List.take_nil, overwrite_nil,
      Nat.zero_min, Nat.add_zero]
    simp
  | succ k ih =>
    rw [List.range_succ, List.foldlM_append, ih (by omega), checked_bind_ok, List.foldl_append,
      nonzero_take_succ (by omega), List.foldlM_cons, List.foldl_cons, List.foldl_nil]
    generalize nonzero (seg.take k) = nz
    unfold packSegByte
    rw [hsrc k (by omega), checked_bind_ok]
    by_cases hz : seg.getD k 0 = 0
    · rw [if_neg (not_not.mpr hz), if_neg (not_not.mpr hz), if_neg (not_not.mpr hz),
        List.append_nil]
      rfl
    · rw [if_pos hz, if_pos hz, if_pos hz, List.length_append, List.length_singleton]
      by_cases hlt : nz.length < sz.toNat
      · -- the byte is written behind the others
        have hmin : min nz.length sz.toNat = nz.length := by omega
        have hmin' : min (nz.length + 1) sz.toNat = nz.length + 1 := by omega
        have hout := hroom (by omega)
        have hwrite : writeAt (overwrite out buffer nz) (buffer + nz.length) (seg.getD k 0) =
            .ok (overwrite out buffer (nz ++ [seg.getD k 0])) := by
          rw [writeAt_eq_overwrite _ (by rw [length_overwrite (by omega)]; omega),
            overwrite_append (by rw [List.length_singleton]; omega)]
        rw [hmin, hmin', List.take_of_length_le hlt.le, List.take_of_length_le (by
          rw [List.length_append, List.length_singleton]
          omega)]
        rw [if_pos (by show sz - nz.length > 0; omega), hwrite]
        have hleft : sz - (nz.length : ℤ) - 1 = sz - ((nz.length + 1 : ℕ) : ℤ) := by
          push_cast
          ring
        show (Except.ok (SegState.mk _ _ _ (sz - (nz.length : ℤ) - 1) _) : Checked SegState) = _
        rw [hleft]
        rfl
      · have hmin : min nz.length sz.toNat = sz.toNat := by omega
        have hmin' : min (nz.length + 1) sz.toNat = sz.toNat := by omega
        rw [hmin, hmin', List.take_append_of_le_length (by omega)]
        rw [if_neg (by show ¬ sz - sz.toNat > 0; omega)]
        rfl

/-- What a segment costs; `n` segments are in the open block. -/
def segCost (seg : List UInt8) (n : ℕ) : ℕ :=
  if n = 0 then if (nonzero seg).length = 8 then 10 else (nonzero seg).length + 1
  else if 6 ≤ (nonzero seg).length then 8 else (nonzero seg).length + 1

/-- The segment belongs to an FF block. -/
def joins (seg : List UInt8) (n : ℕ) : Prop :=
  if n = 0 then (nonzero seg).length = 8 else 6 ≤ (nonzero seg).length

instance (seg : List UInt8) (n : ℕ) : Decidable (joins seg n) :=
  inferInstanceAs (Decidable (if n = 0 then _ else _))

/-- `pack_seg`: a segment of a block leaves its bytes behind the first one, any other segment is
written with its header. -/
theorem packSeg_eq (hsrc : ∀ i < 8, src i = .ok (seg.getD i 0)) (hseg : seg.length = 8)
    (hroom : sz > 0 → buffer + sz ≤ out.length) :
    packSeg src buffer out sz n = .ok (segCost seg n,
      if joins seg n ∨ sz ≤ 0 then
        overwrite out (buffer + 1) ((nonzero seg).take (sz - 1).toNat)
      else overwrite out buffer (headerOf seg :: (nonzero seg).take (sz - 1).toNat)) := by
  have hbytes : (List.range 8).foldlM (packSegByte src) ⟨0, 0, buffer + 1, sz - 1, out⟩ = _ :=
    packSegBytes_eq hsrc hseg (fun hpos => by
      have := hroom (by omega)
      push_cast
      omega) le_rfl
  have hle := nonzero_length_le seg
  rw [List.take_of_length_le hseg.le] at hbytes
  set m := (nonzero seg).length with hm
  have hlen : ((nonzero seg).take (sz - 1).toNat).length ≤ (sz - 1).toNat := List.length_take_le ..
  generalize hnz : (if (m = 7 ∨ m = 6) ∧ n > 0 then 8 else m) = notzero
  have hjoin : joins seg n ↔ notzero = 8 := by
    rw [← hnz, joins]
    split_ifs <;> omega
  unfold packSeg
  rw [hbytes, checked_bind_ok]
  simp only [hnz]
  by_cases hj : joins seg n
  · have hcost : (if n > 0 then 8 else 10) = segCost seg n := by
      rw [joins] at hj
      rw [segCost]
      split_ifs at hj ⊢ <;> omega
    rw [if_pos (hjoin.mp hj), if_pos (Or.inl hj), hcost, checked_pure]
  · have hcost : notzero + 1 = segCost seg n := by
      rw [← hnz, segCost]
      rw [joins] at hj
      split_ifs at hj ⊢ <;> omega
    rw [if_neg (fun h => hj (hjoin.mpr h))]
    by_cases hsz : sz ≤ 0
    · rw [if_pos (Or.inr hsz), if_pos (by omega : sz - 1 < 0), checked_pure, checked_bind_ok,
        hcost, checked_pure]
    · have hfit := hroom (by omega)
      have hplain : ¬ (joins seg n ∨ sz ≤ 0) := fun h => h.elim hj hsz
      rw [if_neg hplain, if_neg (by omega : ¬ sz - 1 < 0),
        writeAt_eq_overwrite _ (by rw [length_overwrite (by omega)]; omega),
        overwrite_front _ (by omega), checked_bind_ok, hcost, checked_pure]
      rfl

end packSeg

/-! ## write_ff -/

section writeFf

variable {srcv : List UInt8} {out : Cells} {offset des m n : ℕ}

/-- `write_ff` for `m` segments of which the message has `n` bytes. -/
theorem writeFf_ok (hm : (n + 7) / 8 = m) (hsrc : offset + n ≤ srcv.length)
    (hout : des + (8 * m + 2) ≤ out.length) :
    writeFf srcv (.srcv offset) out des n = .ok (overwrite out des (0xff :: UInt8.ofNat (m - 1) ::
      ((srcv.drop offset).take n ++ List.replicate (8 * m - n) 0))) := by
  have hn : n ≤ 8 * m := by omega
  have hread : ((srcv.drop offset).take n).length = n := by
    rw [List.length_take, List.length_drop]
    omega
  generalize hbytes : (srcv.drop offset).take n = bytes at hread
  have hcells : ∀ l : List UInt8, des + l.length ≤ out.length →
      (overwrite out des l).length = out.length := fun l hl => length_overwrite hl
  have h₁ : writeAt out des 0xff = .ok (overwrite out des [0xff]) :=
    writeAt_eq_overwrite _ (by omega)
  have h₂ : writeAt (overwrite out des [0xff]) (des + 1) (UInt8.ofNat (m - 1)) =
      .ok (overwrite out des [0xff, UInt8.ofNat (m - 1)]) := by
    rw [writeAt_eq_overwrite _ (by rw [hcells _ (by simp; omega)]; omega)]
    exact congrArg _ (overwrite_append (by simp; omega))
  have h₃ : writeSlice (overwrite out des [0xff, UInt8.ofNat (m - 1)]) (des + 2) bytes =
      .ok (overwrite out des ([0xff, UInt8.ofNat (m - 1)] ++ bytes)) := by
    rw [writeSlice_eq_ok (by rw [hcells _ (by simp; omega)]; omega)]
    exact congrArg _ (overwrite_append (by simp; omega))
  have h₄ : writeSlice (overwrite out des ([0xff, UInt8.ofNat (m - 1)] ++ bytes)) (des + 2 + n)
      (List.replicate (8 * m - n) 0) = .ok (overwrite out des
        ([0xff, UInt8.ofNat (m - 1)] ++ bytes ++ List.replicate (8 * m - n) 0)) := by
    have hpos : des + 2 + n = des + ([0xff, UInt8.ofNat (m - 1)] ++ bytes).length := by
      simp [hread]
      omega
    rw [hpos, writeSlice_eq_ok (by rw [hcells _ (by simp; omega)]; simp; omega)]
    exact congrArg _ (overwrite_append (by simp; omega))
  unfold writeFf Source.slice
  have halign : (n + 7) / 8 * 8 / 8 - 1 = m - 1 := by omega
  have hzeros : (n + 7) / 8 * 8 - n = 8 * m - n := by omega
  simp only [halign, hzeros]
  rw [h₁, checked_bind_ok, h₂, checked_bind_ok, readSlice_eq_ok hsrc, hbytes, checked_bind_ok, h₃,
    checked_bind_ok, h₄]
  rfl

/-- `write_ff` reads behind the end of the message. -/
theorem writeFf_fault (hsrc : srcv.length < offset + n) (hout : des + 2 ≤ out.length) :
    writeFf srcv (.srcv offset) out des n = .error (.fault .read) := by
  unfold writeFf Source.slice
  simp only
  rw [writeAt_eq_overwrite _ (by omega), checked_bind_ok, writeAt_eq_overwrite _ (by
    rw [length_overwrite (by simp; omega)]
    omega), checked_bind_ok, readSlice_eq_fault hsrc, checked_bind_error]

end writeFf

/-! ## The segments of the message -/

section segments

variable {x : List UInt8} {k : ℕ}

/-- Inside of the message the padding does not matter. -/
theorem padded_slice {i n : ℕ} (h : i + n ≤ x.length) :
    ((padded x).drop i).take n = (x.drop i).take n := by
  rw [padded, List.drop_append_of_le_length (by omega), List.take_append_of_le_length
    (by rw [List.length_drop]; omega)]

/-- The end of the message, and the padding behind it. -/
theorem padded_end {i n : ℕ} (h : i ≤ x.length) (hn : x.length ≤ i + n)
    (hlen : i + n = (x.length + 7) / 8 * 8) :
    ((padded x).drop i).take n = x.drop i ++ List.replicate (i + n - x.length) 0 := by
  have hcount : (8 - x.length % 8) % 8 = i + n - x.length := by omega
  rw [List.take_of_length_le (by rw [List.length_drop, length_padded]; omega), padded,
    List.drop_append_of_le_length h, hcount]

theorem chunk_full (h : 8 * k + 8 ≤ x.length) : chunk x k = (x.drop (8 * k)).take 8 :=
  padded_slice h

theorem chunk_last (h : 8 * k < x.length) (h' : x.length < 8 * k + 8) :
    chunk x k = x.drop (8 * k) ++ List.replicate (8 * k + 8 - x.length) 0 :=
  padded_end h.le h'.le (by omega)

/-- A segment that is filled up has a zero byte. -/
theorem nonzero_chunk_last (h : 8 * k < x.length) (h' : x.length < 8 * k + 8) :
    (nonzero (chunk x k)).length < 8 := by
  have hzeros : nonzero (List.replicate (8 * k + 8 - x.length) (0 : UInt8)) = [] := by
    apply List.filter_eq_nil_iff.mpr
    intro b hb
    rw [List.eq_of_mem_replicate hb]
    decide
  have hle := nonzero_length_le (x.drop (8 * k))
  rw [List.length_drop] at hle
  rw [chunk_last h h', nonzero, List.filter_append]
  show (nonzero (x.drop (8 * k)) ++ nonzero _).length < 8
  rw [hzeros, List.append_nil]
  omega

/-- The segment that the code reads, in the message or in the copy of its end. -/
theorem segmentSource_ok (h : 8 * k < x.length) :
    ∃ src, segmentSource x (8 * k) (8 * (k : ℤ) + 8 - x.length) = .ok src ∧
      (∀ i < 8, src.at x i = .ok ((chunk x k).getD i 0)) ∧
      (8 * k + 8 ≤ x.length → src = .srcv (8 * k)) := by
  have hget : ∀ i (hi : i < (chunk x k).length), (chunk x k).getD i 0 = (chunk x k)[i] :=
    fun i hi => by rw [List.getD_eq_getElem?_getD, List.getElem?_eq_getElem hi, Option.getD_some]
  unfold segmentSource
  by_cases hfull : 8 * k + 8 ≤ x.length
  · have hchunk : (chunk x k).length = 8 := length_chunk (by omega)
    rw [if_neg (by omega)]
    refine ⟨_, rfl, fun i hi => ?_, fun _ => rfl⟩
    show readAt x (8 * k + i) = _
    rw [readAt_eq_ok (by omega), hget i (by omega)]
    simp only [chunk_full hfull, List.getElem_take, List.getElem_drop]
  · have hchunk : (chunk x k).length = 8 := length_chunk (by omega)
    have hrest : (8 - (8 * (k : ℤ) + 8 - x.length)).toNat = x.length - 8 * k := by omega
    have hpad : (8 * (k : ℤ) + 8 - x.length).toNat = 8 * k + 8 - x.length := by omega
    rw [if_pos (by omega), hrest, hpad, readSlice_eq_ok (by omega), checked_bind_ok, checked_pure,
      List.take_of_length_le (by rw [List.length_drop])]
    refine ⟨_, rfl, fun i hi => ?_, fun hle => absurd hle hfull⟩
    show readAt (x.drop (8 * k) ++ List.replicate (8 * k + 8 - x.length) 0) i = _
    rw [← chunk_last h (by omega), readAt_eq_ok (by omega), hget i (by omega)]

end segments

end SkynetEureka.Sproto
