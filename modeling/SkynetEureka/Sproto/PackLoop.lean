import SkynetEureka.Sproto.PackTheorems
import SkynetEureka.Sproto.UnpackTheorems

/-!
# sproto_pack

The loop of `sproto_pack` follows `Packing`: the finished bytes are in the buffer, and those of
the open FF block are left to `write_ff`. Where the loop completes a block of 256 segments with a
segment that is filled up with zeros, `write_ff` reads 2048 bytes of the message, and runs over
its end.
-/

namespace SkynetEureka.Sproto

open Lib

/-! ## The loop -/

/-- The buffer of `n` bytes when `p` is packed: the finished bytes, then those of the open block
that are still to be written, then nothing but the byte that may be spilled. -/
structure Holds (n : ℕ) (p : Packing) (out : Cells) : Prop where
  length : out.length = n
  done : p.bytes.length ≤ n → out.take p.done.length = p.done.map some
  rest : ∀ i, p.bytes.length < i → i < n → out[i]? = some none
  next : p.bytes.length < n → (out[p.bytes.length]? = some none ↔ p.spill = false)

/-- The state of `sproto_pack` when the first `k` segments are packed in `p`. -/
structure Packs (x : List UInt8) (n k : ℕ) (p : Packing) (s : PackState) : Prop where
  size : s.size = p.bytes.length
  buffer : s.buffer = p.bytes.length
  bufsz : s.bufsz = n - p.bytes.length
  ffN : s.ffN = p.run.length
  ff : p.run ≠ [] → s.ffSrcstart = .srcv (8 * (k - p.run.length)) ∧
    s.ffDesstart = p.done.length ∧ 8 * (k - p.run.length) + 8 ≤ x.length
  out : Holds n p s.out

section loop

variable {x : List UInt8} {n k : ℕ} {p : Packing} {s : PackState}

theorem segCost_eq (p : Packing) (seg : List UInt8) :
    segCost seg p.run.length = p.cost seg := by
  unfold segCost Packing.cost
  simp only [List.length_eq_zero_iff]

theorem bytes_of_nil (h : p.run = []) : p.bytes = p.done := by
  rw [Packing.bytes, block, if_pos h, List.append_nil]

theorem length_bytes (hp : p.Sound x k) (hnil : p.run ≠ []) :
    p.bytes.length = p.done.length + (8 * p.run.length + 2) := by
  rw [Packing.bytes, List.length_append, length_block hp.segs hnil]

/-- What `pack_seg` leaves behind for a segment of a block. -/
theorem packSeg_scratch (hs : Packs x n k p s) {l : List UInt8}
    (hl : l.length ≤ (s.bufsz - 1).toNat) :
    (p.bytes.length ≤ n →
      (overwrite s.out (s.buffer + 1) l).take p.done.length = p.done.map some) ∧
    ∀ i, p.bytes.length + l.length < i → i < n →
      (overwrite s.out (s.buffer + 1) l)[i]? = some none := by
  have hlen := hs.out.length
  have hdone : p.done.length ≤ p.bytes.length := by
    rw [Packing.bytes, List.length_append]
    omega
  rw [hs.bufsz] at hl
  rw [hs.buffer]
  rcases Nat.eq_zero_or_pos l.length with hzero | hpos
  · rw [List.length_eq_zero_iff.mp hzero, overwrite_nil]
    exact ⟨hs.out.done, fun i hi hin => hs.out.rest i (by omega) hin⟩
  · have hroom : p.bytes.length + 1 + l.length ≤ s.out.length := by omega
    refine ⟨fun hfit => ?_, fun i hi hin => ?_⟩
    · rw [take_overwrite hroom (by omega), hs.out.done hfit]
    · rw [getElem?_overwrite hroom, if_neg (by omega), if_neg (by omega)]
      exact hs.out.rest i (by omega) hin

/-- The buffer keeps its length. -/
theorem packSeg_length (hs : Packs x n k p s) (seg : List UInt8) :
    (if joins seg p.run.length ∨ s.bufsz ≤ 0 then
        overwrite s.out (s.buffer + 1) ((nonzero seg).take (s.bufsz - 1).toNat)
      else overwrite s.out s.buffer
        (headerOf seg :: (nonzero seg).take (s.bufsz - 1).toNat)).length = n := by
  have hlen := hs.out.length
  have hbuffer := hs.buffer
  have hbufsz := hs.bufsz
  have hle : ((nonzero seg).take (s.bufsz - 1).toNat).length ≤ (s.bufsz - 1).toNat :=
    List.length_take_le ..
  by_cases hpos : s.bufsz ≤ 0
  · have hnil : (nonzero seg).take (s.bufsz - 1).toNat = [] := by
      rw [Int.toNat_eq_zero.mpr (by omega), List.take_zero]
    rw [if_pos (Or.inr hpos), hnil, overwrite_nil, hlen]
  · split
    · rw [length_overwrite (by omega), hlen]
    · rw [length_overwrite (by rw [List.length_cons]; omega), hlen]

/-- `write_ff` writes the block of these segments. -/
theorem writeFf_block {run : List (List UInt8)} {out : Cells} {offset des m : ℕ}
    (hnil : run ≠ []) (hm : (m + 7) / 8 = run.length) (hsrc : offset + m ≤ x.length)
    (hflat : (x.drop offset).take m ++ List.replicate (8 * run.length - m) 0 = run.flatten)
    (hout : des + (8 * run.length + 2) ≤ out.length) :
    writeFf x (.srcv offset) out des m = .ok (overwrite out des (block run)) := by
  rw [writeFf_ok hm hsrc hout, hflat, block, if_neg hnil]

/-- The block that a segment ends. -/
theorem writeFf_run (hp : p.Sound x k) (hs : Packs x n k p s) (hnil : p.run ≠ [])
    (hk : 8 * k ≤ x.length) {out : Cells} (hout : p.bytes.length ≤ out.length) :
    writeFf x s.ffSrcstart out s.ffDesstart (p.run.length * 8) =
      .ok (overwrite out p.done.length (block p.run)) := by
  obtain ⟨hsrc, hdes, -⟩ := hs.ff hnil
  have hback := hp.back
  have hlen := length_bytes hp hnil
  rw [hsrc, hdes]
  apply writeFf_block hnil (by omega) (by omega)
  · rw [hp.flat, padded_slice (by omega), Nat.mul_comm p.run.length 8, Nat.sub_self,
      List.replicate_zero, List.append_nil]
  · omega

/-- The buffer behind `pack_seg`. -/
def packSegOut (s : PackState) (seg : List UInt8) (ffN : ℕ) : Cells :=
  if joins seg ffN ∨ s.bufsz ≤ 0 then
    overwrite s.out (s.buffer + 1) ((nonzero seg).take (s.bufsz - 1).toNat)
  else overwrite s.out s.buffer (headerOf seg :: (nonzero seg).take (s.bufsz - 1).toNat)

/-- The scratch bytes of a segment of a block. -/
theorem packSegOut_joins (hs : Packs x n k p s) {seg : List UInt8}
    (hj : joins seg p.run.length) :
    (p.bytes.length ≤ n →
      (packSegOut s seg p.run.length).take p.done.length = p.done.map some) ∧
    (∀ i, p.bytes.length + (nonzero seg).length < i → i < n →
      (packSegOut s seg p.run.length)[i]? = some none) ∧
    (0 < (nonzero seg).length → p.bytes.length + (nonzero seg).length < n →
      (packSegOut s seg p.run.length)[p.bytes.length + (nonzero seg).length]? ≠ some none) := by
  have hout : packSegOut s seg p.run.length =
      overwrite s.out (s.buffer + 1) ((nonzero seg).take (s.bufsz - 1).toNat) :=
    if_pos (Or.inl hj)
  have hlen := hs.out.length
  have hl : ((nonzero seg).take (s.bufsz - 1).toNat).length ≤ (nonzero seg).length :=
    List.length_take_le' ..
  obtain ⟨hdone, hrest⟩ := packSeg_scratch hs
    (List.length_take_le (s.bufsz - 1).toNat (nonzero seg))
  rw [hout]
  refine ⟨hdone, fun i hi hin => hrest i (by omega) hin, fun hpos hlt => ?_⟩
  -- there is room for all of the bytes, and the last one is written behind the block
  have hbufsz := hs.bufsz
  rw [List.take_of_length_le (by omega), hs.buffer, getElem?_overwrite (by omega),
    if_neg (by omega), if_pos (by omega), List.getElem?_eq_getElem (by omega)]
  exact fun h => by cases h

/-- A segment with its header. -/
theorem packSegOut_plain (hs : Packs x n k p s) {seg : List UInt8}
    (hj : ¬ joins seg p.run.length) (hfit : p.bytes.length + ((nonzero seg).length + 1) ≤ n) :
    packSegOut s seg p.run.length = overwrite s.out p.bytes.length (sparse seg) := by
  have hbufsz := hs.bufsz
  have hpos : ¬ (joins seg p.run.length ∨ s.bufsz ≤ 0) := fun h => h.elim hj (by omega)
  rw [packSegOut, if_neg hpos, hs.buffer, List.take_of_length_le (by omega), sparse]

theorem length_packSegOut (hs : Packs x n k p s) (seg : List UInt8) :
    (packSegOut s seg p.run.length).length = n :=
  packSeg_length hs seg

/-- The counters of the state behind a segment that costs `c` bytes. -/
theorem Packs.counters (hs : Packs x n k p s) {b c : ℕ} (hb : b = p.bytes.length + c) :
    s.size + c = b ∧ s.buffer + c = b ∧ s.bufsz - c = n - b := by
  rw [hs.size, hs.buffer, hs.bufsz, hb]
  push_cast
  exact ⟨rfl, rfl, by ring⟩

/-- What the loop makes of the state `s` behind `pack_seg`, when `p'` is packed then. -/
def Collects (x : List UInt8) (n k c : ℕ) (src : Source) (p' : Packing) (s : PackState)
    (out : Cells) : Prop :=
  ∃ s', collectFf x src c { s with out := out, bufsz := s.bufsz - c } = .ok s' ∧
    s'.size = s.size ∧ s'.buffer = s.buffer ∧
    Packs x n (k + 1) p' { s' with size := s.size + c, buffer := s.buffer + c }

/-- A segment without a zero byte opens a block. -/
theorem collects_opens (hs : Packs x n k p s) (hnil : p.run = [])
    (hfull : (nonzero (chunk x k)).length = 8) (hk : 8 * k + 8 ≤ x.length) :
    Collects x n k 10 (.srcv (8 * k)) ⟨p.done, [chunk x k], false, false⟩ s
      (packSegOut s (chunk x k) p.run.length) := by
  have hdone : p.bytes.length = p.done.length := by rw [bytes_of_nil hnil]
  have hseg := length_chunk (x := x) (k := k) (by omega)
  have hbytes : (⟨p.done, [chunk x k], false, false⟩ : Packing).bytes.length =
      p.bytes.length + 10 := by
    show (p.done ++ block [chunk x k]).length = _
    rw [List.length_append, length_block (by
      intro seg hs
      rw [List.mem_singleton.mp hs, hseg]) (List.cons_ne_nil _ _), hdone]
    rfl
  have hjoin : joins (chunk x k) p.run.length := by
    rw [joins, hnil]
    exact hfull
  obtain ⟨hcells, hrest, -⟩ := packSegOut_joins hs hjoin
  obtain ⟨h₁, h₂, h₃⟩ := hs.counters hbytes
  refine ⟨_, if_pos rfl, rfl, rfl, h₁, h₂, h₃, rfl, fun _ => ⟨rfl, ?_, hk⟩,
    length_packSegOut hs _, fun hfit => hcells (by omega), fun i hi hin => hrest i (by omega) hin,
    fun hlt => ⟨fun _ => rfl, fun _ => hrest _ (by omega) hlt⟩⟩
  show s.buffer = p.done.length
  rw [hs.buffer, hdone]

/-- A segment with its header, where no block is open. -/
theorem collects_plain (hs : Packs x n k p s) (hnil : p.run = []) (hk : k < (x.length + 7) / 8)
    (hfull : (nonzero (chunk x k)).length ≠ 8) (src : Source) :
    Collects x n k ((nonzero (chunk x k)).length + 1) src
      ⟨p.done ++ sparse (chunk x k), [], false, false⟩ s
      (packSegOut s (chunk x k) p.run.length) := by
  have hdone : p.bytes = p.done := bytes_of_nil hnil
  have hseg := length_chunk hk
  have hle := nonzero_length_le (chunk x k)
  have hbytes : (⟨p.done ++ sparse (chunk x k), [], false, false⟩ : Packing).bytes.length =
      p.bytes.length + ((nonzero (chunk x k)).length + 1) := by
    rw [bytes_of_nil rfl, hdone, List.length_append, length_sparse]
  have hjoin : ¬ joins (chunk x k) p.run.length := by
    rw [joins, hnil]
    exact hfull
  have hffN := hs.ffN
  rw [hnil, List.length_nil] at hffN
  have hlen := hs.out.length
  have hcollect : collectFf x src ((nonzero (chunk x k)).length + 1)
      { s with out := packSegOut s (chunk x k) p.run.length,
               bufsz := s.bufsz - ((nonzero (chunk x k)).length + 1 : ℕ) } =
      .ok { s with out := packSegOut s (chunk x k) p.run.length,
                   bufsz := s.bufsz - ((nonzero (chunk x k)).length + 1 : ℕ) } := by
    rw [collectFf, if_neg (by omega), if_neg (by simp [hffN]), if_neg (by simp [hffN]),
      checked_pure]
  obtain ⟨h₁, h₂, h₃⟩ := hs.counters hbytes
  refine ⟨_, hcollect, rfl, rfl, h₁, h₂, h₃, hffN, fun h => absurd rfl h,
    length_packSegOut hs _, fun hfit => ?_, fun i hi hin => ?_,
    fun hlt => ⟨fun _ => rfl, fun _ => ?_⟩⟩
  · rw [hbytes] at hfit
    show (packSegOut s (chunk x k) p.run.length).take (p.done ++ sparse (chunk x k)).length = _
    have hroom : p.bytes.length + (sparse (chunk x k)).length ≤ s.out.length := by
      rw [length_sparse]
      omega
    rw [packSegOut_plain hs hjoin hfit, List.length_append, ← hdone,
      take_overwrite_end hroom, List.map_append, hdone, hs.out.done (by omega)]
  · rw [hbytes] at hi
    show (packSegOut s (chunk x k) p.run.length)[i]? = _
    rw [packSegOut_plain hs hjoin (by omega), getElem?_overwrite (by rw [length_sparse]; omega),
      length_sparse, if_neg (by omega), if_neg (by omega)]
    exact hs.out.rest i (by omega) hin
  · rw [hbytes] at hlt ⊢
    show (packSegOut s (chunk x k) p.run.length)[_]? = _
    rw [packSegOut_plain hs hjoin (by omega), getElem?_overwrite (by rw [length_sparse]; omega),
      length_sparse, if_neg (by omega), if_neg (by omega)]
    exact hs.out.rest _ (by omega) hlt

/-- A segment joins the open block. -/
theorem collects_joins (hp : p.Sound x k) (hs : Packs x n k p s) (hnil : p.run ≠ [])
    (hk : k < (x.length + 7) / 8) (hjoin : 6 ≤ (nonzero (chunk x k)).length)
    (hclose : p.run.length ≠ 255) (src : Source) :
    Collects x n k 8 src
      ⟨p.done, p.run ++ [chunk x k], decide ((nonzero (chunk x k)).length = 8), false⟩ s
      (packSegOut s (chunk x k) p.run.length) := by
  have hseg := length_chunk hk
  have hpos := List.length_pos_of_ne_nil hnil
  have hle := nonzero_length_le (chunk x k)
  have hbytes : (⟨p.done, p.run ++ [chunk x k], decide ((nonzero (chunk x k)).length = 8),
      false⟩ : Packing).bytes.length = p.bytes.length + 8 := by
    show (p.done ++ block (p.run ++ [chunk x k])).length = _
    rw [List.length_append, length_block_add hp.segs hseg hnil, Packing.bytes,
      List.length_append, Nat.add_assoc]
  have hlen : (p.run ++ [chunk x k]).length = p.run.length + 1 := List.length_append
  have hffN := hs.ffN
  have hj : joins (chunk x k) p.run.length := by
    rw [joins, if_neg (by omega)]
    exact hjoin
  have hcollect : collectFf x src 8
      { s with out := packSegOut s (chunk x k) p.run.length, bufsz := s.bufsz - (8 : ℕ) } =
      .ok { s with out := packSegOut s (chunk x k) p.run.length, bufsz := s.bufsz - (8 : ℕ),
                   ffN := s.ffN + 1 } := by
    rw [collectFf, if_neg (by omega), if_pos ⟨rfl, by show s.ffN > 0; omega⟩, checked_pure]
    exact if_neg (by show ¬ s.ffN + 1 = 256; omega)
  obtain ⟨hcells, hrest, hspill⟩ := packSegOut_joins hs hj
  obtain ⟨h₁, h₂, h₃⟩ := hs.counters hbytes
  refine ⟨_, hcollect, rfl, rfl, h₁, h₂, h₃, ?_, fun _ => ?_, length_packSegOut hs _,
    fun hfit => hcells (by omega), fun i hi hin => hrest i (by omega) hin, fun hlt => ?_⟩
  · show s.ffN + 1 = _
    rw [hlen, hffN]
  · obtain ⟨hsrc, hdes, hfirst⟩ := hs.ff hnil
    have hkeep : k + 1 - (p.run ++ [chunk x k]).length = k - p.run.length := by omega
    rw [hkeep]
    exact ⟨hsrc, hdes, hfirst⟩
  · rw [hbytes] at hlt ⊢
    show (packSegOut s (chunk x k) p.run.length)[_]? = _ ↔ decide _ = false
    rw [decide_eq_false_iff_not]
    refine ⟨fun hfresh hfull => ?_, fun hfull => hrest _ (by omega) hlt⟩
    have := hspill (by omega) (by omega)
    rw [hfull] at this
    exact this hfresh

/-- The bytes in front of the packed segment, when a block is written there. -/
theorem take_overwrite_block {out : Cells} {d l : List UInt8} (hlen : out.length = n)
    (hd : out.take d.length = d.map some) (hfit : d.length + l.length ≤ n) :
    (overwrite out d.length l).take (d ++ l).length = (d ++ l).map some := by
  rw [List.length_append, take_overwrite_end (by omega), hd, List.map_append]

/-- A segment completes a block of 256, and the block is written if the buffer has room for it. -/
theorem collects_closes (hp : p.Sound x k) (hs : Packs x n k p s) (hnil : p.run ≠ [])
    (hk : k < (x.length + 7) / 8) (hjoin : 6 ≤ (nonzero (chunk x k)).length)
    (hclose : p.run.length = 255) (src : Source) :
    (p.bytes.length + 8 ≤ n → x.length < 8 * k + 8 →
      collectFf x src 8 { s with out := packSegOut s (chunk x k) p.run.length,
                                 bufsz := s.bufsz - (8 : ℕ) } = .error (.fault .read)) ∧
    ((p.bytes.length + 8 ≤ n → 8 * k + 8 ≤ x.length) → Collects x n k 8 src
      ⟨p.done ++ block (p.run ++ [chunk x k]), [], decide ((nonzero (chunk x k)).length = 8),
        true⟩ s (packSegOut s (chunk x k) p.run.length)) := by
  have hseg := length_chunk hk
  have hle := nonzero_length_le (chunk x k)
  have hback := hp.back
  have hrun : (p.run ++ [chunk x k]).length = 256 := by
    rw [List.length_append, hclose]
    rfl
  have hblock := length_block_add hp.segs hseg hnil
  have hdone : p.bytes.length = p.done.length + (block p.run).length := by
    rw [Packing.bytes, List.length_append]
  have hbytes : (⟨p.done ++ block (p.run ++ [chunk x k]), [],
      decide ((nonzero (chunk x k)).length = 8), true⟩ : Packing).bytes.length =
      p.bytes.length + 8 := by
    rw [bytes_of_nil rfl, List.length_append, hblock, hdone, Nat.add_assoc]
  have hffN := hs.ffN
  have hbufsz := hs.bufsz
  have hj : joins (chunk x k) p.run.length := by
    rw [joins, if_neg (by omega)]
    exact hjoin
  have hlen := length_packSegOut hs (chunk x k)
  have hlb := length_bytes hp hnil
  obtain ⟨hsrc, hdes, hfirst⟩ := hs.ff hnil
  obtain ⟨hcells, hrest, hspill⟩ := packSegOut_joins hs hj
  have hcollect : collectFf x src 8
      { s with out := packSegOut s (chunk x k) p.run.length, bufsz := s.bufsz - (8 : ℕ) } =
      flushFf x { s with out := packSegOut s (chunk x k) p.run.length,
                         bufsz := s.bufsz - (8 : ℕ) } (256 * 8) := by
    rw [collectFf, if_neg (by omega), if_pos ⟨rfl, by show s.ffN > 0; omega⟩]
    exact if_pos (by show s.ffN + 1 = 256; omega)
  constructor
  · intro hfit hend
    have hpos : s.bufsz - (8 : ℕ) ≥ 0 := by omega
    have hfault : writeFf x s.ffSrcstart (packSegOut s (chunk x k) p.run.length)
        s.ffDesstart (256 * 8) = .error (.fault .read) := by
      rw [hsrc]
      exact writeFf_fault (by omega) (by omega)
    rw [hcollect, flushFf, if_pos hpos, hfault, checked_bind_error]
  · intro hok
    obtain ⟨h₁, h₂, h₃⟩ := hs.counters hbytes
    by_cases hfit : p.bytes.length + 8 ≤ n
    · have hwrite : writeFf x s.ffSrcstart (packSegOut s (chunk x k) p.run.length)
          s.ffDesstart (256 * 8) = .ok (overwrite (packSegOut s (chunk x k) p.run.length)
            p.done.length (block (p.run ++ [chunk x k]))) := by
        have hx := hok hfit
        rw [hsrc, hdes]
        apply writeFf_block (by simp) (by omega) (by omega)
        · rw [hp.flat_add, ← padded_slice (by omega), hrun, hclose]
          exact List.append_nil _
        · omega
      have hpos : s.bufsz - (8 : ℕ) ≥ 0 := by omega
      rw [flushFf, if_pos hpos, hwrite, checked_bind_ok, checked_pure] at hcollect
      have hroom : p.done.length + (block (p.run ++ [chunk x k])).length ≤
          (packSegOut s (chunk x k) p.run.length).length := by omega
      refine ⟨_, hcollect, rfl, rfl, h₁, h₂, h₃, rfl, fun h => absurd rfl h,
        (length_overwrite hroom).trans hlen, fun _ => ?_, fun i hi hin => ?_, fun hlt => ?_⟩
      · exact take_overwrite_block hlen (hcells (by omega)) (by omega)
      · show (overwrite _ _ _)[i]? = _
        rw [getElem?_overwrite hroom, if_neg (by omega), if_neg (by omega)]
        exact hrest i (by omega) hin
      · rw [hbytes] at hlt ⊢
        show (overwrite _ _ _)[_]? = _ ↔ decide _ = false
        rw [getElem?_overwrite hroom, if_neg (by omega), if_neg (by omega),
          decide_eq_false_iff_not]
        refine ⟨fun hfresh hfull => ?_, fun hfull => hrest _ (by omega) hlt⟩
        have := hspill (by omega) (by omega)
        rw [hfull] at this
        exact this hfresh
    · have hneg : ¬ s.bufsz - (8 : ℕ) ≥ 0 := by omega
      rw [flushFf, if_neg hneg, checked_pure] at hcollect
      exact ⟨_, hcollect, rfl, rfl, h₁, h₂, h₃, rfl, fun h => absurd rfl h, hlen,
        fun h => by omega, fun i hi hin => by omega, fun hlt => by omega⟩

/-- A segment with its header ends the open block. -/
theorem collects_ends (hp : p.Sound x k) (hs : Packs x n k p s) (hnil : p.run ≠ [])
    (hk : k < (x.length + 7) / 8) (hjoin : ¬ 6 ≤ (nonzero (chunk x k)).length) (src : Source) :
    Collects x n k ((nonzero (chunk x k)).length + 1) src
      ⟨p.done ++ block p.run ++ sparse (chunk x k), [], false, false⟩ s
      (packSegOut s (chunk x k) p.run.length) := by
  have hseg := length_chunk hk
  have hpos := List.length_pos_of_ne_nil hnil
  have hbytes : (⟨p.done ++ block p.run ++ sparse (chunk x k), [], false,
      false⟩ : Packing).bytes.length = p.bytes.length + ((nonzero (chunk x k)).length + 1) := by
    rw [bytes_of_nil rfl, List.length_append, length_sparse]
    rfl
  have hffN := hs.ffN
  have hbufsz := hs.bufsz
  have hlen := hs.out.length
  have hlen' := length_packSegOut hs (chunk x k)
  have hlb := length_bytes hp hnil
  have hblock := length_block hp.segs hnil
  have hj : ¬ joins (chunk x k) p.run.length := by
    rw [joins, if_neg (by omega)]
    exact hjoin
  have hcollect : collectFf x src ((nonzero (chunk x k)).length + 1)
      { s with out := packSegOut s (chunk x k) p.run.length,
               bufsz := s.bufsz - ((nonzero (chunk x k)).length + 1 : ℕ) } =
      flushFf x { s with out := packSegOut s (chunk x k) p.run.length,
                         bufsz := s.bufsz - ((nonzero (chunk x k)).length + 1 : ℕ) }
        (s.ffN * 8) := by
    rw [collectFf, if_neg (by omega), if_neg (by omega)]
    exact if_pos (by show s.ffN > 0; omega)
  obtain ⟨h₁, h₂, h₃⟩ := hs.counters hbytes
  by_cases hfit : p.bytes.length + ((nonzero (chunk x k)).length + 1) ≤ n
  · have hpos' : s.bufsz - ((nonzero (chunk x k)).length + 1 : ℕ) ≥ 0 := by omega
    have hwrite : writeFf x s.ffSrcstart (packSegOut s (chunk x k) p.run.length)
        s.ffDesstart (s.ffN * 8) = .ok (overwrite (packSegOut s (chunk x k) p.run.length)
          p.done.length (block p.run)) := by
      rw [hffN]
      exact writeFf_run hp hs hnil (by omega) (by omega)
    rw [flushFf, if_pos hpos', hwrite, checked_bind_ok, checked_pure] at hcollect
    have hplain := packSegOut_plain hs hj hfit
    have hsparse : p.bytes.length + (sparse (chunk x k)).length ≤ s.out.length := by
      rw [length_sparse]
      omega
    have hroom : p.done.length + (block p.run).length ≤
        (packSegOut s (chunk x k) p.run.length).length := by omega
    -- the block in front of the packed segment, and what is behind it
    have htake : (overwrite (packSegOut s (chunk x k) p.run.length) p.done.length
        (block p.run)).take (p.done ++ block p.run).length =
          (p.done ++ block p.run).map some := by
      apply take_overwrite_block hlen' _ (by omega)
      rw [hplain, take_overwrite hsparse (by omega), hs.out.done (by omega)]
    have hdrop : (overwrite (packSegOut s (chunk x k) p.run.length) p.done.length
        (block p.run)).drop (p.done ++ block p.run).length =
          (overwrite s.out p.bytes.length (sparse (chunk x k))).drop p.bytes.length := by
      rw [List.length_append, drop_overwrite hroom le_rfl, hplain, hlb, hblock]
    have hcells : (overwrite s.out p.bytes.length (sparse (chunk x k))).drop p.bytes.length =
        (sparse (chunk x k)).map some ++
          s.out.drop (p.bytes.length + (sparse (chunk x k)).length) := by
      rw [overwrite, List.append_assoc, List.drop_append_of_le_length
        (by rw [List.length_take]; omega), List.drop_eq_nil_of_le
        (by rw [List.length_take]; omega), List.nil_append]
    have hrest : ∀ i, p.bytes.length + ((nonzero (chunk x k)).length + 1) ≤ i → i < n →
        (overwrite (packSegOut s (chunk x k) p.run.length) p.done.length (block p.run))[i]? =
          some none := by
      intro i hi hin
      rw [getElem?_overwrite hroom, if_neg (by omega), if_neg (by omega), hplain,
        getElem?_overwrite hsparse, length_sparse, if_neg (by omega), if_neg (by omega)]
      exact hs.out.rest i (by omega) hin
    refine ⟨_, hcollect, rfl, rfl, h₁, h₂, h₃, rfl, fun h => absurd rfl h,
      (length_overwrite hroom).trans hlen', fun _ => ?_,
      fun i hi hin => hrest i (by omega) hin,
      fun hlt => ⟨fun _ => rfl, fun _ => hrest _ (by omega) hlt⟩⟩
    show (overwrite _ _ _).take (p.done ++ block p.run ++ sparse (chunk x k)).length = _
    have hmap : (p.done ++ block p.run ++ sparse (chunk x k)).map some =
        (p.done ++ block p.run).map some ++ (sparse (chunk x k)).map some := List.map_append
    have hall : (p.done ++ block p.run ++ sparse (chunk x k)).length =
        (p.done ++ block p.run).length + (sparse (chunk x k)).length := List.length_append
    rw [hall, List.take_add, htake, hdrop, hcells, List.take_left' (List.length_map _), hmap]
  · have hneg : ¬ s.bufsz - ((nonzero (chunk x k)).length + 1 : ℕ) ≥ 0 := by omega
    rw [flushFf, if_neg hneg, checked_pure] at hcollect
    exact ⟨_, hcollect, rfl, rfl, h₁, h₂, h₃, rfl, fun h => absurd rfl h, hlen',
      fun h => by omega, fun i hi hin => by omega, fun hlt => by omega⟩

/-- The segment `k` completes a block of 256 which the buffer has room for, and the message ends
within it. -/
def Overruns (x : List UInt8) (n k : ℕ) : Prop :=
  x.length < 8 * k ∧ (packingTo x k).closed = true ∧ (packingTo x k).bytes.length ≤ n

/-- The loop about the FF block, for each kind of segment. -/
theorem collects_add (hp : p.Sound x k) (hs : Packs x n k p s) (hk : k < (x.length + 7) / 8)
    {src : Source} (hsrc : 8 * k + 8 ≤ x.length → src = .srcv (8 * k)) :
    (x.length < 8 * k + 8 → (p.add (chunk x k)).closed = true →
      (p.add (chunk x k)).bytes.length ≤ n →
      collectFf x src (p.cost (chunk x k)) { s with
        out := packSegOut s (chunk x k) p.run.length,
        bufsz := s.bufsz - (p.cost (chunk x k) : ℕ) } = .error (.fault .read)) ∧
    (¬ (x.length < 8 * k + 8 ∧ (p.add (chunk x k)).closed = true ∧
        (p.add (chunk x k)).bytes.length ≤ n) →
      Collects x n k (p.cost (chunk x k)) src (p.add (chunk x k)) s
        (packSegOut s (chunk x k) p.run.length)) := by
  have hlength := hp.length_add hk
  rw [hlength]
  unfold Packing.add Packing.cost
  by_cases hnil : p.run = []
  · rw [if_pos hnil, if_pos hnil]
    by_cases hfull : (nonzero (chunk x k)).length = 8
    · rw [if_pos hfull, if_pos hfull]
      have hinside : 8 * k + 8 ≤ x.length := by
        by_contra hlt
        have := nonzero_chunk_last (x := x) (k := k) (by omega) (by omega)
        omega
      rw [hsrc hinside]
      exact ⟨fun _ h => (by cases h), fun _ => collects_opens hs hnil hfull hinside⟩
    · rw [if_neg hfull, if_neg hfull]
      exact ⟨fun _ h => (by cases h), fun _ => collects_plain hs hnil hk hfull src⟩
  · rw [if_neg hnil, if_neg hnil]
    by_cases hjoin : 6 ≤ (nonzero (chunk x k)).length
    · rw [if_pos hjoin, if_pos hjoin]
      by_cases hclose : p.run.length = 255
      · rw [if_pos hclose]
        obtain ⟨hfault, hok⟩ := collects_closes hp hs hnil hk hjoin hclose src
        refine ⟨fun hend _ hfit => hfault hfit hend, fun hno => hok fun hfit => ?_⟩
        by_contra hlt
        exact hno ⟨by omega, rfl, hfit⟩
      · rw [if_neg hclose]
        exact ⟨fun _ h => (by cases h),
          fun _ => collects_joins hp hs hnil hk hjoin hclose src⟩
    · rw [if_neg hjoin, if_neg hjoin]
      exact ⟨fun _ h => (by cases h), fun _ => collects_ends hp hs hnil hk hjoin src⟩

/-- What has to hold in front of segment `k`, for the loop to come so far: the ints are large
enough, and `write_ff` has not run over the end of the message. -/
def Reached (x : List UInt8) (n k : ℕ) : Prop :=
  8 * k < 2 ^ 31 ∧ (packingTo x k).bytes.length < 2 ^ 31 ∧ ¬ Overruns x n k

theorem packStep_next (hn : n < 2 ^ 31) (hs : Packs x n k (packingTo x k) s)
    (hk : k < (x.length + 7) / 8) :
    (Reached x n (k + 1) → ∃ s', packStep x s k = .ok s' ∧
      Packs x n (k + 1) (packingTo x (k + 1)) s') ∧
    (¬ Reached x n (k + 1) → ∃ f, packStep x s k = .error (.fault f)) := by
  have hp : (packingTo x k).Sound x k := packingTo_sound hk.le
  unfold Reached Overruns
  rw [packingTo_succ]
  generalize packingTo x k = p at hs hp ⊢
  have hlength := hp.length_add hk
  have hbufsz := hs.bufsz
  obtain ⟨src, hsource, hbytes, hsrc⟩ := segmentSource_ok (x := x) (k := k) (by omega)
  have hseg : packSeg (fun i => src.at x i) s.buffer s.out s.bufsz s.ffN = _ := packSeg_eq
    hbytes (length_chunk hk) (fun hpos => by
      rw [hs.buffer, hs.out.length]
      omega)
  rw [hs.ffN, segCost_eq] at hseg
  obtain ⟨hfault, hok⟩ := collects_add hp hs hk hsrc
  have hstep : 8 * (k : ℤ) + 8 < 2 ^ 31 → packStep x s k =
      (int (s.bufsz - (p.cost (chunk x k) : ℕ)) >>= fun bufsz =>
        collectFf x src (p.cost (chunk x k)) { s with
          out := packSegOut s (chunk x k) p.run.length, bufsz := bufsz } >>= fun s' =>
        int (s'.size + (p.cost (chunk x k) : ℕ)) >>= fun size =>
        .ok { s' with size := size, buffer := s'.buffer + p.cost (chunk x k) }) := by
    intro hlt
    unfold packStep
    rw [int_eq_ok (by omega) hlt, checked_bind_ok, hsource, checked_bind_ok, hs.ffN, hseg]
    rfl
  constructor
  · rintro ⟨hint, hsize, hover⟩
    obtain ⟨s', hcollect, hs'size, hs'buffer, hpacks⟩ := hok fun h => hover ⟨by omega, h.2⟩
    refine ⟨_, ?_, hpacks⟩
    rw [hstep (by omega), int_eq_ok (by omega) (by omega), checked_bind_ok, hcollect,
      checked_bind_ok, hs'size, hs'buffer, int_eq_ok (by rw [hs.size]; omega)
      (by rw [hs.size]; omega), checked_bind_ok]
  · intro hnot
    by_cases hint : 8 * (k : ℤ) + 8 < 2 ^ 31
    · rw [hstep hint]
      rcases int_ok_or (s.bufsz - (p.cost (chunk x k) : ℕ)) with hb | hb
      · rw [hb, checked_bind_ok]
        by_cases hover : x.length < 8 * k + 8 ∧ (p.add (chunk x k)).closed = true ∧
            (p.add (chunk x k)).bytes.length ≤ n
        · rw [hfault hover.1 hover.2.1 hover.2.2, checked_bind_error]
          exact ⟨_, rfl⟩
        · obtain ⟨s', hcollect, hs'size, -, -⟩ := hok hover
          have hlarge : 2 ^ 31 ≤ (p.add (chunk x k)).bytes.length := by
            by_contra hlt
            exact hnot ⟨by omega, by omega, fun h => hover ⟨by omega, h.2⟩⟩
          rw [hcollect, checked_bind_ok, hs'size, int_eq_overflow (by rw [hs.size]; omega),
            checked_bind_error]
          exact ⟨_, rfl⟩
      · rw [hb, checked_bind_error]
        exact ⟨_, rfl⟩
    · unfold packStep
      rw [int_eq_overflow (by omega), checked_bind_error]
      exact ⟨_, rfl⟩

theorem packs_start (x : List UInt8) (n : ℕ) :
    Packs x n 0 (packingTo x 0) ⟨.srcv 0, 0, 0, 0, 0, n, blank n⟩ := by
  have hfresh : ∀ i < n, (blank n)[i]? = some none := fun i hi => List.getElem?_replicate_of_lt hi
  refine ⟨rfl, rfl, ?_, rfl, fun h => absurd rfl h, length_blank n, fun _ => rfl,
    fun i _ hin => hfresh i hin, fun hlt => ⟨fun _ => rfl, fun _ => hfresh _ hlt⟩⟩
  show (n : ℤ) = n - ((0 : ℕ) : ℤ)
  omega

/-- The loop behind the first `k` segments. -/
theorem packLoop_reached (hn : n < 2 ^ 31) (hk : k ≤ (x.length + 7) / 8) :
    (Reached x n k → ∃ s, (List.range k).foldlM (packStep x)
      ⟨.srcv 0, 0, 0, 0, 0, n, blank n⟩ = .ok s ∧ Packs x n k (packingTo x k) s) ∧
    (¬ Reached x n k → ∃ f, (List.range k).foldlM (packStep x)
      ⟨.srcv 0, 0, 0, 0, 0, n, blank n⟩ = .error (.fault f)) := by
  induction k with
  | zero =>
    refine ⟨fun _ => ⟨_, rfl, packs_start x n⟩, fun hnot => absurd ⟨by decide, ?_, ?_⟩ hnot⟩
    · exact (by decide : 0 < 2 ^ 31)
    · exact fun h => absurd h.1 (Nat.not_lt_zero _)
  | succ k ih =>
    obtain ⟨hok, hfault⟩ := ih (by omega)
    rw [List.range_succ, List.foldlM_append]
    have hone : ∀ s, [k].foldlM (packStep x) s = packStep x s k := by
      intro s
      rw [List.foldlM_cons]
      cases packStep x s k <;> rfl
    by_cases hreached : Reached x n k
    · obtain ⟨s, hs, hpacks⟩ := hok hreached
      rw [hs, checked_bind_ok, hone]
      exact packStep_next hn hpacks (by omega)
    · obtain ⟨f, hf⟩ := hfault hreached
      rw [hf, checked_bind_error]
      refine ⟨fun hnext => absurd ⟨?_, ?_, fun h => ?_⟩ hreached, fun _ => ⟨f, rfl⟩⟩
      · have := hnext.1
        omega
      · have hsize := hnext.2.1
        rw [packingTo_succ, (packingTo_sound (by omega)).length_add (by omega)] at hsize
        omega
      · have := h.1
        omega

/-- The block that is still open behind the last segment is written. -/
theorem packLast_ok (hs : Packs x n ((x.length + 7) / 8) (packing x) s) :
    ∃ out, packLast x s = .ok out ∧ out.length = n ∧
      ((packed x).length ≤ n → out.take (packed x).length = (packed x).map some ∧
        (∀ i, (packed x).length < i → i < n → out[i]? = some none) ∧
        ((packed x).length < n →
          (out[(packed x).length]? = some none ↔ (packing x).spill = false))) := by
  have hp : (packing x).Sound x ((x.length + 7) / 8) := packingTo_sound le_rfl
  unfold packed
  generalize packing x = p at hs hp ⊢
  have hbufsz := hs.bufsz
  have hffN := hs.ffN
  have hlen := hs.out.length
  unfold packLast
  by_cases hfit : p.bytes.length ≤ n
  · rw [if_pos (by omega)]
    by_cases hnil : p.run = []
    · rw [hnil, List.length_nil] at hffN
      rw [if_neg (by omega), if_neg (by omega), checked_pure]
      refine ⟨_, rfl, hlen, fun _ => ⟨?_, hs.out.rest, hs.out.next⟩⟩
      have := hs.out.done hfit
      rwa [← bytes_of_nil hnil] at this
    · have hpos := List.length_pos_of_ne_nil hnil
      have hback := hp.back
      have hlb := length_bytes hp hnil
      have hblock := length_block hp.segs hnil
      obtain ⟨hsrc, hdes, hfirst⟩ := hs.ff hnil
      have hwrite : ∀ m, (m + 7) / 8 = p.run.length →
          m = x.length - 8 * ((x.length + 7) / 8 - p.run.length) →
          writeFf x s.ffSrcstart s.out s.ffDesstart m =
            .ok (overwrite s.out p.done.length (block p.run)) := by
        intro m hm hend
        rw [hsrc, hdes]
        apply writeFf_block hnil hm (by omega) _ (by omega)
        rw [hp.flat, padded_end (by omega) (by omega) (by omega), List.take_of_length_le
          (by rw [List.length_drop]; omega)]
        congr 2
        omega
      have hlast : packLast x s = .ok (overwrite s.out p.done.length (block p.run)) := by
        unfold packLast
        rw [if_pos (by omega)]
        by_cases hone : p.run.length = 1
        · rw [if_pos (by omega)]
          exact hwrite 8 (by omega) (by omega)
        · rw [if_neg (by omega), if_pos (by omega), hsrc]
          have := hwrite (x.length - 8 * ((x.length + 7) / 8 - p.run.length)) (by omega) rfl
          rwa [hsrc] at this
      have hroom : p.done.length + (block p.run).length ≤ s.out.length := by omega
      have hout : ∀ i, p.bytes.length ≤ i →
          (overwrite s.out p.done.length (block p.run))[i]? = s.out[i]? := by
        intro i hi
        rw [getElem?_overwrite hroom, if_neg (by omega), if_neg (by omega)]
      unfold packLast at hlast
      rw [if_pos (by omega)] at hlast
      refine ⟨_, hlast, (length_overwrite hroom).trans hlen, fun _ => ⟨?_, ?_, ?_⟩⟩
      · exact take_overwrite_block hlen (hs.out.done hfit) (by omega)
      · intro i hi hin
        rw [hout i hi.le]
        exact hs.out.rest i hi hin
      · intro hlt
        rw [hout _ le_rfl]
        exact hs.out.next hlt
  · rw [if_neg (by omega), checked_pure]
    exact ⟨_, rfl, hlen, fun h => absurd h hfit⟩

end loop

/-! ## sproto_pack -/

section

variable {x : List UInt8} {n : ℕ}

/-- `sproto_pack` of the message `x` into a buffer of `n` bytes reads and writes only where it may
and returns the size of the packed form. A buffer that is large enough has the packed form then,
and no byte behind it is touched; the packed form unpacks to the padded message. -/
def PacksWell (x : List UInt8) (n : ℕ) : Prop :=
  ∃ out, sprotoPack x n = .ok (((packed x).length : ℤ), out) ∧
    ((packed x).length ≤ n → out = (packed x).map some ++ blank (n - (packed x).length)) ∧
    ∀ m, (padded x).length ≤ m → m < 2 ^ 31 → sprotoUnpack (packed x) m =
      .ok (((padded x).length : ℤ), (padded x).map some ++ blank (m - (padded x).length))

/-- What goes wrong in `sproto_pack`. -/
inductive PackHazard (x : List UInt8) (n : ℕ) : Prop
  /-- the index of the loop does not fit an int -/
  | long : 2 ^ 31 - 8 < x.length → PackHazard x n
  /-- the size does not fit an int -/
  | size : 2 ^ 31 ≤ (packed x).length → PackHazard x n
  /-- a segment that is filled up completes a block of 256, and the block is written -/
  | overrun : x.length % 8 ≠ 0 → (packing x).closed = true → (packed x).length ≤ n →
    PackHazard x n
  /-- a last segment without a zero byte joins a block, and the buffer has room for its spill -/
  | spill : (packing x).spill = true → (packed x).length < n → PackHazard x n

/-- A buffer with the packed form, and what is behind it. -/
theorem cells_eq {cells : Cells} {l : List UInt8} (hlen : cells.length = n)
    (htake : cells.take l.length = l.map some)
    (hrest : ∀ i, l.length ≤ i → i < n → cells[i]? = some none) :
    cells = l.map some ++ blank (n - l.length) := by
  have hdrop : cells.drop l.length = blank (n - l.length) := by
    apply List.ext_getElem?
    intro i
    rw [List.getElem?_drop, blank, List.getElem?_replicate]
    split
    · exact hrest _ (by omega) (by omega)
    · exact List.getElem?_eq_none (by omega)
  rw [← hdrop, ← htake, List.take_append_drop]

/-- Where the loop does not reach the end of the message, it stops at a fault. -/
theorem sprotoPack_fault (hn : n < 2 ^ 31) (h : ¬ Reached x n ((x.length + 7) / 8)) :
    ∃ f, sprotoPack x n = .error (.fault f) := by
  obtain ⟨f, hf⟩ := (packLoop_reached hn le_rfl).2 h
  refine ⟨f, ?_⟩
  unfold sprotoPack segmentCount
  rw [hf, checked_bind_error]

/-- `sproto_pack` keeps the message and stays inside of its buffers exactly when none of the four
hazards is there. -/
theorem packsWell_iff (x : List UInt8) (hn : n < 2 ^ 31) :
    PacksWell x n ↔ ¬ PackHazard x n := by
  have hok := (packLoop_reached (x := x) hn le_rfl).1
  have hreached : Reached x n ((x.length + 7) / 8) ↔ x.length ≤ 2 ^ 31 - 8 ∧
      (packed x).length < 2 ^ 31 ∧
      ¬ (x.length % 8 ≠ 0 ∧ (packing x).closed = true ∧ (packed x).length ≤ n) := by
    have hmod : x.length < 8 * ((x.length + 7) / 8) ↔ x.length % 8 ≠ 0 := by omega
    have hint : 8 * ((x.length + 7) / 8) < 2 ^ 31 ↔ x.length ≤ 2 ^ 31 - 8 := by omega
    unfold Reached Overruns
    rw [hmod, hint]
    rfl
  constructor
  · rintro ⟨out, hout, hbytes, -⟩ hazard
    by_cases hr : Reached x n ((x.length + 7) / 8)
    · obtain ⟨hlong, hsize, hover⟩ := hreached.mp hr
      obtain ⟨s, hs, hpacks⟩ := hok hr
      obtain ⟨out', hlast, -, hcells⟩ := packLast_ok hpacks
      have heq : sprotoPack x n = .ok (s.size, out') := by
        unfold sprotoPack segmentCount
        rw [hs, checked_bind_ok, hlast, checked_bind_ok, checked_pure]
      rw [heq] at hout
      obtain ⟨-, rfl⟩ := Prod.mk.inj (Except.ok.inj hout)
      cases hazard with
      | long h => omega
      | size h => omega
      | overrun hmod hclosed hfit => exact hover ⟨hmod, hclosed, hfit⟩
      | spill hspill hlt =>
        obtain ⟨-, -, hnext⟩ := hcells hlt.le
        have hfresh : out'[(packed x).length]? = some none := by
          rw [hbytes hlt.le, List.getElem?_append_right (by rw [List.length_map]),
            List.length_map, Nat.sub_self]
          exact List.getElem?_replicate_of_lt (by omega)
        rw [(hnext hlt).mp hfresh] at hspill
        cases hspill
    · obtain ⟨f, hf⟩ := sprotoPack_fault hn hr
      rw [hf] at hout
      cases hout
  · intro hno
    have hr : Reached x n ((x.length + 7) / 8) :=
      hreached.mpr ⟨by by_contra h; exact hno (.long (by omega)),
        by by_contra h; exact hno (.size (by omega)), fun h => hno (.overrun h.1 h.2.1 h.2.2)⟩
    obtain ⟨s, hs, hpacks⟩ := hok hr
    obtain ⟨out, hlast, hlen, hcells⟩ := packLast_ok hpacks
    refine ⟨out, ?_, fun hfit => ?_, fun m hm hlt => sprotoUnpack_ok (whole_packed x) hlt hm⟩
    · unfold sprotoPack segmentCount
      rw [hs, checked_bind_ok, hlast, checked_bind_ok, checked_pure, hpacks.size]
      rfl
    · obtain ⟨htake, hrest, hnext⟩ := hcells hfit
      refine cells_eq hlen htake fun i hi hin => ?_
      rcases Nat.eq_or_lt_of_le hi with heq | hgt
      · have hspill : (packing x).spill = false := by
          by_contra h
          exact hno (.spill (by simpa using h) (by omega))
        rw [← heq]
        exact (hnext (by omega)).mpr hspill
      · exact hrest i hgt hin

/-- Up to 255 segments without a zero byte are one open block. -/
theorem packingTo_dense (h : ∀ b ∈ x, b ≠ 0) {k : ℕ} (hk : 8 * k ≤ x.length) (hk' : k ≤ 255) :
    (packingTo x k).done = [] ∧ (packingTo x k).run.length = k := by
  induction k with
  | zero => exact ⟨rfl, rfl⟩
  | succ k ih =>
    obtain ⟨hdone, hrun⟩ := ih (by omega) (by omega)
    have hall : nonzero (chunk x k) = chunk x k := by
      apply List.filter_eq_self.mpr
      intro b hb
      rw [chunk_full (by omega)] at hb
      exact decide_eq_true (h b (List.mem_of_mem_drop (List.mem_of_mem_take hb)))
    have hfull : (nonzero (chunk x k)).length = 8 := by
      rw [hall, length_chunk (by omega)]
    rw [packingTo_succ, Packing.add]
    by_cases hnil : (packingTo x k).run = []
    · rw [if_pos hnil, if_pos hfull]
      rw [hnil, List.length_nil] at hrun
      exact ⟨hdone, by rw [← hrun]; rfl⟩
    · rw [if_neg hnil, if_pos (by omega), if_neg (by omega)]
      refine ⟨hdone, ?_⟩
      show ((packingTo x k).run ++ [chunk x k]).length = k + 1
      rw [List.length_append, hrun]
      rfl

/-- 2046 bytes that are not zero: the last segment has six of them and completes the block of
256, so that `write_ff` reads two bytes behind the message. -/
theorem packsWell_dense : (∃ f, sprotoPack (List.replicate 2046 1) 2050 = .error (.fault f)) ∧
    ¬ PacksWell (List.replicate 2046 1) 2050 := by
  have hnz : ∀ b ∈ List.replicate 2046 (1 : UInt8), b ≠ 0 := by
    intro b hb
    rw [List.eq_of_mem_replicate hb]
    decide
  have hlen : (List.replicate 2046 (1 : UInt8)).length = 2046 := List.length_replicate
  have hsix : (nonzero (chunk (List.replicate 2046 1) 255)).length = 6 := by
    rw [chunk_last (by rw [hlen]; decide) (by rw [hlen]; decide), hlen, List.drop_replicate]
    decide
  generalize List.replicate 2046 (1 : UInt8) = x at hnz hlen hsix ⊢
  obtain ⟨hdone, hrun⟩ := packingTo_dense (k := 255) hnz (by omega) le_rfl
  have hnil : (packingTo x 255).run ≠ [] := by
    intro h
    rw [h] at hrun
    cases hrun
  have hsound : (packingTo x 255).Sound x 255 := packingTo_sound (by omega)
  have hsize : (packingTo x 256).bytes.length = 2050 := by
    rw [packingTo_succ, hsound.length_add (by omega), length_bytes hsound hnil, hdone, hrun,
      Packing.cost, if_neg hnil, if_pos (by omega)]
    rfl
  have hclosed : (packingTo x 256).closed = true := by
    rw [packingTo_succ, Packing.add, if_neg hnil, if_pos (by omega), if_pos hrun]
  have hcount : (x.length + 7) / 8 = 256 := by omega
  obtain ⟨f, hf⟩ := sprotoPack_fault (x := x) (n := 2050) (by decide) fun hr => by
    rw [hcount] at hr
    exact hr.2.2 ⟨by omega, hclosed, hsize.le⟩
  refine ⟨⟨f, hf⟩, fun hwell => ?_⟩
  obtain ⟨out, hout, -⟩ := hwell
  rw [hf] at hout
  cases hout

theorem packsWell_short : PacksWell [8, 0, 0, 0, 3, 0, 2] 20 := by
  have hlen : (packed [8, 0, 0, 0, 3, 0, 2]).length = 4 := by decide
  refine (packsWell_iff [8, 0, 0, 0, 3, 0, 2] (by decide)).mpr fun hazard => ?_
  cases hazard with
  | long h => exact absurd h (by decide)
  | size h => exact absurd h (by rw [hlen]; decide)
  | overrun _ h _ => exact absurd h (by decide)
  | spill h _ => exact absurd h (by decide)

end

end SkynetEureka.Sproto
