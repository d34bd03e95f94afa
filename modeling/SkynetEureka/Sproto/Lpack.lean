import SkynetEureka.Sproto.PackTheorems

/-!
# lpack (lsproto.c)

The packed form of a message of `sz` bytes is never longer than `maxsz`, the size that `lpack`
announces, and all that `sproto_pack` writes on the way stays in a buffer of this size.

`write_ff` may copy a segment that is filled up from the message itself. What it reads then are
bytes behind the message, of which it needs at most seven: here they are any.
-/

namespace SkynetEureka.Sproto

open Lib

/-! ## sproto_pack in a memory -/

/-- `packStep` for a message of `srcsz` bytes, where `srcv` goes on behind it. -/
def packStepIn (srcv : List UInt8) (srcsz : ℕ) (s : PackState) (k : ℕ) : Checked PackState := do
  let next ← int (8 * k + 8)
  let src ← segmentSource srcv (8 * k) (next - srcsz)
  let (n, out) ← packSeg (fun i => src.at srcv i) s.buffer s.out s.bufsz s.ffN
  let bufsz ← int (s.bufsz - n)
  let s ← collectFf srcv src n { s with out := out, bufsz := bufsz }
  let size ← int (s.size + n)
  pure { s with size := size, buffer := s.buffer + n }

/-- `packLast` for such a message. -/
def packLastIn (srcv : List UInt8) (srcsz : ℕ) (s : PackState) : Checked Cells :=
  if s.bufsz ≥ 0 then
    if s.ffN = 1 then writeFf srcv s.ffSrcstart s.out s.ffDesstart 8
    else if s.ffN > 1 then
      match s.ffSrcstart with
      | .srcv offset => writeFf srcv s.ffSrcstart s.out s.ffDesstart (srcsz - offset)
      | .tmp _ => .error (.fault .read)
    else pure s.out
  else pure s.out

/-- `sproto_pack(srcv, srcsz, bufferv, bufsz)` -/
def sprotoPackIn (srcv : List UInt8) (srcsz bufsz : ℕ) : Checked (ℤ × Cells) := do
  let s ← (List.range ((srcsz + 7) / 8)).foldlM (packStepIn srcv srcsz)
    ⟨.srcv 0, 0, 0, 0, 0, bufsz, blank bufsz⟩
  let out ← packLastIn srcv srcsz s
  pure (s.size, out)

/-- With nothing behind the message it is the function that checks its reads. -/
theorem sprotoPackIn_length (srcv : List UInt8) (bufsz : ℕ) :
    sprotoPackIn srcv srcv.length bufsz = sprotoPack srcv bufsz := rfl

/-! ## lpack -/

/-- `ENCODE_BUFFERSIZE` -/
def encodeBuffersize : ℕ := 2050

/-- `ENCODE_MAXSIZE` -/
def encodeMaxsize : ℕ := 0x1000000

/-- The size of the userdata in the upvalues, which is made with `ENCODE_BUFFERSIZE` and only
doubled. -/
structure OutputSize where
  osz : ℕ
  le : encodeBuffersize ≤ osz

/-- The loop of `expand_buffer` -/
def doubleOsz (nsz : ℕ) : ℕ → OutputSize → Checked OutputSize
  | 0, _ => .error (.fault .endless)
  | fuel + 1, o => do
    let _ ← int (o.osz * 2)
    let o : OutputSize := ⟨o.osz * 2, o.le.trans (Nat.le_mul_of_pos_right _ (by decide))⟩
    if o.osz < nsz then doubleOsz nsz fuel o else pure o

/-- What `lpack` does: it raises, or pushes a string. -/
inductive LpackResult where
  /-- "object is too large (>%d)" -/
  | tooLarge
  /-- "packing error, return size = %d" -/
  | packingError (bytes : ℤ)
  | string (output : Cells)

/-- The worst case that is announced -/
def maxsz (sz : ℕ) : ℕ := (sz + 2047) / 2048 * 2 + sz + 2

/-- `expand_buffer`, which raises when the buffer were too large -/
def expandBuffer (o : OutputSize) (nsz : ℕ) : Checked (Option OutputSize) := do
  let o' ← doubleOsz nsz 32 o
  pure (if encodeMaxsize < o'.osz then none else some o')

/-- The output buffer for `nsz` bytes -/
def outputFor (o : OutputSize) (nsz : ℕ) : Checked (Option OutputSize) :=
  if o.osz < nsz then expandBuffer o nsz else pure (some o)

/-- `lpack`, with the output buffer that it leaves -/
def lpack (o : OutputSize) (buffer : List UInt8) (sz : ℕ) :
    Checked (LpackResult × OutputSize) := do
  let expanded ← outputFor o (maxsz sz)
  match expanded with
  | none => pure (.tooLarge, o)
  | some o' => do
    let (bytes, output) ← sprotoPackIn buffer sz (maxsz sz)
    -- a negative `int` is a large `size_t`
    if bytes < 0 ∨ bytes > maxsz sz then pure (.packingError bytes, o')
    else pure (.string (output.take bytes.toNat), o')

/-! ## One segment -/

variable {x y : List UInt8} {n k c : ℕ} {s : PackState} {out : Cells}

/-- The state of `sproto_pack` behind `k` segments. The segments that are packed cost no more than
their bytes and two for each block, where `q` blocks are full. -/
structure Inside (x : List UInt8) (n k : ℕ) (s : PackState) : Prop where
  out : s.out.length = n
  bufsz : s.buffer + s.bufsz = n
  size : s.size = s.buffer
  count : s.ffN < 256
  run : 0 < s.ffN → ∃ offset, s.ffSrcstart = .srcv offset ∧ offset + 8 * s.ffN = 8 * k ∧
    offset + 8 ≤ x.length ∧ s.ffDesstart + 8 * s.ffN + 2 = s.buffer
  cost : 8 * k ≤ x.length → ∃ q, 256 * q + s.ffN ≤ k ∧
    s.buffer ≤ 8 * k + 2 * q + if 0 < s.ffN then 2 else 0
  total : x.length < 8 * k → s.buffer ≤ maxsz x.length

/-- The source of a segment does not depend on what is behind the message. -/
theorem segmentSource_more (h : 8 * k < x.length) :
    ∃ src, segmentSource (x ++ y) (8 * k) (8 * (k : ℤ) + 8 - x.length) = .ok src ∧
      (∀ i < 8, src.at (x ++ y) i = .ok ((chunk x k).getD i 0)) ∧
      (8 * k + 8 ≤ x.length → src = .srcv (8 * k)) := by
  obtain ⟨src, hsrc, hat, hfull⟩ := segmentSource_ok h
  by_cases hwhole : 8 * k + 8 ≤ x.length
  · have hneg : ¬ (8 * (k : ℤ) + 8 - x.length) > 0 := by omega
    refine ⟨.srcv (8 * k), if_neg hneg, ?_, fun _ => rfl⟩
    intro i hi
    have hread := hat i hi
    rw [hfull hwhole] at hread
    show readAt (x ++ y) (8 * k + i) = _
    unfold readAt
    rw [List.getElem?_append_left (by omega)]
    exact hread
  · have hpos : (8 * (k : ℤ) + 8 - x.length) > 0 := by omega
    have hrest : (8 - (8 * (k : ℤ) + 8 - x.length)).toNat = x.length - 8 * k := by omega
    unfold segmentSource at hsrc ⊢
    rw [if_pos hpos, hrest, readSlice_eq_ok (by omega), checked_bind_ok, checked_pure] at hsrc
    rw [if_pos hpos, hrest, readSlice_eq_ok (by rw [List.length_append]; omega), checked_bind_ok,
      checked_pure, List.drop_append_of_le_length (by omega),
      List.take_append_of_le_length (by rw [List.length_drop])]
    cases hsrc
    exact ⟨_, rfl, hat, fun hle => absurd hle hwhole⟩

/-- `pack_seg` keeps to the buffer. -/
theorem Inside.packSeg (h : Inside x n k s) {src : ℕ → Checked UInt8} {seg : List UInt8}
    (hsrc : ∀ i < 8, src i = .ok (seg.getD i 0)) (hseg : seg.length = 8) :
    ∃ out, packSeg src s.buffer s.out s.bufsz s.ffN = .ok (segCost seg s.ffN, out) ∧
      out.length = n := by
  have hbufsz := h.bufsz
  have hout := h.out
  refine ⟨_, packSeg_eq hsrc hseg (by omega), ?_⟩
  have hlen : ((nonzero seg).take (s.bufsz - 1).toNat).length ≤ (s.bufsz - 1).toNat :=
    List.length_take_le ..
  split_ifs with hscratch
  · by_cases hpos : s.bufsz ≤ 1
    · rw [show (s.bufsz - 1).toNat = 0 by omega, List.take_zero, overwrite_nil, hout]
    · rw [length_overwrite (by omega), hout]
  · rw [not_or] at hscratch
    rw [length_overwrite (by rw [List.length_cons]; omega), hout]

/-- What the loop makes of the FF block behind a segment that costs `c` bytes. -/
structure Collected (x : List UInt8) (n k c : ℕ) (s s' : PackState) : Prop where
  out : s'.out.length = n
  bufsz : s'.bufsz = s.bufsz - c
  size : s'.size = s.size
  buffer : s'.buffer = s.buffer
  run : 0 < s'.ffN → ∃ offset, s'.ffSrcstart = .srcv offset ∧ offset + 8 * s'.ffN = 8 * (k + 1) ∧
    offset + 8 ≤ x.length ∧ s'.ffDesstart + 8 * s'.ffN + 2 = s.buffer + c

/-- How much a segment costs, and what becomes of the number of segments in the block. -/
inductive Costs (x : List UInt8) (k : ℕ) : ℕ → ℕ → ℕ → Prop
  /-- a segment without a zero byte opens a block -/
  | opens : 8 * k + 8 ≤ x.length → Costs x k 0 1 10
  /-- a segment with its header, and `z` of its bytes -/
  | plain (z : ℕ) : z ≤ 7 → 8 * k + z ≤ x.length → Costs x k 0 0 (z + 1)
  /-- a segment joins the block -/
  | joins (ffN : ℕ) : 0 < ffN → ffN + 1 < 256 → 8 * k + 6 ≤ x.length →
    Costs x k ffN (ffN + 1) 8
  /-- a segment is the last one of a block of 256 -/
  | closes : 8 * k + 6 ≤ x.length → Costs x k 255 0 8
  /-- a segment with its header ends the block -/
  | ends (ffN z : ℕ) : 0 < ffN → z ≤ 5 → 8 * k + z ≤ x.length → Costs x k ffN 0 (z + 1)

theorem Costs.le_ten {ffN ffN' : ℕ} (h : Costs x k ffN ffN' c) : c ≤ 10 := by
  cases h <;> omega

/-- A block that is written stays in the buffer. -/
theorem writeFf_keeps {srcv : List UInt8} {offset des m b : ℕ} (hm : (b + 7) / 8 = m)
    (hsrc : offset + b ≤ srcv.length) (hout : des + (8 * m + 2) ≤ out.length) :
    ∃ out', writeFf srcv (.srcv offset) out des b = .ok out' ∧ out'.length = out.length := by
  refine ⟨_, writeFf_ok hm hsrc hout, ?_⟩
  have hbytes : ((srcv.drop offset).take b).length = b := by
    rw [List.length_take, List.length_drop]
    omega
  rw [length_overwrite]
  rw [List.length_cons, List.length_cons, List.length_append, hbytes, List.length_replicate]
  omega

/-- A block that is written needs no more of the memory than the seven bytes behind the message,
and stays in the buffer. -/
theorem Inside.flushFf (h : Inside x n k s) {c m : ℕ} (hout : out.length = n)
    (hpos : 0 < s.ffN) (hm : m = s.ffN ∧ 0 ≤ c ∨ m = s.ffN + 1 ∧ c = 8)
    (hsrc : 8 * (k + (m - s.ffN)) ≤ x.length + y.length) :
    ∃ s', Sproto.flushFf (x ++ y) { s with out := out, bufsz := s.bufsz - (c : ℕ) } (m * 8) =
      .ok s' ∧ s'.ffN = 0 ∧ Collected x n k c s s' := by
  obtain ⟨offset, hstart, hoffset, -, hdes⟩ := h.run hpos
  have hbufsz := h.bufsz
  unfold Sproto.flushFf
  by_cases hfit : s.bufsz - (c : ℕ) ≥ 0
  · obtain ⟨out', hwrite, hlen⟩ : ∃ out', writeFf (x ++ y) (.srcv offset) out s.ffDesstart
        (m * 8) = .ok out' ∧ out'.length = out.length :=
      writeFf_keeps (m := m) (by omega) (by rw [List.length_append]; omega) (by omega)
    rw [if_pos hfit, hstart, hwrite, checked_bind_ok, checked_pure]
    exact ⟨_, rfl, rfl, hlen.trans hout, rfl, rfl, rfl, fun h => absurd h (lt_irrefl 0)⟩
  · rw [if_neg hfit, checked_pure]
    exact ⟨_, rfl, rfl, hout, rfl, rfl, rfl, fun h => absurd h (lt_irrefl 0)⟩

/-- The bytes of a segment that are not zero are bytes of the message. -/
theorem nonzero_chunk_le (h : 8 * k < x.length) :
    8 * k + (nonzero (chunk x k)).length ≤ x.length := by
  by_cases hfull : 8 * k + 8 ≤ x.length
  · have hle := nonzero_length_le (chunk x k)
    rw [length_chunk (by omega)] at hle
    omega
  · have hzeros : nonzero (List.replicate (8 * k + 8 - x.length) (0 : UInt8)) = [] := by
      apply List.filter_eq_nil_iff.mpr
      intro b hb
      rw [List.eq_of_mem_replicate hb]
      decide
    have hle := nonzero_length_le (x.drop (8 * k))
    rw [List.length_drop] at hle
    have happ : nonzero (chunk x k) = nonzero (x.drop (8 * k)) := by
      rw [chunk_last h (by omega), nonzero, List.filter_append]
      show nonzero (x.drop (8 * k)) ++ nonzero _ = _
      rw [hzeros, List.append_nil]
    rw [happ]
    omega

/-- The loop about the FF block keeps to the message and the buffer. -/
theorem Inside.collectFf (h : Inside x n k s) {src : Source} (hk : 8 * k < x.length)
    (hsrc : 8 * k + 8 ≤ x.length → src = .srcv (8 * k)) (hout : out.length = n)
    (hmore : 7 ≤ y.length) :
    ∃ s', Sproto.collectFf (x ++ y) src (segCost (chunk x k) s.ffN)
        { s with out := out, bufsz := s.bufsz - (segCost (chunk x k) s.ffN : ℕ) } = .ok s' ∧
      Costs x k s.ffN s'.ffN (segCost (chunk x k) s.ffN) ∧
      Collected x n k (segCost (chunk x k) s.ffN) s s' := by
  have hz := nonzero_chunk_le hk
  have hle := nonzero_length_le (chunk x k)
  rw [length_chunk (by omega)] at hle
  have hcount := h.count
  generalize hc : segCost (chunk x k) s.ffN = c
  unfold segCost at hc
  generalize (nonzero (chunk x k)).length = z at hz hle hc
  unfold Sproto.collectFf
  by_cases hpos : 0 < s.ffN
  · rw [if_neg (by omega)] at hc
    by_cases hsix : 6 ≤ z
    · -- the segment joins the block
      rw [if_pos hsix] at hc
      rw [if_neg (by omega), if_pos ⟨hc.symm, hpos⟩]
      by_cases hlast : s.ffN + 1 = 256
      · obtain ⟨s', hflush, hzero, hcollected⟩ := h.flushFf (y := y) (m := 256) hout hpos
          (Or.inr ⟨hlast.symm, hc.symm⟩) (by omega)
        rw [if_pos hlast]
        refine ⟨s', hflush, ?_, hcollected⟩
        rw [hzero, show s.ffN = 255 by omega, ← hc]
        exact .closes (by omega)
      · obtain ⟨offset, hstart, hoffset, hfirst, hdes⟩ := h.run hpos
        rw [if_neg hlast, checked_pure]
        refine ⟨_, rfl, ?_, hout, rfl, rfl, rfl, fun _ => ⟨offset, hstart, ?_, hfirst, ?_⟩⟩
        · rw [← hc]
          exact .joins s.ffN hpos (by omega) (by omega)
        · show offset + 8 * (s.ffN + 1) = 8 * (k + 1)
          omega
        · show s.ffDesstart + 8 * (s.ffN + 1) + 2 = s.buffer + c
          omega
    · rw [if_neg hsix] at hc
      obtain ⟨s', hflush, hzero, hcollected⟩ := h.flushFf (y := y) (c := c) (m := s.ffN)
        hout hpos (Or.inl ⟨rfl, Nat.zero_le c⟩) (by omega)
      rw [if_neg (by omega), if_neg (by omega), if_pos hpos]
      refine ⟨s', hflush, ?_, hcollected⟩
      rw [hzero, ← hc]
      exact .ends s.ffN z hpos (by omega) hz
  · have hzero : s.ffN = 0 := by omega
    rw [if_pos hzero] at hc
    by_cases hfull : z = 8
    · rw [if_pos hfull] at hc
      rw [if_pos hc.symm, hsrc (by omega), checked_pure]
      refine ⟨_, rfl, ?_, hout, rfl, rfl, rfl, fun _ => ⟨8 * k, rfl, rfl, by omega, ?_⟩⟩
      · rw [hzero, ← hc]
        exact .opens (by omega)
      · show s.buffer + 8 * 1 + 2 = s.buffer + c
        omega
    · rw [if_neg hfull] at hc
      rw [if_neg (by omega), if_neg (fun hjoin => hpos hjoin.2), if_neg hpos, checked_pure]
      refine ⟨_, rfl, ?_, hout, rfl, rfl, rfl, fun hrun => absurd hrun hpos⟩
      show Costs x k s.ffN s.ffN c
      rw [hzero, ← hc]
      exact .plain z (by omega) hz

/-- The segments behind the next one cost no more than it leaves for them. -/
theorem Inside.costs (h : Inside x n k s) {ffN' : ℕ} (hk : 8 * k < x.length)
    (hc : Costs x k s.ffN ffN' c) :
    ffN' < 256 ∧
      (8 * (k + 1) ≤ x.length → ∃ q, 256 * q + ffN' ≤ k + 1 ∧
        s.buffer + c ≤ 8 * (k + 1) + 2 * q + if 0 < ffN' then 2 else 0) ∧
      (x.length < 8 * (k + 1) → s.buffer + c ≤ maxsz x.length) := by
  obtain ⟨q, hblocks, hbuffer⟩ := h.cost hk.le
  unfold maxsz
  generalize s.ffN = ffN at hc hblocks hbuffer
  cases hc with
  | opens hfull =>
    rw [if_neg (lt_irrefl 0)] at hbuffer
    refine ⟨by decide, fun _ => ⟨q, by omega, ?_⟩, fun hend => absurd hend (by omega)⟩
    rw [if_pos Nat.one_pos]
    omega
  | plain z hseven hz =>
    rw [if_neg (lt_irrefl 0)] at hbuffer
    refine ⟨by decide, fun _ => ⟨q, by omega, ?_⟩, fun hend => by omega⟩
    rw [if_neg (lt_irrefl 0)]
    omega
  | joins _ hpos hlast hsix =>
    rw [if_pos hpos] at hbuffer
    refine ⟨hlast, fun _ => ⟨q, by omega, ?_⟩, fun hend => by omega⟩
    rw [if_pos (Nat.succ_pos _)]
    omega
  | closes hsix =>
    rw [if_pos (by decide)] at hbuffer
    refine ⟨by decide, fun _ => ⟨q + 1, by omega, ?_⟩, fun hend => by omega⟩
    rw [if_neg (lt_irrefl 0)]
    omega
  | ends _ z hpos hfive hz =>
    rw [if_pos hpos] at hbuffer
    refine ⟨by decide, fun _ => ⟨q, by omega, ?_⟩, fun hend => by omega⟩
    rw [if_neg (lt_irrefl 0)]
    omega

/-! ## The loop -/

/-- What is packed in front of a segment. -/
theorem Inside.buffer_le (h : Inside x n k s) (hk : 8 * k < x.length + 8) :
    s.buffer ≤ maxsz x.length := by
  by_cases hend : 8 * k ≤ x.length
  · obtain ⟨q, hblocks, hbuffer⟩ := h.cost hend
    have hopen : (if 0 < s.ffN then 2 else 0) ≤ 2 := by split <;> omega
    unfold maxsz
    omega
  · exact h.total (by omega)

/-- The longest message -/
def longest : ℕ := 2 ^ 23

theorem maxsz_lt {sz : ℕ} (h : sz ≤ longest) : maxsz sz < 2 ^ 24 := by
  unfold longest at h
  unfold maxsz
  omega

/-- One round of the loop. -/
theorem Inside.step (h : Inside x (maxsz x.length) k s) (hk : 8 * k < x.length)
    (hmore : 7 ≤ y.length) (hx : x.length ≤ longest) :
    ∃ s', packStepIn (x ++ y) x.length s k = .ok s' ∧
      Inside x (maxsz x.length) (k + 1) s' := by
  have hn := maxsz_lt hx
  have hbound := h.buffer_le (by omega)
  have hbufsz := h.bufsz
  have hsize := h.size
  unfold longest at hx
  obtain ⟨src, hsource, hbytes, hsrc⟩ := segmentSource_more (y := y) hk
  obtain ⟨out, hseg, hout⟩ := h.packSeg hbytes (length_chunk (by omega))
  obtain ⟨s', hcollect, hcosts, hcollected⟩ := h.collectFf (y := y) hk hsrc hout hmore
  obtain ⟨hcount, hcost, htotal⟩ := h.costs hk hcosts
  have hle := hcosts.le_ten
  generalize segCost (chunk x k) s.ffN = c at *
  have hnext : int (8 * (k : ℤ) + 8) = .ok _ := int_eq_ok (by omega) (by omega)
  have hroom : int (s.bufsz - (c : ℕ)) = .ok _ := int_eq_ok (by omega) (by omega)
  have hlen : int (s'.size + (c : ℕ)) = .ok (s'.size + (c : ℕ)) := by
    rw [hcollected.size]
    exact int_eq_ok (by omega) (by omega)
  refine ⟨{ s' with size := s'.size + (c : ℕ), buffer := s'.buffer + c }, ?_, hcollected.out,
    ?_, ?_, hcount, ?_, ?_, ?_⟩
  · unfold packStepIn
    rw [hnext, checked_bind_ok, hsource, checked_bind_ok, hseg, checked_bind_ok]
    show (int (s.bufsz - (c : ℕ)) >>= _) = _
    rw [hroom, checked_bind_ok, hcollect, checked_bind_ok, hlen, checked_bind_ok, checked_pure]
  · show ((s'.buffer + c : ℕ) : ℤ) + s'.bufsz = _
    rw [hcollected.buffer, hcollected.bufsz]
    push_cast
    omega
  · show s'.size + (c : ℕ) = ((s'.buffer + c : ℕ) : ℤ)
    rw [hcollected.size, hcollected.buffer]
    push_cast
    omega
  · intro hpos
    obtain ⟨offset, hstart, hoffset, hfirst, hdes⟩ := hcollected.run hpos
    refine ⟨offset, hstart, hoffset, hfirst, hdes.trans ?_⟩
    show _ = s'.buffer + c
    rw [hcollected.buffer]
  · show _ → ∃ q, _ ∧ s'.buffer + c ≤ _
    rw [hcollected.buffer]
    exact hcost
  · show _ → s'.buffer + c ≤ _
    rw [hcollected.buffer]
    exact htotal

theorem inside_start (x : List UInt8) (n : ℕ) :
    Inside x n 0 ⟨.srcv 0, 0, 0, 0, 0, n, blank n⟩ := by
  refine ⟨length_blank n, ?_, rfl, Nat.zero_lt_succ 255, fun h => absurd h (lt_irrefl 0),
    fun _ => ⟨0, le_rfl, le_rfl⟩, fun h => absurd h (Nat.not_lt_zero _)⟩
  show ((0 : ℕ) : ℤ) + n = n
  omega

/-- The loop behind the first `k` segments. -/
theorem inside_loop (hmore : 7 ≤ y.length) (hx : x.length ≤ longest)
    (hk : k ≤ (x.length + 7) / 8) :
    ∃ s, (List.range k).foldlM (packStepIn (x ++ y) x.length)
        ⟨.srcv 0, 0, 0, 0, 0, maxsz x.length, blank (maxsz x.length)⟩ = .ok s ∧
      Inside x (maxsz x.length) k s := by
  induction k with
  | zero => exact ⟨_, rfl, inside_start x _⟩
  | succ k ih =>
    obtain ⟨s, hs, hinside⟩ := ih (by omega)
    obtain ⟨s', hs', hinside'⟩ := hinside.step (y := y) (by omega) hmore hx
    have hone : [k].foldlM (packStepIn (x ++ y) x.length) s = .ok s' := by
      rw [List.foldlM_cons, hs', checked_bind_ok]
      rfl
    refine ⟨s', ?_, hinside'⟩
    rw [List.range_succ, List.foldlM_append, hs, checked_bind_ok, hone]

/-- The block that is still open behind the last segment. -/
theorem Inside.last (h : Inside x n ((x.length + 7) / 8) s) :
    ∃ out, packLastIn (x ++ y) x.length s = .ok out ∧ out.length = n := by
  have hbufsz := h.bufsz
  have hout := h.out
  unfold packLastIn
  by_cases hfit : s.bufsz ≥ 0
  · rw [if_pos hfit]
    by_cases hpos : 0 < s.ffN
    · obtain ⟨offset, hstart, hoffset, hfirst, hdes⟩ := h.run hpos
      have hkeeps : ∀ b, (b + 7) / 8 = s.ffN → offset + b ≤ x.length →
          ∃ out, writeFf (x ++ y) (.srcv offset) s.out s.ffDesstart b = .ok out ∧
            out.length = s.out.length := by
        intro b hb hle
        apply writeFf_keeps hb
        · rw [List.length_append]
          omega
        · omega
      rw [hstart, ← hout]
      by_cases hone : s.ffN = 1
      · rw [if_pos hone]
        exact hkeeps 8 (by omega) hfirst
      · rw [if_neg hone, if_pos (by omega)]
        exact hkeeps (x.length - offset) (by omega) (by omega)
    · rw [if_neg (by omega), if_neg (by omega)]
      exact ⟨s.out, rfl, hout⟩
  · rw [if_neg hfit]
    exact ⟨s.out, rfl, hout⟩

/-- `sproto_pack` ends with its buffer, which has the size that `lpack` announces. -/
theorem sprotoPackIn_ok (hmore : 7 ≤ y.length) (hx : x.length ≤ longest) :
    ∃ size out, sprotoPackIn (x ++ y) x.length (maxsz x.length) = .ok (size, out) ∧
      0 ≤ size ∧ size ≤ maxsz x.length ∧ out.length = maxsz x.length := by
  obtain ⟨s, hs, hinside⟩ := inside_loop hmore hx le_rfl
  obtain ⟨out, hlast, hout⟩ := hinside.last (y := y)
  have hbuffer := hinside.buffer_le (by omega)
  have hsize := hinside.size
  refine ⟨s.size, out, ?_, by omega, by omega, hout⟩
  unfold sprotoPackIn
  rw [hs, checked_bind_ok, hlast, checked_bind_ok, checked_pure]

/-! ## The buffer of lpack -/

/-- The loop of `expand_buffer` ends with a buffer that is large enough. -/
theorem doubleOsz_ok {nsz fuel : ℕ} {o : OutputSize} (hnsz : nsz < 2 ^ 24)
    (ho : o.osz < 2 ^ 24) (hfuel : 2 ^ 24 ≤ o.osz * 2 ^ fuel) :
    ∃ o', doubleOsz nsz fuel o = .ok o' ∧ nsz ≤ o'.osz := by
  induction fuel generalizing o with
  | zero => omega
  | succ fuel ih =>
    have hint : int (o.osz * 2) = .ok _ := int_eq_ok (by omega) (by omega)
    unfold doubleOsz
    rw [hint, checked_bind_ok]
    by_cases hlt : o.osz * 2 < nsz
    · rw [if_pos hlt]
      apply ih (by show o.osz * 2 < 2 ^ 24; omega)
      show 2 ^ 24 ≤ o.osz * 2 * 2 ^ fuel
      rw [Nat.mul_assoc, ← Nat.pow_succ']
      exact hfuel
    · rw [if_neg hlt, checked_pure]
      exact ⟨_, rfl, by show nsz ≤ o.osz * 2; omega⟩

/-- The output buffer has room for what is announced. -/
theorem outputFor_ok {sz : ℕ} (h : sz ≤ longest) (o : OutputSize) :
    ∃ expanded, outputFor o (maxsz sz) = .ok expanded ∧ ∀ o' ∈ expanded, maxsz sz ≤ o'.osz := by
  have hn := maxsz_lt h
  have ho := o.le
  unfold encodeBuffersize at ho
  unfold outputFor
  by_cases hsmall : o.osz < maxsz sz
  · have hfuel : 2 ^ 24 ≤ o.osz * 2 ^ 32 := by
      calc 2 ^ 24 ≤ 2050 * 2 ^ 32 := by decide
        _ ≤ o.osz * 2 ^ 32 := Nat.mul_le_mul_right _ ho
    obtain ⟨o', hdouble, hroom⟩ := doubleOsz_ok hn (by omega) hfuel
    unfold expandBuffer
    rw [if_pos hsmall, hdouble, checked_bind_ok, checked_pure]
    refine ⟨_, rfl, fun o'' hmem => ?_⟩
    split_ifs at hmem
    · cases hmem
    · cases hmem
      exact hroom
  · rw [if_neg hsmall, checked_pure]
    refine ⟨_, rfl, fun o' hmem => ?_⟩
    cases hmem
    omega

/-- A message of at most 2^23 bytes is packed into no more than `maxsz` bytes, without a write
outside of these, whatever is in the memory behind it; `lpack` never raises "packing error". -/
theorem lpack_fits (x : List UInt8) (hx : x.length ≤ 2 ^ 23) (behind : Fin 7 → UInt8)
    (o : OutputSize) :
    ∃ size out, sprotoPackIn (x ++ List.ofFn behind) x.length (maxsz x.length) = .ok (size, out) ∧
      0 ≤ size ∧ size ≤ maxsz x.length ∧ out.length = maxsz x.length ∧
      ∃ r o', lpack o (x ++ List.ofFn behind) x.length = .ok (r, o') ∧
        (r = .tooLarge ∨ r = .string (out.take size.toNat) ∧ maxsz x.length ≤ o'.osz) := by
  obtain ⟨size, out, hpack, hnonneg, hle, hout⟩ :=
    sprotoPackIn_ok (x := x) (y := List.ofFn behind) (by rw [List.length_ofFn]) hx
  obtain ⟨expanded, houtput, hroom⟩ := outputFor_ok hx o
  refine ⟨size, out, hpack, hnonneg, hle, hout, ?_⟩
  unfold lpack
  rw [houtput, checked_bind_ok]
  cases expanded with
  | none => exact ⟨_, _, rfl, Or.inl rfl⟩
  | some o' =>
    have hfine : ¬ (size < 0 ∨ size > maxsz x.length) := by omega
    refine ⟨.string (out.take size.toNat), o', ?_, Or.inr ⟨rfl, hroom o' rfl⟩⟩
    show (sprotoPackIn _ _ _ >>= _) = _
    rw [hpack, checked_bind_ok]
    exact if_neg hfine

/-- Seven bytes without a zero behind a segment of such bytes fill up the block. -/
theorem lpack_fits_dense : ∃ size out,
    sprotoPackIn (List.replicate 15 1 ++ List.ofFn fun _ : Fin 7 => (9 : UInt8)) 15 19 =
      .ok (size, out) ∧ 0 ≤ size ∧ size ≤ 19 ∧ out.length = 19 ∧
      ∃ r o', lpack ⟨2050, le_rfl⟩
          (List.replicate 15 1 ++ List.ofFn fun _ : Fin 7 => (9 : UInt8)) 15 = .ok (r, o') ∧
        (r = .tooLarge ∨ r = .string (out.take size.toNat) ∧ 19 ≤ o'.osz) :=
  lpack_fits (List.replicate 15 1) (by decide) (fun _ => 9) ⟨2050, le_rfl⟩

end SkynetEureka.Sproto
