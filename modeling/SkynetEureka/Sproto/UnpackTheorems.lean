import SkynetEureka.Sproto.Pack
import SkynetEureka.Sproto.Segments

/-!
# sproto_unpack

The loop of `sproto_unpack` takes one segment after another from the stream. `Ahead` is what a
state has still to read, `Filled` what it has written. What happens at the end of the stream
depends on what is left there (`CutSafely`): the check in front of a byte of a segment is made
against `srcsz < 0`, so that one byte is read behind the end of the stream, and a segment with
exactly one byte missing is taken for a whole one.
-/

namespace SkynetEureka.Sproto

open Lib

/-! ## States -/

/-- The state has the bytes `b` of the stream still to read. -/
structure Ahead (srcv b : List UInt8) (s : UnpackState) : Prop where
  src : srcv.drop s.src = b
  srcsz : s.srcsz = b.length

/-- The state has unpacked `u` into a buffer of `n` bytes. -/
structure Filled (n : ℕ) (u : List UInt8) (s : UnpackState) : Prop where
  size : s.size = u.length
  fits : u.length ≤ n → s.bufsz = n - u.length ∧ s.buffer = u.length ∧
    s.out = u.map some ++ blank (n - u.length)
  full : n < u.length → s.bufsz ≤ 0 ∧ -(u.length : ℤ) ≤ s.bufsz

section

variable {srcv b rest u l : List UInt8} {header c : UInt8} {s s' : UnpackState} {n i k : ℕ}
  {is : List ℕ}

theorem Ahead.tail (h : Ahead srcv (c :: rest) s) : srcv.drop (s.src + 1) = rest := by
  rw [← List.drop_drop, h.src, List.drop_one, List.tail_cons]

theorem Ahead.read (h : Ahead srcv (c :: rest) s) : readAt srcv s.src = .ok c :=
  readAt_of_drop h.src

/-- At the end of the stream the next read is outside of it. -/
theorem Ahead.read_end (h : Ahead srcv [] s) : readAt srcv s.src = .error (.fault .read) :=
  readAt_eq_fault (List.drop_eq_nil_iff.mp h.src)

theorem Filled.room (h : Filled n u s) : s.bufsz > 0 ↔ u.length < n := by
  rcases Nat.lt_or_ge n u.length with hlt | hge
  · have := h.full hlt
    omega
  · have := (h.fits hge).1
    omega

theorem Filled.lower (h : Filled n u s) : -(u.length : ℤ) ≤ s.bufsz := by
  rcases Nat.lt_or_ge n u.length with hlt | hge
  · exact (h.full hlt).2
  · have := (h.fits hge).1
    omega

/-- The state behind the bytes `l`, whether there was room for them or not. -/
theorem Filled.grow (h : Filled n u s) (hsize : s'.size = s.size + l.length)
    (hroom : u.length + l.length ≤ n → s'.bufsz = s.bufsz - l.length ∧
      s'.buffer = s.buffer + l.length ∧
      s'.out = (u ++ l).map some ++ blank (n - (u.length + l.length)))
    (hfull : n < u.length + l.length → s'.bufsz ≤ 0 ∧ s.bufsz - l.length ≤ s'.bufsz) :
    Filled n (u ++ l) s' := by
  have hlen : (u ++ l).length = u.length + l.length := List.length_append
  have hlow := h.lower
  refine ⟨?_, fun hle => ?_, fun hlt => ?_⟩
  · rw [hsize, h.size, hlen]
    push_cast
    rfl
  · rw [hlen] at hle ⊢
    obtain ⟨h₁, h₂, h₃⟩ := hroom hle
    obtain ⟨hb, hbuf, -⟩ := h.fits (by omega)
    exact ⟨by rw [h₁, hb]; push_cast; ring, by rw [h₂, hbuf], h₃⟩
  · rw [hlen] at hlt ⊢
    obtain ⟨h₁, h₂⟩ := hfull hlt
    refine ⟨h₁, ?_⟩
    push_cast
    omega

/-- Where there is room for a byte, it is written behind the others. -/
theorem Filled.writeAt (h : Filled n u s) (hroom : u.length < n) (c : UInt8) :
    Lib.writeAt s.out s.buffer c =
      .ok ((u ++ [c]).map some ++ blank (n - (u.length + 1))) := by
  obtain ⟨-, hbuf, hout⟩ := h.fits hroom.le
  rw [hout, writeAt_append c (by rw [List.length_map, hbuf]) (by rw [length_blank]; omega)]
  rw [blank, List.drop_replicate, List.map_append, List.append_assoc, Nat.sub_sub]
  rfl

/-! ## The bytes of a segment -/

/-- The state `t` before `++size` has written the byte `c` behind `u`, or had no room for it. -/
structure Put (n : ℕ) (u : List UInt8) (c : UInt8) (s t : UnpackState) : Prop where
  size : t.size = s.size
  filled : Filled n (u ++ [c]) { t with size := s.size + 1 }

theorem Put.written (h : Filled n u s) (hlt : u.length < n) (hsize : s'.size = s.size)
    (hbufsz : s'.bufsz = s.bufsz - 1) (hbuffer : s'.buffer = s.buffer + 1)
    (hout : s'.out = (u ++ [c]).map some ++ blank (n - (u.length + 1))) : Put n u c s s' := by
  refine ⟨hsize, h.grow rfl (fun _ => ⟨hbufsz, hbuffer, hout⟩) fun hgt => ?_⟩
  rw [List.length_singleton] at hgt
  omega

theorem Put.skipped (h : Filled n u s) (hge : n ≤ u.length) (hsize : s'.size = s.size)
    (hbufsz : s'.bufsz = s.bufsz) : Put n u c s s' := by
  have hb : ¬ s.bufsz > 0 := fun hb => absurd (h.room.mp hb) (by omega)
  refine ⟨hsize, h.grow rfl (fun hle => ?_) fun _ => ?_⟩
  · rw [List.length_singleton] at hle
    omega
  · show s'.bufsz ≤ 0 ∧ s.bufsz - ((1 : ℕ) : ℤ) ≤ s'.bufsz
    omega

/-- `++size`, as long as the size fits an int. -/
theorem unpackByte_ok (hbit : unpackBit srcv header s i = .ok s') (hput : Put n u c s s')
    (h : Filled n u s) (hsize : u.length + 1 < 2 ^ 31) :
    unpackByte srcv header s i = .ok { s' with size := s.size + 1 } := by
  have hint : int (s'.size + 1) = .ok (s.size + 1) := by
    rw [hput.size]
    exact int_eq_ok (by rw [h.size]; omega) (by rw [h.size]; omega)
  unfold unpackByte
  rw [hbit, checked_bind_ok, hint, checked_bind_ok]
  rfl

theorem unpackByte_overflow (hbit : unpackBit srcv header s i = .ok s')
    (hput : Put n u c s s') (h : Filled n u s) (hsize : 2 ^ 31 ≤ u.length + 1) :
    unpackByte srcv header s i = .error (.fault .overflow) := by
  have hint : int (s'.size + 1) = .error (.fault .overflow) :=
    int_eq_overflow (by rw [hput.size, h.size]; omega)
  unfold unpackByte
  rw [hbit, checked_bind_ok, hint, checked_bind_error]

theorem unpackBit_zero (hi : ¬ marked header i) (h : Filled n u s) :
    ∃ t, unpackBit srcv header s i = .ok t ∧ Put n u 0 s t ∧ t.src = s.src ∧
      t.srcsz = s.srcsz := by
  unfold unpackBit
  rw [if_neg hi]
  rcases Nat.lt_or_ge u.length n with hlt | hge
  · rw [if_pos (h.room.mpr hlt), h.writeAt hlt]
    exact ⟨_, rfl, .written h hlt rfl rfl rfl rfl, rfl, rfl⟩
  · rw [if_neg fun hb => absurd (h.room.mp hb) (by omega)]
    exact ⟨_, rfl, .skipped h hge rfl rfl, rfl, rfl⟩

theorem unpackBit_marked (hi : marked header i) (ha : Ahead srcv (c :: rest) s)
    (h : Filled n u s) :
    ∃ t, unpackBit srcv header s i = .ok t ∧ Put n u c s t ∧ Ahead srcv rest t := by
  have hleft : s.srcsz - 1 = rest.length := by
    rw [ha.srcsz, List.length_cons]
    omega
  unfold unpackBit
  rw [if_pos hi, if_neg (by omega : ¬ s.srcsz < 0)]
  rcases Nat.lt_or_ge u.length n with hlt | hge
  · rw [if_pos (h.room.mpr hlt), ha.read, checked_bind_ok, h.writeAt hlt]
    exact ⟨_, rfl, .written h hlt rfl rfl rfl rfl, ha.tail, hleft⟩
  · rw [if_neg fun hb => absurd (h.room.mp hb) (by omega)]
    exact ⟨_, rfl, .skipped h hge rfl rfl, ha.tail, hleft⟩

/-- The next byte of a segment that is not cut short. -/
theorem unpackBit_next (ha : Ahead srcv rest s) (h : Filled n u s)
    (hw : weight header [i] ≤ rest.length) :
    ∃ t, unpackBit srcv header s i = .ok t ∧
      Put n u (if marked header i then rest.headD 0 else 0) s t ∧
      Ahead srcv (rest.drop (weight header [i])) t := by
  rw [weight_cons, weight, List.countP_nil, Nat.zero_add] at hw ⊢
  by_cases hi : marked header i
  · rw [if_pos hi] at hw
    rw [if_pos hi, if_pos hi]
    obtain ⟨c, rest, rfl⟩ := List.exists_cons_of_length_pos (by omega : 0 < rest.length)
    exact unpackBit_marked hi ha h
  · rw [if_neg hi, if_neg hi]
    obtain ⟨t, ht, hput, hsrc, hsrcsz⟩ := unpackBit_zero hi h
    exact ⟨t, ht, hput, by rw [hsrc]; exact ha.src, by rw [hsrcsz]; exact ha.srcsz⟩

/-- The bytes of a segment that is not cut short. -/
theorem unpackBytes_ok (ha : Ahead srcv rest s) (h : Filled n u s)
    (hw : weight header is ≤ rest.length) (hsize : u.length + is.length < 2 ^ 31) :
    ∃ s', is.foldlM (unpackByte srcv header) s = .ok s' ∧
      Filled n (u ++ spread header is rest) s' ∧
      Ahead srcv (rest.drop (weight header is)) s' := by
  induction is generalizing u rest s with
  | nil =>
    refine ⟨s, rfl, ?_, ha⟩
    rw [spread, List.append_nil]
    exact h
  | cons i is ih =>
    have hw' := weight_append header [i] is
    rw [List.singleton_append] at hw'
    rw [List.length_cons] at hsize
    have hnext : weight header [i] ≤ rest.length := by omega
    obtain ⟨t, ht, hput, hahead⟩ := unpackBit_next ha h hnext
    have hlen : (rest.drop (weight header [i])).length = rest.length - weight header [i] :=
      List.length_drop
    obtain ⟨s', hs', hfill, hahead'⟩ := ih (s := { t with size := s.size + 1 })
      ⟨hahead.src, hahead.srcsz⟩ hput.filled (by omega)
      (by rw [List.length_append, List.length_singleton]; omega)
    refine ⟨s', ?_, ?_, ?_⟩
    · rw [List.foldlM_cons, unpackByte_ok ht hput h (by omega), checked_bind_ok, hs']
    · rw [spread_cons]
      rwa [List.append_assoc] at hfill
    · rwa [hw', ← List.drop_drop]

/-- The last byte of a segment when the size reaches `2 ^ 31` with it. -/
theorem unpackBytes_overflow (ha : Ahead srcv rest s) (h : Filled n u s)
    (hw : weight header (is ++ [i]) ≤ rest.length)
    (hsize : u.length + is.length + 1 = 2 ^ 31) :
    (is ++ [i]).foldlM (unpackByte srcv header) s = .error (.fault .overflow) := by
  rw [weight_append] at hw
  have hfirst : weight header is ≤ rest.length := by omega
  obtain ⟨s', hs', hfill, hahead⟩ := unpackBytes_ok ha h hfirst (by omega)
  have hlast : weight header [i] ≤ (rest.drop (weight header is)).length := by
    rw [List.length_drop]
    omega
  obtain ⟨t, ht, hput, -⟩ := unpackBit_next hahead hfill hlast
  have hover := unpackByte_overflow ht hput hfill
    (by rw [List.length_append, length_spread]; omega)
  rw [List.foldlM_append, hs', checked_bind_ok, List.foldlM_cons, hover, checked_bind_error]

/-! ## A segment that is cut short -/

/-- Behind the end of the stream each further byte of the header ends the function with -1. -/
theorem unpackBytes_behind (is : List ℕ) (hneg : s.srcsz = -1) (h : Filled n u s)
    (hn : n ≤ u.length) (hsize : u.length + is.length ≤ 2 ^ 31) :
    (is.foldlM (unpackByte srcv header) s = .error .fail ↔ 0 < weight header is) ∧
      ∀ s', is.foldlM (unpackByte srcv header) s = .ok s' → s'.srcsz = -1 := by
  induction is generalizing u s with
  | nil =>
    refine ⟨⟨fun he => (by cases he), fun hw => ?_⟩, fun s' hs' => ?_⟩
    · rw [weight, List.countP_nil] at hw
      omega
    · cases hs'
      exact hneg
  | cons i is ih =>
    rw [List.length_cons] at hsize
    rw [List.foldlM_cons, weight_cons]
    by_cases hi : marked header i
    · have hfail : unpackByte srcv header s i = .error .fail := by
        unfold unpackByte unpackBit
        rw [if_pos hi, if_pos (by omega : s.srcsz < 0), checked_bind_error]
      rw [hfail, checked_bind_error, if_pos hi]
      exact ⟨⟨fun _ => by omega, fun _ => rfl⟩, fun s' hs' => (by cases hs')⟩
    · rw [if_neg hi, Nat.add_zero]
      obtain ⟨t, ht, hput, -, hsrcsz⟩ := unpackBit_zero hi h
      by_cases hlast : u.length + 1 = 2 ^ 31
      · -- the size does not fit an int, and this was the last byte
        have hnil : is = [] := List.length_eq_zero_iff.mp (by omega)
        rw [unpackByte_overflow ht hput h (by omega), checked_bind_error, hnil]
        exact ⟨⟨fun he => (by cases he), fun hw => (by cases hw)⟩, fun s' hs' => (by cases hs')⟩
      · have hlen : (u ++ [0]).length = u.length + 1 := List.length_append
        rw [unpackByte_ok ht hput h (by omega), checked_bind_ok]
        exact ih (hsrcsz.trans hneg) hput.filled (by omega) (by omega)

/-- The byte that is missing first is read if there is room for it. -/
theorem unpackByte_end_read (hi : marked header i) (ha : Ahead srcv [] s) (h : Filled n u s)
    (hlt : u.length < n) : unpackByte srcv header s i = .error (.fault .read) := by
  have hsz : s.srcsz = 0 := ha.srcsz
  unfold unpackByte unpackBit
  rw [if_pos hi, if_neg (by omega), if_pos (h.room.mpr hlt), ha.read_end]
  rfl

/-- If there is no room for it, the function goes on behind the end of the stream. -/
theorem unpackBit_end_skip (hi : marked header i) (ha : Ahead srcv [] s) (h : Filled n u s)
    (hge : n ≤ u.length) :
    ∃ t, unpackBit srcv header s i = .ok t ∧ Put n u 0 s t ∧ t.srcsz = -1 := by
  have hsz : s.srcsz = 0 := ha.srcsz
  unfold unpackBit
  rw [if_pos hi, if_neg (by omega), if_neg fun hb => absurd (h.room.mp hb) (by omega)]
  refine ⟨_, rfl, .skipped h hge rfl rfl, ?_⟩
  show s.srcsz - 1 = -1
  omega

/-- A segment with too few bytes. If only one is missing, the function does not notice it. -/
theorem unpackBytes_short (ha : Ahead srcv rest s) (h : Filled n u s)
    (hw : rest.length < weight header is) (hsize : u.length + is.length ≤ 2 ^ 31) :
    (is.foldlM (unpackByte srcv header) s = .error .fail ↔
      rest.length + 2 ≤ weight header is ∧ n ≤ u.length + missing header is rest.length) ∧
    ∀ s', is.foldlM (unpackByte srcv header) s = .ok s' → s'.srcsz = -1 := by
  obtain ⟨is₁, i, is₂, rfl, hi, hw₁, hlen⟩ := missing_split hw
  rw [List.length_append, List.length_cons] at hsize
  obtain ⟨t, ht, hfill, hahead⟩ := unpackBytes_ok ha h (le_of_eq hw₁) (by omega)
  rw [hw₁, List.drop_length] at hahead
  have hu : (u ++ spread header is₁ rest).length = u.length + is₁.length := by
    rw [List.length_append, length_spread]
  rw [List.foldlM_append, ht, checked_bind_ok, List.foldlM_cons, weight_append, weight_cons,
    if_pos hi, hw₁, ← hlen]
  rcases Nat.lt_or_ge (u.length + is₁.length) n with hlt | hge
  · rw [unpackByte_end_read hi hahead hfill (by omega), checked_bind_error]
    exact ⟨⟨fun he => (by cases he), fun hc => (by omega)⟩, fun s' hs' => (by cases hs')⟩
  · obtain ⟨t', ht', hput, hsrcsz⟩ := unpackBit_end_skip hi hahead hfill (by omega)
    by_cases hlast : u.length + is₁.length + 1 = 2 ^ 31
    · -- the size does not fit an int, and this was the last byte
      have hnil : is₂ = [] := List.length_eq_zero_iff.mp (by omega)
      have hzero : weight header is₂ = 0 := by rw [hnil]; rfl
      rw [unpackByte_overflow ht' hput hfill (by omega), checked_bind_error]
      exact ⟨⟨fun he => (by cases he), fun hc => (by omega)⟩, fun s' hs' => (by cases hs')⟩
    · have hlong : (u ++ spread header is₁ rest ++ [0]).length = u.length + is₁.length + 1 := by
        rw [List.length_append, hu, List.length_singleton]
      rw [unpackByte_ok ht' hput hfill (by omega), checked_bind_ok]
      have hfull : n ≤ (u ++ spread header is₁ rest ++ [0]).length := by omega
      have hsize' : (u ++ spread header is₁ rest ++ [0]).length + is₂.length ≤ 2 ^ 31 := by omega
      obtain ⟨hfail, hgoes⟩ := @unpackBytes_behind srcv _ header
        { t' with size := t.size + 1 } n is₂ hsrcsz hput.filled hfull hsize'
      refine ⟨hfail.trans ⟨fun hc => ?_, fun hc => ?_⟩, hgoes⟩ <;> omega

/-! ## Segments -/

/-- The state behind the header of a segment. -/
theorem Ahead.skip (ha : Ahead srcv (c :: rest) s) :
    Ahead srcv rest { s with srcsz := s.srcsz - 1, src := s.src + 1 } := by
  refine ⟨ha.tail, ?_⟩
  show s.srcsz - 1 = rest.length
  rw [ha.srcsz, List.length_cons]
  omega

theorem Filled.skip (h : Filled n u s) (srcsz : ℤ) (src : ℕ) :
    Filled n u { s with srcsz := srcsz, src := src } :=
  ⟨h.size, h.fits, h.full⟩

/-- An FF block with all of its segments. -/
theorem unpackFf_ok (hn : n < 2 ^ 31) (ha : Ahead srcv (c :: rest) s) (h : Filled n u s)
    (hlen : (c.toNat + 1) * 8 ≤ rest.length) (hsize : u.length + (c.toNat + 1) * 8 < 2 ^ 31) :
    ∃ s', unpackFf srcv s = .ok s' ∧ Filled n (u ++ rest.take ((c.toNat + 1) * 8)) s' ∧
      Ahead srcv (rest.drop ((c.toNat + 1) * 8)) s' := by
  have hsz : s.srcsz = rest.length + 1 := ha.srcsz
  have hlow := h.lower
  have hhigh : s.bufsz ≤ n := by
    rcases Nat.lt_or_ge n u.length with hlt | hge
    · have := h.full hlt
      omega
    · have := (h.fits hge).1
      omega
  have hk : (rest.take ((c.toNat + 1) * 8)).length = (c.toNat + 1) * 8 := by
    rw [List.length_take]
    omega
  generalize hkdef : (c.toNat + 1) * 8 = k at hlen hsize hk
  have hread : readSlice srcv (s.src + 1) k = .ok (rest.take k) := by
    have hdrop : (srcv.drop (s.src + 1)).length = rest.length := by rw [ha.tail]
    rw [List.length_drop] at hdrop
    rw [readSlice_eq_ok (by omega), ha.tail]
  have hbuf : int (s.bufsz - k) = .ok (s.bufsz - k) := int_eq_ok (by omega) (by omega)
  have hint : int (s.size + k) = .ok (s.size + k) :=
    int_eq_ok (by rw [h.size]; omega) (by rw [h.size]; omega)
  have hahead : Ahead srcv (rest.drop k)
      { s with src := s.src + 1 + k, srcsz := s.srcsz - (k + 1) } := by
    refine ⟨?_, ?_⟩
    · show srcv.drop (s.src + 1 + k) = _
      rw [← List.drop_drop, ha.tail]
    · show s.srcsz - (k + 1) = _
      rw [List.length_drop]
      omega
  unfold unpackFf
  rw [if_neg (by omega : ¬ s.srcsz < 0), ha.read]
  simp only [checked_bind_ok, checked_pure, hkdef]
  rw [if_neg (by omega : ¬ s.srcsz < k + 1)]
  by_cases hroom : s.bufsz ≥ k
  · obtain ⟨hb, hbuffer, hout⟩ := h.fits (by
      by_contra hgt
      have := h.full (by omega)
      omega)
    have hwrite : writeSlice s.out s.buffer (rest.take k) =
        .ok ((u ++ rest.take k).map some ++ blank (n - (u.length + k))) := by
      rw [hout, writeSlice_append (by rw [List.length_map, hbuffer])
        (by rw [length_blank, hk]; omega), hk, blank, List.drop_replicate, List.map_append,
        List.append_assoc, Nat.sub_sub]
      rfl
    rw [if_pos hroom, hread]
    simp only [checked_bind_ok, hwrite, hbuf, hint]
    refine ⟨_, rfl, h.grow ?_ (fun _ => ⟨?_, ?_, ?_⟩) fun hgt => ?_, hahead.src, hahead.srcsz⟩
    · rw [hk]
    · rw [hk]
    · rw [hk]
    · rw [hk]
    · rw [hk] at hgt
      omega
  · rw [if_neg hroom]
    simp only [checked_bind_ok, hbuf, hint]
    refine ⟨_, rfl, h.grow ?_ (fun hle => ?_) fun _ => ⟨?_, ?_⟩, hahead.src, hahead.srcsz⟩
    · rw [hk]
    · rw [hk] at hle
      have := (h.fits (by omega)).1
      omega
    · show s.bufsz - k ≤ 0
      omega
    · rw [hk]

/-- An FF block that brings the size to `2 ^ 31`. -/
theorem unpackFf_overflow (hn : n < 2 ^ 31) (ha : Ahead srcv (c :: rest) s) (h : Filled n u s)
    (hlen : (c.toNat + 1) * 8 ≤ rest.length) (hsize : 2 ^ 31 ≤ u.length + (c.toNat + 1) * 8) :
    unpackFf srcv s = .error (.fault .overflow) := by
  have hsz : s.srcsz = rest.length + 1 := ha.srcsz
  generalize hkdef : (c.toNat + 1) * 8 = k at hlen hsize
  have hroom : ¬ s.bufsz ≥ k := by
    intro hroom
    rcases Nat.lt_or_ge n u.length with hlt | hge
    · have := h.full hlt
      omega
    · have := (h.fits hge).1
      omega
  have hint : int (s.size + k) = .error (.fault .overflow) :=
    int_eq_overflow (by rw [h.size]; omega)
  unfold unpackFf
  rw [if_neg (by omega : ¬ s.srcsz < 0), ha.read]
  simp only [checked_bind_ok, checked_pure, hkdef]
  rw [if_neg (by omega : ¬ s.srcsz < k + 1), if_neg hroom]
  rcases int_ok_or (s.bufsz - k) with hbuf | hbuf
  · simp only [checked_bind_ok, hbuf, hint, checked_bind_error]
  · simp only [hbuf, checked_bind_error]

/-- An FF block with too few bytes. -/
theorem unpackFf_short (ha : Ahead srcv (c :: rest) s)
    (hlen : rest.length < (c.toNat + 1) * 8) : unpackFf srcv s = .error .fail := by
  have hsz : s.srcsz = rest.length + 1 := ha.srcsz
  generalize hkdef : (c.toNat + 1) * 8 = k at hlen
  unfold unpackFf
  rw [if_neg (by omega : ¬ s.srcsz < 0), ha.read]
  simp only [checked_bind_ok, checked_pure, hkdef]
  rw [if_pos (by omega : s.srcsz < k + 1)]
  rfl

/-- The count of an FF block is read behind the end of the stream. -/
theorem unpackFf_end (ha : Ahead srcv [] s) : unpackFf srcv s = .error (.fault .read) := by
  have hsz : s.srcsz = 0 := ha.srcsz
  unfold unpackFf
  rw [if_neg (by omega : ¬ s.srcsz < 0), ha.read_end]
  rfl

theorem unpackSeg_ff (ha : Ahead srcv (0xff :: rest) s) :
    unpackSeg srcv s = unpackFf srcv { s with srcsz := s.srcsz - 1, src := s.src + 1 } := by
  unfold unpackSeg
  rw [ha.read, checked_bind_ok]
  exact if_pos rfl

theorem unpackSeg_plain (ha : Ahead srcv (header :: rest) s) (hff : header ≠ 0xff) :
    unpackSeg srcv s = (List.range 8).foldlM (unpackByte srcv header)
      { s with srcsz := s.srcsz - 1, src := s.src + 1 } := by
  unfold unpackSeg
  rw [ha.read, checked_bind_ok]
  exact if_neg hff

/-- The loop body takes a whole segment, or the size gets too large for an int. -/
theorem unpackSeg_whole {v : List UInt8} (hn : n < 2 ^ 31) (ha : Ahead srcv b s)
    (h : Filled n u s) (hb : segment b = some (v, rest)) (hu : u.length < 2 ^ 31)
    (hmod : u.length % 8 = 0) :
    (u.length + v.length < 2 ^ 31 → ∃ s', unpackSeg srcv s = .ok s' ∧
      Filled n (u ++ v) s' ∧ Ahead srcv rest s') ∧
    (2 ^ 31 ≤ u.length + v.length → unpackSeg srcv s = .error (.fault .overflow)) := by
  cases b with
  | nil => cases hb
  | cons header l =>
    by_cases hff : header = 0xff
    · subst hff
      rw [unpackSeg_ff ha]
      cases l with
      | nil => cases hb
      | cons c l =>
        rw [segment_ff, Option.ite_none_left_eq_some] at hb
        obtain ⟨hlen, hb⟩ := hb
        cases hb
        have hk : (l.take ((c.toNat + 1) * 8)).length = (c.toNat + 1) * 8 := by
          rw [List.length_take]
          omega
        rw [hk]
        exact ⟨fun hsize => unpackFf_ok hn ha.skip (h.skip _ _) (by omega) hsize,
          fun hsize => unpackFf_overflow hn ha.skip (h.skip _ _) (by omega) hsize⟩
    · rw [unpackSeg_plain ha hff]
      rw [segment_plain hff, Option.ite_none_left_eq_some] at hb
      obtain ⟨hlen, hb⟩ := hb
      cases hb
      have hw : weight header (List.range 8) ≤ l.length := by omega
      rw [length_spread, List.length_range]
      refine ⟨fun hsize => unpackBytes_ok ha.skip (h.skip _ _) hw ?_, fun hsize => ?_⟩
      · rw [List.length_range]
        exact hsize
      · -- a multiple of 8: the size reaches `2 ^ 31` with the last byte
        rw [List.range_succ] at hw ⊢
        refine unpackBytes_overflow ha.skip (h.skip _ _) hw ?_
        rw [List.length_range]
        omega

/-- What the function does about a segment that is cut short depends on the room in the buffer:
`n` is the size of the buffer, `k` the number of bytes that are unpacked already. -/
def CutSafely (n k : ℕ) : List UInt8 → Prop
  | [] => True
  | header :: rest =>
    if header = 0xff then rest ≠ []
    else rest.length + 2 ≤ weight header (List.range 8) ∧
      n ≤ k + missing header (List.range 8) rest.length

theorem cutSafely_ff (n k : ℕ) (rest : List UInt8) :
    CutSafely n k (0xff :: rest) ↔ rest ≠ [] := by
  simp only [CutSafely, if_true]

theorem cutSafely_plain (n k : ℕ) (hff : header ≠ 0xff) (rest : List UInt8) :
    CutSafely n k (header :: rest) ↔ rest.length + 2 ≤ weight header (List.range 8) ∧
      n ≤ k + missing header (List.range 8) rest.length := by
  rw [CutSafely, if_neg hff]

/-- The loop body at a segment that is cut short: it returns -1 or stops at a fault, or it goes on
behind the end of the stream. -/
theorem unpackSeg_cut (ha : Ahead srcv b s) (h : Filled n u s) (hb : segment b = none)
    (hnil : b ≠ []) (hu : u.length < 2 ^ 31) (hmod : u.length % 8 = 0) :
    (unpackSeg srcv s = .error .fail ↔ CutSafely n u.length b) ∧
      ∀ s', unpackSeg srcv s = .ok s' → s'.srcsz = -1 := by
  cases b with
  | nil => exact absurd rfl hnil
  | cons header l =>
    by_cases hff : header = 0xff
    · subst hff
      rw [cutSafely_ff, unpackSeg_ff ha]
      cases l with
      | nil =>
        rw [unpackFf_end ha.skip]
        exact ⟨⟨fun he => (by cases he), fun hne => absurd rfl hne⟩, fun s' hs' => (by cases hs')⟩
      | cons c l =>
        rw [segment_ff, ite_eq_left_iff] at hb
        have hlen : l.length < (c.toNat + 1) * 8 := by
          by_contra hge
          cases hb hge
        rw [unpackFf_short ha.skip hlen]
        exact ⟨⟨fun _ => List.cons_ne_nil _ _, fun _ => rfl⟩, fun s' hs' => (by cases hs')⟩
    · rw [cutSafely_plain n _ hff, unpackSeg_plain ha hff]
      rw [segment_plain hff, ite_eq_left_iff] at hb
      have hlen : l.length < weight header (List.range 8) := by
        by_contra hge
        cases hb hge
      exact unpackBytes_short ha.skip (h.skip _ _) hlen (by rw [List.length_range]; omega)

/-! ## The loop -/

theorem unpackLoop_succ (hpos : s.srcsz > 0) (fuel : ℕ) :
    unpackLoop srcv (fuel + 1) s = (unpackSeg srcv s >>= unpackLoop srcv fuel) := by
  rw [unpackLoop, if_pos hpos]

theorem unpackLoop_stop (hstop : ¬ s.srcsz > 0) (fuel : ℕ) :
    unpackLoop srcv fuel s = .ok (s.size, s.out) := by
  cases fuel <;> rw [unpackLoop, if_neg hstop, checked_pure]

/-- The loop from segment to segment. -/
theorem unpackLoop_whole (hn : n < 2 ^ 31) (b : List UInt8) {u : List UInt8} {s : UnpackState}
    {fuel : ℕ} (ha : Ahead srcv b s) (h : Filled n u s) (hu : u.length < 2 ^ 31)
    (hmod : u.length % 8 = 0) (hfuel : b.length ≤ fuel) :
    (u.length + (whole b).1.length < 2 ^ 31 → ∃ s' fuel',
      unpackLoop srcv fuel s = unpackLoop srcv fuel' s' ∧ Filled n (u ++ (whole b).1) s' ∧
      Ahead srcv (whole b).2 s' ∧ (whole b).2.length ≤ fuel') ∧
    (2 ^ 31 ≤ u.length + (whole b).1.length →
      unpackLoop srcv fuel s = .error (.fault .overflow)) := by
  induction b using stream_induction generalizing u s fuel with
  | stop b hb =>
    rw [whole_of_none hb]
    refine ⟨fun _ => ⟨s, fuel, rfl, ?_, ha, hfuel⟩, fun hsize => ?_⟩
    · rw [List.append_nil]
      exact h
    · rw [List.length_nil] at hsize
      omega
  | next b v rest hb ih =>
    obtain ⟨hshort, hvmod⟩ := segment_some hb
    have hpos : s.srcsz > 0 := by
      rw [ha.srcsz]
      omega
    obtain ⟨fuel, rfl⟩ := Nat.exists_eq_add_of_le' (by omega : 1 ≤ fuel)
    obtain ⟨hok, hover⟩ := unpackSeg_whole hn ha h hb hu hmod
    rw [whole_of_some hb, unpackLoop_succ hpos, List.length_append]
    by_cases hsize : u.length + v.length < 2 ^ 31
    · obtain ⟨s', hs', h', ha'⟩ := hok hsize
      have hlen : (u ++ v).length = u.length + v.length := List.length_append
      have hfuel' : rest.length ≤ fuel := by omega
      obtain ⟨hgo, hstop⟩ := ih ha' h' (by omega) (by omega) hfuel'
      rw [hs', checked_bind_ok, ← Nat.add_assoc, ← hlen, ← List.append_assoc]
      exact ⟨hgo, hstop⟩
    · rw [hover (by omega), checked_bind_error]
      exact ⟨fun hlt => by omega, fun _ => rfl⟩

/-- The stream ends within a segment. -/
def Truncated (b : List UInt8) : Prop := (whole b).2 ≠ []

/-- `sproto_unpack` of the stream `b` into a buffer of `n` bytes reads and writes only where it
may, returns -1 for a truncated stream, and the unpacked length for any other. -/
def UnpacksSafely (b : List UInt8) (n : ℕ) : Prop :=
  (Truncated b → sprotoUnpack b n = .error .fail) ∧
    (¬ Truncated b → ∃ out, sprotoUnpack b n = .ok (((whole b).1.length : ℤ), out))

theorem filled_start (b : List UInt8) (n : ℕ) : Filled n [] ⟨0, b.length, 0, n, 0, blank n⟩ := by
  refine ⟨rfl, fun _ => ⟨?_, rfl, rfl⟩, fun hlt => ?_⟩
  · show (n : ℤ) = n - ((0 : ℕ) : ℤ)
    omega
  · rw [List.length_nil] at hlt
    omega

/-- `sproto_unpack` is at the end of the whole segments, or the size does not fit an int. -/
theorem sprotoUnpack_whole (b : List UInt8) (hn : n < 2 ^ 31) :
    ((whole b).1.length < 2 ^ 31 → ∃ s' fuel', sprotoUnpack b n = unpackLoop b fuel' s' ∧
      Filled n (whole b).1 s' ∧ Ahead b (whole b).2 s' ∧ (whole b).2.length ≤ fuel') ∧
    (2 ^ 31 ≤ (whole b).1.length → sprotoUnpack b n = .error (.fault .overflow)) := by
  have := unpackLoop_whole hn b (s := ⟨0, b.length, 0, n, 0, blank n⟩) ⟨rfl, rfl⟩
    (filled_start b n) (by decide) rfl le_rfl
  rw [List.length_nil, Nat.zero_add, List.nil_append] at this
  exact this

/-- A stream of whole segments is unpacked into a buffer that is large enough. -/
theorem sprotoUnpack_ok {b u : List UInt8} (hb : whole b = (u, [])) (hn : n < 2 ^ 31)
    (hu : u.length ≤ n) :
    sprotoUnpack b n = .ok ((u.length : ℤ), u.map some ++ blank (n - u.length)) := by
  obtain ⟨s', fuel', hs', h, ha, -⟩ := (sprotoUnpack_whole b hn).1 (by
    rw [hb]
    exact lt_of_le_of_lt hu hn)
  rw [hb] at h ha
  have hsz : s'.srcsz = 0 := ha.srcsz
  rw [hs', unpackLoop_stop (by omega), h.size, (h.fits hu).2.2]

/-- `sproto_unpack` is safe exactly when the unpacked length fits an int, and the stream does not
end with a lone `0xff`, nor with a segment that has a single byte too few or one that is cut where
there is still room in the buffer. -/
theorem unpacksSafely_iff (b : List UInt8) (hn : n < 2 ^ 31) :
    UnpacksSafely b n ↔
      (whole b).1.length < 2 ^ 31 ∧ CutSafely n (whole b).1.length (whole b).2 := by
  obtain ⟨hgo, hover⟩ := sprotoUnpack_whole b hn
  unfold UnpacksSafely Truncated
  by_cases hsize : (whole b).1.length < 2 ^ 31
  · obtain ⟨s', fuel', hs', h, ha, hfuel⟩ := hgo hsize
    by_cases hnil : (whole b).2 = []
    · rw [hnil] at ha ⊢
      have hsz : s'.srcsz = 0 := ha.srcsz
      rw [hs', unpackLoop_stop (by omega), h.size]
      exact ⟨fun _ => ⟨hsize, trivial⟩, fun _ => ⟨fun hne => absurd rfl hne, fun _ => ⟨_, rfl⟩⟩⟩
    · have hpos : s'.srcsz > 0 := by
        have := List.length_pos_of_ne_nil hnil
        rw [ha.srcsz]
        omega
      have hlen := List.length_pos_of_ne_nil hnil
      obtain ⟨fuel, rfl⟩ := Nat.exists_eq_add_of_le' (by omega : 1 ≤ fuel')
      obtain ⟨hcut, hnext⟩ := unpackSeg_cut ha h (segment_whole b) hnil hsize (whole_mod b)
      -- where the loop goes on behind the stream, it returns a size
      have hfail : unpackLoop b (fuel + 1) s' = .error .fail ↔
          unpackSeg b s' = .error .fail := by
        rw [unpackLoop_succ hpos]
        cases hseg : unpackSeg b s' with
        | error e => rw [checked_bind_error, Except.error.injEq, Except.error.injEq]
        | ok t =>
          have := hnext t hseg
          rw [checked_bind_ok, unpackLoop_stop (by omega)]
          exact ⟨fun he => (by cases he), fun he => (by cases he)⟩
      rw [hs', hfail, hcut]
      exact ⟨fun hsafe => ⟨hsize, hsafe.1 hnil⟩,
        fun hsafe => ⟨fun _ => hsafe.2, fun hne => absurd hnil hne⟩⟩
  · rw [hover (by omega)]
    refine ⟨fun hsafe => ?_, fun hsafe => absurd hsafe.1 hsize⟩
    by_cases hnil : (whole b).2 = []
    · obtain ⟨out, hout⟩ := hsafe.2 fun hne => hne hnil
      cases hout
    · cases hsafe.1 hnil

/-- The stream `0x01` ends in front of its only byte: `sproto_unpack` reads behind the stream, or
returns 8 when the buffer has no room. -/
theorem unpack_one_short : sprotoUnpack [1] 8 = .error (.fault .read) ∧
    sprotoUnpack [1] 0 = .ok (8, []) ∧ ¬ UnpacksSafely [1] 8 ∧ ¬ UnpacksSafely [1] 0 := by
  have hread : sprotoUnpack [1] 8 = .error (.fault .read) := by decide +kernel
  have hskip : sprotoUnpack [1] 0 = .ok (8, []) := by decide +kernel
  have htrunc : Truncated [1] := by
    rw [Truncated, whole_of_none (by decide)]
    exact List.cons_ne_nil _ _
  refine ⟨hread, hskip, fun h => ?_, fun h => ?_⟩
  · cases hread.symm.trans (h.1 htrunc)
  · cases hskip.symm.trans (h.1 htrunc)

theorem unpacksSafely_one : UnpacksSafely [1, 7] 8 := by
  have hwhole : whole [1, 7] = ([7, 0, 0, 0, 0, 0, 0, 0], []) := by decide +kernel
  refine (unpacksSafely_iff [1, 7] (by decide)).mpr ?_
  rw [hwhole]
  exact ⟨by decide, trivial⟩

end

end SkynetEureka.Sproto
