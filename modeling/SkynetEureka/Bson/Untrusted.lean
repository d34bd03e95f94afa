import SkynetEureka.Bson.Decode

/-!
# Decoding of untrusted bytes

A reader stays inside of the document, also when a negative length takes it back, since it goes back
no further than to the length. What goes wrong is a copy of a negative length, and the last byte of
a document whose length is negative (`BadLength`); `decode_contained` says that nothing else does.
-/

namespace SkynetEureka.Bson

open Lib

/-- The bytes of the reader are in the document. -/
structure Reader.Inside (doc : List UInt8) (t : Reader) : Prop where
  ptr : 0 ≤ t.ptr
  size : 0 ≤ t.size
  fits : t.ptr + t.size ≤ doc.length

/-- A reading raises, or ends with `P`. -/
def Ends {α : Type} (r : Except Stop (α × Reader)) (P : α → Reader → Prop) : Prop :=
  (∃ e, r = .error (.raise e)) ∨ ∃ a t, r = .ok (a, t) ∧ P a t

variable {doc : List UInt8} {α β : Type} {t : Reader}

/-! ## Rules -/

theorem Ends.pure {a : α} {P : α → Reader → Prop} (h : P a t) : Ends ((Pure.pure a : Read α) t) P :=
  .inr ⟨a, t, rfl, h⟩

theorem Ends.raise {e : Raise} {P : α → Reader → Prop} :
    Ends ((throw (.raise e) : Read α) t) P := .inl ⟨e, rfl⟩

theorem Ends.mono {r : Except Stop (α × Reader)} {P Q : α → Reader → Prop} (h : Ends r P)
    (hpq : ∀ a t, P a t → Q a t) : Ends r Q := by
  rcases h with h | ⟨a, t, heq, hp⟩
  · exact .inl h
  · exact .inr ⟨a, t, heq, hpq a t hp⟩

theorem read_bind_of_ok {m : Read α} {f : α → Read β} {a : α} {t' : Reader}
    (h : m t = .ok (a, t')) : (m >>= f) t = f a t' := by
  show (m t >>= fun p => f p.1 p.2) = f a t'
  rw [h]
  rfl

theorem read_bind_of_error {m : Read α} {f : α → Read β} {e : Stop} (h : m t = .error e) :
    (m >>= f) t = .error e := by
  show (m t >>= fun p => f p.1 p.2) = .error e
  rw [h]
  rfl

theorem Ends.bind {m : Read α} {f : α → Read β} {P : α → Reader → Prop} {Q : β → Reader → Prop}
    (hm : Ends (m t) P) (hf : ∀ a t', m t = .ok (a, t') → P a t' → Ends (f a t') Q) :
    Ends ((m >>= f) t) Q := by
  rcases hm with ⟨e, he⟩ | ⟨a, t', heq, hp⟩
  · exact .inl ⟨e, read_bind_of_error he⟩
  · rw [read_bind_of_ok heq]
    exact hf a t' heq hp

/-! ## The readers -/

theorem load_inside {ptr len : ℤ} (hlen : 0 ≤ len) (hptr : 0 ≤ ptr)
    (hfits : ptr + len ≤ doc.length) : ∃ bytes, load doc ptr len = .ok bytes := by
  unfold load
  rw [if_neg (not_lt.mpr hlen), if_pos ⟨hptr, hfits⟩]
  exact ⟨_, rfl⟩

/-- The reader is `n` bytes further. -/
def Reader.Skipped (t : Reader) (n : ℤ) (t' : Reader) : Prop :=
  t'.ptr = t.ptr + n ∧ t'.size = t.size - n

theorem Reader.skip_skipped {n : ℤ} (h : -2 ^ 31 ≤ t.size - n) (h' : t.size - n < 2 ^ 31) :
    t.Skipped n (t.skip n) := ⟨rfl, wrap_of_range h h'⟩

theorem Reader.Inside.skipped {t' : Reader} (h : t.Inside doc) {n : ℤ} (hs : t.Skipped n t')
    (hn : 0 ≤ t.ptr + n) (hle : n ≤ t.size) : t'.Inside doc := by
  obtain ⟨hptr, hsize⟩ := hs
  have := h.fits
  exact ⟨by omega, by omega, by omega⟩

variable (hdoc : doc.length < 2 ^ 31) (h : t.Inside doc)

include hdoc h

theorem readNumber_ends (k : ℕ) : Ends (readNumber doc k t) fun _ t' =>
    (k : ℤ) ≤ t.size ∧ t.Skipped k t' := by
  have hptr := h.ptr
  have hsize := h.size
  have hfits := h.fits
  unfold readNumber
  split_ifs with hlt
  · exact .inl ⟨_, rfl⟩
  · obtain ⟨bytes, hload⟩ : ∃ bytes, load doc t.ptr k = .ok bytes :=
      load_inside (Int.natCast_nonneg k) hptr (by omega)
    rw [hload]
    refine .inr ⟨_, _, rfl, by omega, Reader.skip_skipped ?_ ?_⟩
    · omega
    · omega

theorem readByte_ends : Ends (readByte doc t) fun _ t' => 1 ≤ t.size ∧ t.Skipped 1 t' :=
  (readNumber_ends hdoc h 1).bind fun _ _ _ hp => .pure hp

theorem readInt32_ends : Ends (readInt32 doc t) fun sz t' =>
    (-2 ^ 31 ≤ sz ∧ sz < 2 ^ 31) ∧ 4 ≤ t.size ∧ t.Skipped 4 t' :=
  (readNumber_ends hdoc h 4).bind fun n _ _ hp => .pure ⟨wrap_range n, hp⟩

omit hdoc h in
theorem readBytes_ends (sz : ℤ) : Ends (readBytes sz t) fun ptr t' =>
    ptr = t.ptr ∧ sz ≤ t.size ∧ t' = t.skip sz := by
  unfold readBytes
  split_ifs with hlt
  · exact .inl ⟨_, rfl⟩
  · exact .inr ⟨_, _, rfl, rfl, not_lt.mp hlt, rfl⟩

omit hdoc in
/-- The scan for the end of a name. -/
theorem cstringLength_ends (n : ℕ) : ∀ i : ℕ, (n : ℤ) + i = t.size →
    (∃ e, cstringLength doc t.ptr n i = .error (.raise e)) ∨
      ∃ sz : ℕ, cstringLength doc t.ptr n i = .ok sz ∧ (sz : ℤ) + 1 ≤ t.size := by
  have hptr := h.ptr
  have hfits := h.fits
  induction n with
  | zero => exact fun i _ => .inl ⟨_, rfl⟩
  | succ n ih =>
    intro i hi
    obtain ⟨bytes, hload⟩ : ∃ bytes, load doc (t.ptr + i) 1 = .ok bytes :=
      load_inside Int.one_nonneg (by omega) (by push_cast at hi; omega)
    unfold cstringLength
    rw [hload, except_ok_bind]
    split_ifs
    · exact .inr ⟨i, rfl, by push_cast at hi; omega⟩
    · exact ih (i + 1) (by push_cast at hi ⊢; omega)

theorem readCstring_ends : Ends (readCstring doc t) fun _ t' =>
    ∃ sz : ℕ, (sz : ℤ) + 1 ≤ t.size ∧ t.Skipped (sz + 1) t' := by
  have hptr := h.ptr
  have hsize := h.size
  have hfits := h.fits
  unfold readCstring
  rcases cstringLength_ends h t.size.toNat 0 (by omega) with ⟨e, he⟩ | ⟨sz, hsz, hle⟩
  · rw [he]
    exact .inl ⟨e, rfl⟩
  · obtain ⟨bytes, hload⟩ : ∃ bytes, load doc t.ptr sz = .ok bytes :=
      load_inside (Int.natCast_nonneg sz) hptr (by omega)
    rw [hsz, except_ok_bind, hload, except_ok_bind]
    exact .inr ⟨_, _, rfl, sz, hle, Reader.skip_skipped (by omega) (by omega)⟩

omit hdoc h in
theorem here_ends : Ends (here t) fun ptr t' => ptr = t.ptr ∧ t' = t := .inr ⟨_, _, rfl, rfl, rfl⟩

omit hdoc h in
theorem copyObject_ends (tag : Tag) {ptr len : ℤ} (hlen : 0 ≤ len) (hptr : 0 ≤ ptr)
    (hfits : ptr + len ≤ doc.length) : Ends (copyObject doc tag ptr len t) fun _ t' => t' = t := by
  obtain ⟨bytes, hload⟩ := load_inside hlen hptr hfits
  unfold copyObject
  rw [hload, except_ok_bind]
  exact .inr ⟨_, _, rfl, rfl⟩

/-! ## The values -/

/-- What the length of a field must not be; the reader is behind the length. -/
def BadLength (tag : Tag) (t : Reader) (sz : ℤ) : Prop :=
  match tag with
  | .binary => 1 ≤ t.size ∧ sz < 0
  | .dbpointer => wrap (sz + 12) ≤ t.size ∧ wrap (sz + 16) < 0
  | .jscode | .symbol => sz < -4
  | .codews => wrap (sz - 4) ≤ t.size ∧ sz < 0
  -- the last byte of the document is before the buffer
  | .document | .array =>
    wrap (sz - 5) ≤ t.size ∧ 1 ≤ wrap (t.size - wrap (sz - 5)) ∧ t.ptr + wrap (sz - 5) < 0
  | _ => False

/-- The lengths at the reader are right. -/
def RightLength (doc : List UInt8) (tag : Tag) (t : Reader) : Prop :=
  ∀ sz t', readInt32 doc t = .ok (sz, t') → ¬ BadLength tag t' sz

/-- The reader goes on, and stays inside. -/
def Advances (doc : List UInt8) (t t' : Reader) : Prop := t'.Inside doc ∧ t'.size ≤ t.size

omit hdoc in
theorem Reader.Inside.advances {t' : Reader} {n : ℤ} (hs : t.Skipped n t') (hn : 0 ≤ n)
    (hle : n ≤ t.size) : Advances doc t t' := by
  have hptr := h.ptr
  refine ⟨h.skipped hs (by omega) hle, ?_⟩
  rw [hs.2]
  omega

omit hdoc h in
theorem Advances.trans {t' t'' : Reader} (h : Advances doc t t') (h' : Advances doc t' t'') :
    Advances doc t t'' := ⟨h'.1, h'.2.trans h.2⟩

omit hdoc h in
/-- Bytes of the document are taken into a string. -/
theorem load_ends {ptr len : ℤ} (hlen : 0 ≤ len) (hptr : 0 ≤ ptr)
    (hfits : ptr + len ≤ doc.length) (f : List UInt8 → Value) :
    Ends ((do let bytes ← load doc ptr len; return f bytes : Read Value) t) fun _ t' => t' = t := by
  obtain ⟨bytes, hload⟩ := load_inside hlen hptr hfits
  have hlift : (liftM (load doc ptr len) : Read (List UInt8)) t = .ok (bytes, t) := by
    show (load doc ptr len >>= fun a => Except.ok (a, t)) = _
    rw [hload]
    rfl
  rw [read_bind_of_ok hlift]
  exact .pure rfl

/-- Bytes are passed, and copied with the four bytes of their length. -/
theorem copyLength_ends (tag : Tag) {t' : Reader} (hs : t.Skipped 4 t') (hle : 4 ≤ t.size)
    {w len : ℤ} (hw : w ≤ t'.size → -4 ≤ w ∧ len = w + 4) :
    Ends ((do let _ ← readBytes w; copyObject doc tag t.ptr len : Read Value) t') fun _ t'' =>
      Advances doc t t'' := by
  have hptr := h.ptr
  have hfits := h.fits
  obtain ⟨hptr', hsize'⟩ := hs
  refine (readBytes_ends w).bind fun _ t'' _ hp => ?_
  obtain ⟨-, hwle, rfl⟩ := hp
  obtain ⟨hlow, rfl⟩ := hw hwle
  have hskip : t'.Skipped w (t'.skip w) := Reader.skip_skipped (by omega) (by omega)
  have hinside : (t'.skip w).Inside doc :=
    (h.skipped ⟨hptr', hsize'⟩ (by omega) hle).skipped hskip (by omega) hwle
  refine (copyObject_ends tag (by omega) hptr (by omega)).mono fun _ t'' heq => ?_
  rw [heq]
  refine ⟨hinside, ?_⟩
  rw [hskip.2]
  omega

theorem readSimple_ends {tag : Tag} (htag : tag.nested = none) (hright : RightLength doc tag t) :
    Ends (readSimple doc tag t) fun _ t' => Advances doc t t' := by
  have hptr := h.ptr
  have hfits := h.fits
  have hnumber : ∀ (k : ℕ) (f : ℕ → Value), Ends ((do let n ← readNumber doc k; return f n) t)
      fun _ t' => Advances doc t t' := fun k f =>
    (readNumber_ends hdoc h k).bind fun n t' _ hp =>
      .pure (h.advances hp.2 (Int.natCast_nonneg k) hp.1)
  cases tag with
  | real => exact hnumber 8 _
  | boolean =>
    exact (readByte_ends hdoc h).bind fun b t' _ hp => .pure (h.advances hp.2 Int.one_nonneg hp.1)
  | string =>
    refine (readInt32_ends hdoc h).bind fun sz t₁ _ hp => ?_
    obtain ⟨hrange, hle, hs⟩ := hp
    have h₁ := h.skipped hs (by omega) hle
    have hptr₁ := h₁.ptr
    have hsize₁ := h₁.size
    have hfits₁ := h₁.fits
    split_ifs with hsz
    · exact .inl ⟨_, rfl⟩
    · refine (readBytes_ends sz).bind fun ptr t₂ _ hp => ?_
      obtain ⟨rfl, hszle, rfl⟩ := hp
      have hskip : t₁.Skipped sz (t₁.skip sz) := Reader.skip_skipped (by omega) (by omega)
      refine (load_ends (by omega) h₁.ptr (by omega) _).mono fun _ t'' heq => ?_
      rw [heq]
      exact (h.advances hs (by omega) hle).trans (h₁.advances hskip (by omega) hszle)
  | binary =>
    refine (readInt32_ends hdoc h).bind fun sz t₁ hread hp => ?_
    obtain ⟨hrange, hle, hs⟩ := hp
    have h₁ := h.skipped hs (by omega) hle
    refine (readByte_ends hdoc h₁).bind fun subtype t₂ _ hp => ?_
    have hsz : 0 ≤ sz := by
      by_contra hneg
      exact hright sz t₁ hread ⟨hp.1, not_le.mp hneg⟩
    have hone := h₁.advances hp.2 Int.one_nonneg hp.1
    have h₂ := hone.1
    have hptr₂ := h₂.ptr
    have hsize₂ := h₂.size
    have hfits₂ := h₂.fits
    refine (readBytes_ends sz).bind fun ptr t₃ _ hp => ?_
    obtain ⟨rfl, hszle, rfl⟩ := hp
    have hskip : t₂.Skipped sz (t₂.skip sz) := Reader.skip_skipped (by omega) (by omega)
    refine (load_ends hsz h₂.ptr (by omega) _).mono fun _ t'' heq => ?_
    rw [heq]
    exact ((h.advances hs (by omega) hle).trans hone).trans (h₂.advances hskip hsz hszle)
  | objectid =>
    refine (readBytes_ends 12).bind fun ptr t₁ _ hp => ?_
    obtain ⟨rfl, hle, rfl⟩ := hp
    have hskip : t.Skipped 12 (t.skip 12) := Reader.skip_skipped (by omega) (by omega)
    refine (copyObject_ends _ (by omega) hptr (by omega)).mono fun _ t'' heq => ?_
    rw [heq]
    exact h.advances hskip (by omega) hle
  | date => exact hnumber 8 _
  | null => exact .pure ⟨h, le_rfl⟩
  | regex =>
    refine (readCstring_ends hdoc h).bind fun r1 t₁ _ hp => ?_
    obtain ⟨sz₁, hle₁, hs₁⟩ := hp
    have hone := h.advances hs₁ (by omega) hle₁
    refine (readCstring_ends hdoc hone.1).bind fun r2 t₂ _ hp => ?_
    obtain ⟨sz₂, hle₂, hs₂⟩ := hp
    exact .pure (hone.trans (hone.1.advances hs₂ (by omega) hle₂))
  | dbpointer =>
    refine here_ends.bind fun ptr t₀ _ hp => ?_
    obtain ⟨rfl, rfl⟩ := hp
    refine (readInt32_ends hdoc h).bind fun sz t₁ hread hp => ?_
    obtain ⟨hrange, hle, hs⟩ := hp
    refine copyLength_ends hdoc h _ hs hle fun hw => ?_
    have hbad := hright sz t₁ hread
    have hlen : 0 ≤ wrap (sz + 16) := by
      by_contra hneg
      exact hbad ⟨hw, not_le.mp hneg⟩
    -- the C sum has not gone over: its result would be negative
    by_cases hlt : sz + 16 < 2 ^ 31
    · rw [wrap_of_range (by omega) hlt] at hlen ⊢
      rw [wrap_of_range (by omega) (by omega)]
      omega
    · have hover : wrap (sz + 16) = sz + 16 - 2 ^ 32 := wrap_of_over (by omega) (by omega)
      omega
  | jscode =>
    refine here_ends.bind fun ptr t₀ _ hp => ?_
    obtain ⟨rfl, rfl⟩ := hp
    refine (readInt32_ends hdoc h).bind fun sz t₁ hread hp => ?_
    obtain ⟨hrange, hle, hs⟩ := hp
    refine copyLength_ends hdoc h _ hs hle fun hw => ?_
    have hlow : -4 ≤ sz := not_lt.mp (hright sz t₁ hread)
    have hsize := hs.2
    exact ⟨hlow, wrap_of_range (by omega) (by omega)⟩
  | symbol =>
    refine here_ends.bind fun ptr t₀ _ hp => ?_
    obtain ⟨rfl, rfl⟩ := hp
    refine (readInt32_ends hdoc h).bind fun sz t₁ hread hp => ?_
    obtain ⟨hrange, hle, hs⟩ := hp
    refine copyLength_ends hdoc h _ hs hle fun hw => ?_
    have hlow : -4 ≤ sz := not_lt.mp (hright sz t₁ hread)
    have hsize := hs.2
    exact ⟨hlow, wrap_of_range (by omega) (by omega)⟩
  | codews =>
    refine here_ends.bind fun ptr t₀ _ hp => ?_
    obtain ⟨rfl, rfl⟩ := hp
    refine (readInt32_ends hdoc h).bind fun sz t₁ hread hp => ?_
    obtain ⟨hrange, hle, hs⟩ := hp
    refine copyLength_ends hdoc h _ hs hle fun hw => ?_
    have hlow : 0 ≤ sz := by
      by_contra hneg
      exact hright sz t₁ hread ⟨hw, not_le.mp hneg⟩
    rw [wrap_of_range (by omega) (by omega)]
    omega
  | int32 =>
    exact (readInt32_ends hdoc h).bind fun b t' _ hp => .pure (h.advances hp.2.2 (by omega) hp.2.1)
  | timestamp =>
    refine (readNumber_ends hdoc h 4).bind fun inc t₁ _ hp => ?_
    have hone := h.advances hp.2 (by omega) hp.1
    refine (readNumber_ends hdoc hone.1 4).bind fun ts t₂ _ hp => ?_
    exact .pure (hone.trans (hone.1.advances hp.2 (by omega) hp.1))
  | int64 => exact hnumber 8 _
  | minkey => exact .pure ⟨h, le_rfl⟩
  | maxkey => exact .pure ⟨h, le_rfl⟩
  | document => cases htag
  | array => cases htag

end SkynetEureka.Bson
