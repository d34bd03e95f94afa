import SkynetEureka.Sproto.Encoding

/-!
# Messages of sproto round-trip

`hears` is the callback of `sproto_decode` that writes down what it gets. For the bytes of any run of
`sproto_encode`, this is what the callback of `sproto_encode` has answered (`decode_encode`).
-/

namespace SkynetEureka.Sproto

open Lib

/-- The value of a call, read from the bytes that are decoded. -/
def SprotoArg.content (data : List UInt8) (args : SprotoArg) : Content :=
  match args.value with
  | .null => .empty
  | .word v => .number v
  | .data offset => .bytes ((data.drop offset).take args.length.toNat)

/-- A callback that writes down its calls. -/
def hears (data : List UInt8) : Callback (List Heard) := fun args calls =>
  .ok (0, calls ++ [args.heardAt args.index (args.content data)])

section

variable {data rest : List UInt8} {off index n : ℕ} {args : SprotoArg} {calls : List Heard}
  {l : List UInt8} {ls : List (List UInt8)}

@[simp] theorem call_hears_word (v : UInt64) (i : ℤ) :
    call (hears data) (args.withWord v i) calls = .ok (calls ++ [args.heardAt i (.number v)]) := rfl

theorem callChecked_hears_data (i : ℤ) (h : data.drop off = l ++ rest) :
    callChecked (hears data) (args.withData off l.length i) calls =
      .ok (calls ++ [args.heardAt i (.bytes l)]) := by
  have hcontent : (args.withData off l.length i).content data = .bytes l := by
    show Content.bytes ((data.drop off).take (l.length : ℤ).toNat) = _
    rw [h, Int.toNat_natCast, List.take_left]
  rw [callChecked, hears, hcontent]
  rfl

/-! ## Reads -/

theorem drop_add_length (h : data.drop off = l ++ rest) : data.drop (off + l.length) = rest := by
  rw [← List.drop_drop, h, List.drop_left]

theorem todword_leBytes (h : data.drop off = leBytes 4 n ++ rest) : todword data off = .ok (n % 2 ^ 32) := by
  rw [todword_eq h (by simp), dword, List.take_append_of_le_length (by simp), List.take_of_length_le (by simp),
    ofLeBytes_leBytes]
  norm_num

theorem toword_leBytes (h : data.drop off = leBytes 2 n ++ rest) (hn : n < 2 ^ 16) :
    toword data off = .ok n := by
  have hlen : off + 2 ≤ data.length := by
    have := congrArg List.length h
    rw [List.length_drop, List.length_append, length_leBytes] at this
    omega
  rw [toword_eq hlen, h, List.take_append_of_le_length (by simp), List.take_of_length_le (by simp),
    ofLeBytes_leBytes_of_lt (by norm_num; exact hn)]

/-- The length of bytes and the bytes behind it. -/
theorem todword_fillSize (h : data.drop off = fillSize l ++ rest) (hlen : data.length < 2 ^ 31) :
    todword data off = .ok l.length ∧ data.drop (off + 4) = l ++ rest ∧ l.length < 2 ^ 31 := by
  rw [fillSize, List.append_assoc] at h
  have hlt := congrArg List.length h
  simp only [List.length_drop, List.length_append, length_leBytes] at hlt
  refine ⟨by rw [todword_leBytes h, Nat.mod_eq_of_lt (by omega)], ?_, by omega⟩
  have := drop_add_length h
  rwa [length_leBytes] at this

/-- Eight bytes are two numbers of four bytes. -/
theorem readInt64_two {low hi : ℕ} (h : data.drop off = leBytes 4 low ++ leBytes 4 hi ++ rest) :
    readInt64 data off = .ok (UInt64.ofNat (low % 2 ^ 32 + hi % 2 ^ 32 * 2 ^ 32)) := by
  rw [List.append_assoc] at h
  have hnext := drop_add_length h
  rw [length_leBytes] at hnext
  rw [readInt64, todword_leBytes h, checked_bind_ok, todword_leBytes hnext, checked_bind_ok]

theorem signBytes_eq (v : ℕ) : signBytes v = leBytes 4 (if v < 2 ^ 31 then 0 else 2 ^ 32 - 1) := by
  unfold signBytes
  split_ifs <;> rfl

/-- An integer in an array of 64 bit integers is read with its sign. -/
theorem readInt64_wide (h : data.drop off = wide l ++ rest) (hl : l.length = 4 ∨ l.length = 8) :
    readInt64 data off =
      .ok (if l.length = 4 then expand64 (ofLeBytes l) else UInt64.ofNat (ofLeBytes l)) := by
  have hlt := ofLeBytes_lt l
  unfold wide narrow at h
  by_cases hfour : l.length = 4
  · rw [hfour] at hlt
    rw [if_pos hfour, signBytes_eq] at h
    rw [readInt64_two h, if_pos hfour, expand64]
    congr 2
    split_ifs <;> omega
  · have height : l.length = 8 := by omega
    rw [height] at hlt
    rw [if_neg hfour, leBytes_add 4 4] at h
    rw [readInt64_two h, if_neg hfour]
    congr 2
    omega

/-! ## Arrays -/

/-- A loop over elements of `w` bytes each. -/
theorem times_elements (enc : List UInt8 → List UInt8) {w : ℕ} {body : ℕ → List Heard → Checked (List Heard)}
    (hw : ∀ l, (enc l).length = w)
    (hbody : ∀ i l rest calls, l ∈ ls → data.drop (off + i * w) = enc l ++ rest →
      body i calls = .ok (calls ++ [args.heardAt (i + 1 : ℕ) (.of args.type l)]))
    (h : data.drop (off + index * w) = ls.flatMap enc ++ rest) :
    times body ls.length index calls = .ok (calls ++ args.elements (index + 1) ls) := by
  induction ls generalizing index calls with
  | nil => simp [times, SprotoArg.elements]
  | cons l ls ih =>
    rw [List.flatMap_cons, List.append_assoc] at h
    have hnext := drop_add_length h
    rw [hw, Nat.add_assoc, ← Nat.succ_mul] at hnext
    rw [List.length_cons, times_succ, hbody index l _ calls (by simp) h, checked_bind_ok,
      ih (fun i l' rest calls hl' => hbody i l' rest calls (by simp [hl'])) hnext, SprotoArg.elements,
      List.append_assoc, List.singleton_append]

/-- The objects of an array, one after the other. -/
theorem decodeArrayObject_heard {fuel : ℕ} (index : ℕ) (htype : ∀ l, Content.of args.type l = .bytes l)
    (hlen : data.length < 2 ^ 31) (h : data.drop off = ls.flatMap fillSize ++ rest)
    (hfuel : (ls.flatMap fillSize).length ≤ fuel) :
    decodeArrayObject (hears data) args data fuel off (ls.flatMap fillSize).length index calls =
      .ok (calls ++ args.elements index ls) := by
  induction ls generalizing off index fuel calls with
  | nil => simp [decodeArrayObject_done, SprotoArg.elements]
  | cons l ls ih =>
    rw [List.flatMap_cons, List.append_assoc] at h
    obtain ⟨hsz, hdrop, hlt⟩ := todword_fillSize h hlen
    have hnext := drop_add_length h
    rw [List.flatMap_cons, List.length_append, length_fillSize] at hfuel ⊢
    obtain ⟨fuel, rfl⟩ : ∃ k, fuel = k + 1 := ⟨fuel - 1, by omega⟩
    rw [decodeArrayObject_next (by push_cast; omega), if_neg (by push_cast; omega), hsz, checked_bind_ok,
      if_neg (by push_cast; omega), toInt32_eq hlt]
    have hcall : callChecked (hears data) (args.withData (off + 4) l.length index) calls =
        .ok (calls ++ [args.heardAt index (.bytes l)]) := callChecked_hears_data index hdrop
    rw [hcall, checked_bind_ok]
    have hsize : ((l.length + 4 + (ls.flatMap fillSize).length : ℕ) : ℤ) - 4 - l.length =
        (ls.flatMap fillSize).length := by push_cast; ring
    have hoff : off + 4 + l.length = off + (fillSize l).length := by rw [length_fillSize]; omega
    have hindex : (index : ℤ) + 1 = (index + 1 : ℕ) := by push_cast; rfl
    rw [hsize, hoff, hindex, ih (index + 1) hnext (by omega), SprotoArg.elements, htype, List.append_assoc,
      List.singleton_append]

theorem decodeInt32_heard (htype : args.type = .tinteger) (hl : l.length = 4) {i : ℕ}
    (h : data.drop (off + i * 4) = narrow l ++ rest) :
    decodeInt32 (hears data) args data off i calls =
      .ok (calls ++ [args.heardAt (i + 1 : ℕ) (.of args.type l)]) := by
  have hlt := ofLeBytes_lt l
  rw [hl] at hlt
  rw [decodeInt32, todword_leBytes h, Nat.mod_eq_of_lt (by omega), checked_bind_ok, call_hears_word, htype,
    Content.of, if_pos hl]
  rfl

theorem decodeInt64_heard (htype : args.type = .tinteger) (hl : l.length = 4 ∨ l.length = 8) {i : ℕ}
    (h : data.drop (off + i * 8) = wide l ++ rest) :
    decodeInt64 (hears data) args data off i calls =
      .ok (calls ++ [args.heardAt (i + 1 : ℕ) (.of args.type l)]) := by
  rw [decodeInt64, readInt64_wide h hl, checked_bind_ok, call_hears_word, htype]
  rfl

theorem decodeBoolean_heard (htype : args.type = .tboolean) {i : ℕ}
    (h : data.drop (off + i * 1) = boolByte l ++ rest) :
    decodeBoolean (hears data) args data off i calls =
      .ok (calls ++ [args.heardAt (i + 1 : ℕ) (.of args.type l)]) := by
  rw [Nat.mul_one] at h
  rw [decodeBoolean, readAt_of_drop h, checked_bind_ok, call_hears_word, htype, Content.of]
  split_ifs <;> rfl

/-- No bytes are no elements. -/
theorem ArrayBytes.eq_nil_iff {type : FieldType} {c : List UInt8} (h : ArrayBytes type ls c) :
    c = [] ↔ ls = [] := by
  have hobjects : c = ls.flatMap fillSize → (c = [] ↔ ls = []) := by
    rintro rfl
    cases ls <;> simp [fillSize_ne_nil]
  cases type with
  | tinteger => rcases h with ⟨rfl, rfl⟩ | ⟨hls, ⟨rfl, -⟩ | ⟨rfl, -⟩⟩ <;> simp [*]
  | tboolean =>
    obtain rfl : c = ls.flatMap boolByte := h
    cases ls <;> simp [boolByte]
  | _ => exact hobjects h

/-- `decode_array` reads what `encode_array` has written. -/
theorem decodeArray_heard {c : List UInt8} (hlen : data.length < 2 ^ 31) (hbytes : ArrayBytes args.type ls c)
    (h : data.drop off = fillSize c ++ rest) :
    decodeArray (hears data) args data off calls = .ok (calls ++ args.heardArray 1 ls) := by
  obtain ⟨hsz, hdrop, hlt⟩ := todword_fillSize h hlen
  rw [decodeArray, hsz, checked_bind_ok, SprotoArg.heardArray]
  by_cases hnil : ls = []
  · have hzero : c.length = 0 := by rw [hbytes.eq_nil_iff.mpr hnil, List.length_nil]
    rw [if_pos hzero, if_pos ⟨rfl, hnil⟩]
    rfl
  · have hpos : c.length ≠ 0 := fun hzero => hnil (hbytes.eq_nil_iff.mp (List.length_eq_zero_iff.mp hzero))
    rw [if_neg hpos, if_neg (fun hand => hnil hand.2)]
    have hobjects : c = ls.flatMap fillSize → (∀ l, Content.of args.type l = .bytes l) →
        decodeArrayObject (hears data) args data (toInt32 c.length).toNat (off + 4) (toInt32 c.length) 1 calls =
          .ok (calls ++ args.elements 1 ls) := by
      rintro rfl hcontent
      rw [toInt32_eq hlt]
      exact decodeArrayObject_heard 1 hcontent hlen hdrop (Int.toNat_natCast _).ge
    cases htype : args.type with
    | tinteger =>
      rw [htype] at hbytes
      rcases hbytes with ⟨hls, -⟩ | ⟨-, hbytes⟩
      · exact absurd hls hnil
      · rcases hbytes with ⟨rfl, hfour⟩ | ⟨rfl, hlengths⟩
        · have hnext := drop_add_length (l := [4]) (by simpa using hdrop)
          have hcount : (4 :: ls.flatMap narrow).length - 1 = ls.length * 4 := by
            rw [List.length_cons, Nat.add_sub_cancel, length_flatMap_of_length length_narrow]
          simp only
          rw [readAt_of_drop (by simpa using hdrop), checked_bind_ok, if_pos rfl, hcount, if_neg (by simp),
            Nat.mul_div_cancel _ (by decide)]
          refine times_elements narrow length_narrow ?_ (by simpa using hnext)
          intro i l rest calls hl hdrop
          exact decodeInt32_heard htype (hfour l hl) hdrop
        · have hnext := drop_add_length (l := [8]) (by simpa using hdrop)
          have hcount : (8 :: ls.flatMap wide).length - 1 = ls.length * 8 := by
            rw [List.length_cons, Nat.add_sub_cancel, length_flatMap_of_length length_wide]
          simp only
          rw [readAt_of_drop (by simpa using hdrop), checked_bind_ok, if_neg (by decide), if_pos rfl, hcount,
            if_neg (by simp), Nat.mul_div_cancel _ (by decide)]
          refine times_elements wide length_wide ?_ (by simpa using hnext)
          intro i l rest calls hl hdrop
          exact decodeInt64_heard htype (hlengths l hl) hdrop
    | tboolean =>
      rw [htype] at hbytes
      obtain rfl : c = ls.flatMap boolByte := hbytes
      simp only
      rw [length_flatMap_of_length (w := 1) (fun l => rfl), Nat.mul_one]
      refine times_elements boolByte (w := 1) (fun l => rfl) ?_ (by simpa using hdrop)
      intro i l rest calls hl hdrop
      exact decodeBoolean_heard htype hdrop
    | _ =>
      rw [htype] at hbytes
      exact hobjects hbytes fun l => by rw [htype]; rfl

/-! ## Fields -/

variable {f : Field} {v : FieldBytes} {calls' : List Heard}

/-- What the data `d` of a field is read as. -/
def Reads (f : Field) (d : List UInt8) (calls : List Heard) : Prop :=
  ∀ data off rest before, data.length < 2 ^ 31 → data.drop off = d ++ rest →
    decodeData (hears data) f f.args data off before = .ok (before ++ calls)

theorem ArrayWritten.reads (harray : f.array = true) {d : List UInt8} (h : ArrayWritten f.args d calls)
    (hd : d ≠ []) : ∃ c, d = fillSize c ∧ Reads f d calls := by
  rcases h with ⟨hnil, -⟩ | ⟨ls, c, rfl, hbytes, rfl⟩
  · exact absurd hnil hd
  · refine ⟨c, rfl, ?_⟩
    intro data off rest before hlen h
    rw [decodeData, if_pos harray, decodeArray_heard hlen hbytes h]

theorem ObjectWritten.reads (harray : ¬ f.array = true) (htype : f.type = .tstring ∨ f.type = .tstruct)
    {d : List UInt8} (h : ObjectWritten f.args d calls) (hd : d ≠ []) : ∃ c, d = fillSize c ∧ Reads f d calls := by
  rcases h with ⟨hnil, -⟩ | ⟨l, rfl, rfl⟩
  · exact absurd hnil hd
  · refine ⟨l, rfl, ?_⟩
    intro data off rest before hlen h
    obtain ⟨hsz, hdrop, hlt⟩ := todword_fillSize h hlen
    have hcontent : Content.of f.args.type l = .bytes l := by
      show Content.of f.type l = _
      rcases htype with htype | htype <;> rw [htype] <;> rfl
    have hcall : callChecked (hears data) (f.args.withData (off + 4) (toInt32 l.length) 0) before =
        .ok (before ++ [f.args.heardAt 0 (.of f.args.type l)]) := by
      rw [toInt32_eq hlt, callChecked_hears_data 0 hdrop, hcontent]
    rw [decodeData, if_neg harray]
    rcases htype with htype | htype
    all_goals
      rw [htype]
      simp only
      rw [hsz, checked_bind_ok, hcall]

/-- A number is in the record, or in the data. -/
theorem NumberWritten.reads (harray : ¬ f.array = true) (htype : f.type = .tinteger ∨ f.type = .tboolean)
    (h : NumberWritten f.args v calls) (hv : v ≠ (0, [])) :
    (∃ n, n < 0x7fff ∧ v = ((n + 1) * 2, []) ∧ calls = [f.args.heardAt 0 (.number (UInt64.ofNat n))]) ∨
      ∃ c, v = (0, fillSize c) ∧ Reads f v.2 calls := by
  rcases h with ⟨hnil, -⟩ | ⟨l, rfl, hbool, ⟨hfour, hsmall, rfl⟩ | ⟨hnot, hlength, rfl⟩⟩
  · exact absurd hnil hv
  · refine Or.inl ⟨ofLeBytes l, hsmall, rfl, ?_⟩
    have hcontent : Content.of f.args.type l = .number (UInt64.ofNat (ofLeBytes l)) := by
      show Content.of f.type l = _
      rcases htype with htype | htype
      · rw [htype, Content.of, if_pos hfour, expand64, if_pos (by omega)]
      · have hle := hbool htype
        rw [htype, Content.of]
        obtain hzero | hone : ofLeBytes l = 0 ∨ ofLeBytes l = 1 := by omega
        · simp [hzero]
        · simp [hone]
    rw [hcontent]
  · have hinteger : f.type = .tinteger := htype.resolve_right hnot
    refine Or.inr ⟨_, rfl, ?_⟩
    intro data off rest before hlen h
    obtain ⟨hsz, hdrop, hlt⟩ := todword_fillSize h hlen
    rw [length_leBytes] at hsz
    have hcontent : Content.of f.args.type l =
        .number (if l.length = 4 then expand64 (ofLeBytes l) else UInt64.ofNat (ofLeBytes l)) := by
      show Content.of f.type l = _
      rw [hinteger]
      rfl
    have hbound := ofLeBytes_lt l
    rw [decodeData, if_neg harray, hinteger]
    simp only
    rw [hsz, checked_bind_ok, hcontent]
    by_cases hfour : l.length = 4
    · rw [hfour] at hdrop hbound
      rw [if_pos hfour, if_pos hfour, todword_leBytes hdrop, checked_bind_ok, Nat.mod_eq_of_lt (by omega)]
      rfl
    · have height : l.length = 8 := hlength.resolve_left hfour
      have hwide : wide l = leBytes l.length (ofLeBytes l) := by rw [wide, if_neg hfour, height]
      rw [← hwide] at hdrop
      rw [if_neg hfour, if_neg (by omega), readInt64_wide hdrop hlength, checked_bind_ok, if_neg hfour]
      rfl

/-- A field is in its record, or in the data behind its length. -/
theorem FieldWritten.reads (h : FieldWritten f v calls) (hv : v ≠ (0, [])) :
    (∃ n, n < 0x7fff ∧ v = ((n + 1) * 2, []) ∧ calls = [f.args.heardAt 0 (.number (UInt64.ofNat n))] ∧
        ¬ f.array = true ∧ (f.type = .tinteger ∨ f.type = .tboolean)) ∨
      ∃ c, v = (0, fillSize c) ∧ Reads f v.2 calls := by
  have hsnd : v.1 = 0 → v.2 ≠ [] := fun hfst hnil => hv (Prod.ext hfst hnil)
  unfold FieldWritten at h
  by_cases harray : f.array = true
  · rw [if_pos harray] at h
    obtain ⟨c, hc, hreads⟩ := h.2.reads harray (hsnd h.1)
    exact Or.inr ⟨c, Prod.ext h.1 hc, hreads⟩
  · rw [if_neg harray] at h
    have hobject : f.type = .tstring ∨ f.type = .tstruct → v.1 = 0 ∧ ObjectWritten f.args v.2 calls →
        ∃ c, v = (0, fillSize c) ∧ Reads f v.2 calls := by
      rintro htype ⟨hfst, h⟩
      obtain ⟨c, hc, hreads⟩ := h.reads harray htype (hsnd hfst)
      exact ⟨c, Prod.ext hfst hc, hreads⟩
    cases htype : f.type with
    | tinteger =>
      rw [htype] at h
      apply (NumberWritten.reads harray (Or.inl htype) h hv).imp_left
      rintro ⟨n, hn, hvn, hcalls⟩
      exact ⟨n, hn, hvn, hcalls, harray, Or.inl rfl⟩
    | tboolean =>
      rw [htype] at h
      apply (NumberWritten.reads harray (Or.inr htype) h hv).imp_left
      rintro ⟨n, hn, hvn, hcalls⟩
      exact ⟨n, hn, hvn, hcalls, harray, Or.inr rfl⟩
    | tstring =>
      rw [htype] at h
      exact Or.inr (hobject (Or.inl htype) h)
    | tstruct =>
      rw [htype] at h
      exact Or.inr (hobject (Or.inr htype) h)

/-! ## Messages -/

variable {st : SprotoType} {last : ℤ}

/-- The records `rs` with the data `ds` are read as these calls, from the tag `last` on. -/
def Segment (st : SprotoType) (last : ℤ) (rs : List ℕ) (ds : List UInt8) (calls : List Heard) : Prop :=
  ∀ data i off rest rest' before, data.length < 2 ^ 31 →
    data.drop (2 + i * 2) = rs.flatMap (leBytes 2) ++ rest → data.drop off = ds ++ rest' →
    ∃ last', times (decodeField st (hears data) data) rs.length i ⟨last, off, data.length - off, before⟩ =
      .ok ⟨last', off + ds.length, data.length - (off + ds.length), before ++ calls⟩

/-- A record that skips tags, or none. -/
theorem decode_skip {i : ℕ} {tag : ℤ} (hlast : last < tag) (hskip : (tag - last - 2) * 2 + 1 ≤ 0xffff)
    (h : data.drop (2 + i * 2) = (skipWord (tag - last - 1)).flatMap (leBytes 2) ++ rest) (size : ℕ) :
    times (decodeField st (hears data) data) (skipWord (tag - last - 1)).length i ⟨last, off, size, calls⟩ =
      .ok ⟨tag - 1, off, size, calls⟩ := by
  unfold skipWord at h ⊢
  by_cases hgap : tag - last - 1 > 0
  · rw [if_pos hgap] at h ⊢
    have hword : ((tag - last - 1 - 1) * 2 + 1).toNat < 2 ^ 16 := by omega
    have htag : last + 1 + (((tag - last - 1 - 1) * 2 + 1).toNat / 2 : ℕ) = tag - 1 := by omega
    rw [List.flatMap_singleton] at h
    rw [List.length_singleton, times_succ, decodeField, toword_leBytes h hword, checked_bind_ok,
      if_pos (by omega), checked_bind_ok, times]
    simp only [htag]
  · rw [if_neg hgap]
    have hnext : last = tag - 1 := by omega
    rw [hnext]
    rfl

/-- The record of a field. -/
theorem decode_record {i : ℕ} (calls' : List Heard) (hfind : findtag st f.tag = some f) (hlen : data.length < 2 ^ 31)
    (hf : FieldWritten f v calls) (hv : v ≠ (0, []))
    (h : data.drop (2 + i * 2) = leBytes 2 v.1 ++ rest) {rest' : List UInt8}
    (hoff : data.drop off = v.2 ++ rest') :
    decodeField st (hears data) data i ⟨f.tag - 1, off, data.length - off, calls'⟩ =
      .ok ⟨f.tag, off + v.2.length, data.length - (off + v.2.length), calls' ++ calls⟩ := by
  have htag : (f.tag : ℤ) - 1 + 1 = f.tag := by omega
  rw [decodeField]
  rcases hf.reads hv with ⟨n, hn, rfl, rfl, harray, htype⟩ | ⟨c, rfl, hreads⟩
  · have hkind : ¬ (f.array = true ∨ (f.type ≠ .tinteger ∧ f.type ≠ .tboolean)) := by
      rw [not_or, not_and_or, not_not, not_not]
      exact ⟨harray, htype⟩
    have hhalf : (n + 1) * 2 / 2 = n + 1 := by omega
    have hn' : (n + 1) * 2 < 2 ^ 16 := by omega
    rw [toword_leBytes h hn', checked_bind_ok, if_neg (by omega), dataLength, hhalf,
      if_neg (by omega), checked_bind_ok]
    simp only [htag, Int.toNat_natCast, hfind]
    rw [if_neg (by omega), if_neg hkind, call_hears_word, checked_bind_ok]
    rfl
  · have hdrop := congrArg List.length hoff
    obtain ⟨hsz, -, hlt⟩ := todword_fillSize hoff hlen
    simp only [List.length_drop, List.length_append, length_fillSize] at hdrop
    have hword : toword data (2 + i * 2) = .ok 0 := toword_leBytes h (by norm_num)
    have hlength : dataLength data 0 off (data.length - off) = .ok (fillSize c).length := by
      have hwith : withLength c.length = (fillSize c).length := by
        rw [withLength, length_fillSize]
        omega
      rw [dataLength, if_pos rfl, if_neg (by omega), hsz, checked_bind_ok, hwith, length_fillSize,
        if_neg (by omega)]
    rw [hword, checked_bind_ok, if_neg (by decide)]
    simp only [hlength, checked_bind_ok, htag, Int.toNat_natCast, hfind]
    rw [if_pos trivial, hreads data off rest' calls' hlen hoff, checked_bind_ok, Nat.sub_sub]

theorem FieldsWritten.segment {fs : List Field} {rs : List ℕ} {ds : List UInt8}
    (h : FieldsWritten fs last rs ds calls) (hfind : ∀ f ∈ fs, findtag st f.tag = some f)
    (hascending : fs.Pairwise fun f g => f.tag < g.tag) (hlast : ∀ f ∈ fs, last < f.tag) :
    Segment st last rs ds calls := by
  induction h with
  | nil =>
    intro data i off rest rest' before _ _ _
    exact ⟨_, by simp [times]; rfl⟩
  | absent h ih =>
    rw [List.pairwise_cons] at hascending
    exact ih (fun g hg => hfind g (by simp [hg])) hascending.2 fun g hg => hlast g (by simp [hg])
  | @field f fs last v rs ds calls calls' hv hskip hf h ih =>
    rw [List.pairwise_cons] at hascending
    have hrest := ih (fun g hg => hfind g (by simp [hg])) hascending.2
      fun g hg => by exact_mod_cast hascending.1 g hg
    intro data i off rest rest' before hlen hrecords hdata
    rw [List.flatMap_append, List.flatMap_cons, List.append_assoc, List.append_assoc] at hrecords
    rw [List.append_assoc] at hdata
    have hrecord := drop_add_length hrecords
    rw [length_words, Nat.add_assoc, ← Nat.add_mul] at hrecord
    have hnext := drop_add_length hrecord
    rw [length_leBytes, Nat.add_assoc, ← Nat.succ_mul] at hnext
    have hfirst := decode_record before (hfind f (by simp)) hlen hf hv hrecord hdata
    obtain ⟨last', htimes⟩ := hrest data _ _ rest rest' (before ++ calls) hlen hnext (drop_add_length hdata)
    refine ⟨last', ?_⟩
    rw [List.length_append, List.length_cons, times_add,
      decode_skip (hlast f (by simp)) hskip hrecords, checked_bind_ok, times_succ, hfirst, checked_bind_ok,
      htimes, List.length_append, Nat.add_assoc, List.append_assoc]

end

/-- A type with an array of integers `x` and, behind a gap, an integer `y`. -/
def pointBundle : List UInt8 :=
  [1, 0, 0, 0, 59, 0, 0, 0, 55, 0, 0, 0, 2, 0, 0, 0, 0, 0, 1, 0, 0, 0, 84, 40, 0, 0, 0,
   17, 0, 0, 0, 5, 0, 0, 0, 2, 0, 1, 0, 2, 0, 4, 0, 1, 0, 0, 0, 120,
   15, 0, 0, 0, 4, 0, 0, 0, 2, 0, 1, 0, 8, 0, 1, 0, 0, 0, 121]

def pointField (name tag : UInt8) (array : Bool) : Field :=
  { tag := tag.toNat, type := .tinteger, array := array, name := [name], st := none, key := none, extra := 0 }

def pointType : SprotoType :=
  { name := [84], base := -1, maxn := 3, f := [pointField 120 0 true, pointField 121 3 false] }

/-- The array holds -5 and a number of 64 bits. -/
def pointCallback : EncodeCallback Unit := fun args s =>
  (if args.length < 8 then .error
    else if args.tagid = 3 then .value [7, 0, 0, 0]
    else if args.index = 1 then .value [251, 255, 255, 255]
    else if args.index = 2 then .value [0, 0, 0, 0, 0, 1, 0, 0]
    else .nil, s)

theorem respects_point : Respects pointCallback := by
  intro args s l
  unfold pointCallback
  split_ifs <;> simp only [false_imp_iff, Reply.value.injEq]
  all_goals
    rintro rfl
    simp only [List.length_cons, List.length_nil]
    omega

/-- **A message round-trips.** For every type that `sproto_create` makes, and every callback that writes no
more than it may: `sproto_encode` returns -1, or it stays inside of its buffer. When the answers are of the
kind that the type asks for, `sproto_decode` then makes of its bytes the calls for these answers, and no
others, and goes through all of the bytes. -/
theorem decode_encode {σ : Type} {st : SprotoType} {cb : EncodeCallback σ} {bundle : List UInt8} {o : SprotoObject}
    (hcreate : sprotoCreate bundle = .ok o) (hst : st ∈ o.type) (hcb : Respects cb) {size : ℕ}
    (hsize : size < 2 ^ 31) (s : σ) :
    Yields (fun r => r.1.length ≤ size ∧ (r.1 ≠ [] → Proper r.2.2 →
        sprotoDecode st r.1 (hears r.1) [] = .ok (r.1.length, heard r.2.2)))
      (sprotoEncode st size (logged cb) (s, [])) := by
  have hindexed := sprotoCreate_ensures bundle o hcreate st hst
  refine (sprotoEncode_yields hindexed hcb size s).mono fun r hr => ?_
  obtain ⟨hlen, hr⟩ := hr
  refine ⟨hlen, fun hne hproper => ?_⟩
  obtain ⟨rs, ds, hsmall, hbytes, hfields⟩ := hr hne hproper
  have hsegment := hfields.segment (fun f hf => hindexed.findtag hf) hindexed.ascending fun f _ => by omega
  generalize r.1 = data at *
  have hlength : data.length = 2 + rs.length * 2 + ds.length := by
    rw [hbytes, List.length_append, List.length_append, length_leBytes, length_words]
  have hcount : data.drop 0 = leBytes 2 rs.length ++ (rs.flatMap (leBytes 2) ++ ds) := by
    rw [List.drop_zero, ← List.append_assoc]
    exact hbytes
  have hrecords := drop_add_length hcount
  rw [length_leBytes] at hrecords
  have hdata := drop_add_length hrecords
  rw [length_words, Nat.zero_add] at hdata
  obtain ⟨last', htimes⟩ := hsegment data 0 (2 + rs.length * 2) ds [] [] (by omega) hrecords (by simpa using hdata)
  have hleft : data.length - 2 - rs.length * 2 = data.length - (2 + rs.length * 2) := by omega
  rw [sprotoDecode, if_neg (by omega), toword_leBytes hcount hsmall, checked_bind_ok, if_neg (by omega), hleft,
    htimes, checked_bind_ok, List.nil_append]
  congr 2
  simp only
  omega

theorem decode_encode_point : ∃ bytes log,
    sprotoEncode pointType 64 (logged pointCallback) ((), []) = .ok (bytes, (), log) ∧ bytes.length = 29 ∧
    sprotoDecode pointType bytes (hears bytes) [] = .ok (29, heard log) := by
  have hcreate : sprotoCreate pointBundle = .ok { type := [pointType], proto := [] } := by decide +kernel
  have hrun : (sprotoEncode pointType 64 (logged pointCallback) ((), [])).map
      (fun r => (r.1.length, decide (Proper r.2.2))) = .ok (29, true) := by decide +kernel
  rcases decode_encode hcreate (List.mem_singleton_self pointType) respects_point (by norm_num : 64 < 2 ^ 31) ()
    with hfail | ⟨r, hok, -, h⟩
  · rw [hfail] at hrun
    cases hrun
  · obtain ⟨bytes, ⟨⟩, log⟩ := r
    rw [hok] at hrun
    obtain ⟨hlen, hproper⟩ := Prod.mk.inj (Except.ok.inj hrun)
    have hne : bytes ≠ [] := List.ne_nil_of_length_pos (by rw [hlen]; decide)
    have hdecode := h hne (of_decide_eq_true hproper)
    exact ⟨bytes, log, hok, hlen, hlen ▸ hdecode⟩

end SkynetEureka.Sproto
