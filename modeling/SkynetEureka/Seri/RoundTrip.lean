import SkynetEureka.Seri.UnpackTheorems

/-!
# Packing and unpacking give the values back

`luaseri_unpack` undoes `luaseri_pack` exactly when the packed bytes can be counted in an `int`:
`Fits` says so of the values. Behind that limit `wb->len` overflows.
-/

namespace SkynetEureka.Seri

open Lib

/-! ## Equality by content -/

lemma sameEntries_map {f : Value → Value} :
    ∀ {es : Entries}, (∀ e ∈ es, Same e.1 (f e.1) ∧ Same e.2 (f e.2)) →
      SameEntries es (es.map fun e => (f e.1, f e.2))
  | [], _ => .nil
  | e :: _, h => .cons (h e (List.mem_cons_self ..)).1 (h e (List.mem_cons_self ..)).2
    (sameEntries_map fun e' he' => h e' (List.mem_cons_of_mem e he'))

/-- What a value comes back as is equal to it by content. -/
lemma rebuilt_same {n : ℕ} {v : Value} (h : v.Legal n) : Same v (rebuilt n v) := by
  induction n generalizing v with
  | zero =>
    cases v with
    | table entries rawlen => exact h.elim
    | _ => constructor
  | succ n ih =>
    cases v with
    | table entries rawlen =>
      rw [Value.Legal] at h
      have hperm := perm_reordered h.1 (fun e he => (h.2 e he).2.1) (arraySize_lt rawlen)
      refine .table hperm (sameEntries_map fun e he => ?_)
      have he' := h.2 e (hperm.mem_iff.mpr he)
      exact ⟨ih he'.2.2.1, ih he'.2.2.2⟩
    | _ => constructor

/-! ## The size of the packed values -/

/-- The bytes of an integer, with its type byte. -/
def integerSize (v : Int64) : ℕ :=
  if v = 0 then 1
  else if v ≠ v.toInt32.toInt64 then 9
  else if v < 0 then 5
  else if v < 0x100 then 2
  else if v < 0x10000 then 3
  else 5

/-- The bytes of a string of the given length, with its type byte and its length. -/
def stringSize (len : ℕ) : ℕ :=
  if len < maxCookie then 1 + len else if len < 0x10000 then 3 + len else 5 + len

/-- The bytes of a value nested at most `n` deep. A table has its array size in the cookie or
behind it, a byte at least for each element of the array part, and a nil at its end. -/
def Value.size : ℕ → Value → ℕ
  | _, .nil => 1
  | _, .boolean _ => 1
  | _, .integer x => integerSize x
  | _, .number _ => 9
  | _, .lightuserdata _ => 9
  | _, .string bytes => stringSize bytes.length
  | 0, .table .. => 0
  | n + 1, .table entries rawlen =>
    let a := arraySize rawlen
    (if maxCookie - 1 ≤ a then 1 + integerSize (Int64.ofInt a) else 1) +
      ((arrayValues entries a).map (size n)).sum +
        ((hashPart entries a).map fun e => size n e.1 + size n e.2).sum + 1

/-- No table in the value has a length that is negative as an `int`. -/
def Value.CountsFit : ℕ → Value → Prop
  | n + 1, .table entries rawlen =>
    0 ≤ arraySize rawlen ∧ ∀ e ∈ entries, e.1.CountsFit n ∧ e.2.CountsFit n
  | _, _ => True

/-- All array sizes and the number of the packed bytes fit in an `int`. -/
def Fits (values : List Value) : Prop :=
  (∀ v ∈ values, v.CountsFit maxDepth) ∧ (values.map (Value.size maxDepth)).sum < 2 ^ 31

lemma length_encodeInteger (v : Int64) : (encodeInteger v).length = integerSize v := by
  unfold encodeInteger integerSize
  split_ifs <;> simp

lemma length_encodeString (str : List UInt8) :
    (encodeString str).length = stringSize str.length := by
  unfold encodeString stringSize
  split_ifs <;> simp <;> omega

lemma length_joinBytes {ι : Type} {p : ι → Option (List UInt8)} {g : ι → ℕ} :
    ∀ {xs : List ι} {l : List UInt8}, joinBytes (xs.map p) = some l →
      (∀ x ∈ xs, ∀ l', p x = some l' → l'.length = g x) → l.length = (xs.map g).sum
  | [], l, h, _ => by
    obtain rfl := Option.some.inj h
    rfl
  | x :: xs, l, h, hg => by
    rw [List.map_cons, joinBytes] at h
    obtain ⟨l₁, l₂, h₁, h₂, rfl⟩ := appendBytes_eq_some.mp h
    rw [List.length_append, List.map_cons, List.sum_cons, hg x (List.mem_cons_self ..) l₁ h₁,
      length_joinBytes h₂ fun y hy => hg y (List.mem_cons_of_mem x hy)]

lemma length_encodeArraySize {a : ℤ} {l : List UInt8} (h : encodeArraySize a = some l) :
    l.length = if maxCookie - 1 ≤ a then 1 + integerSize (Int64.ofInt a) else 1 := by
  unfold encodeArraySize at h
  split_ifs at h ⊢
  · obtain rfl := Option.some.inj h
    rw [List.length_cons, length_encodeInteger, Nat.add_comm]
  · obtain rfl := Option.some.inj h
    rfl

lemma length_encode_atom {n : ℕ} {v : Value} {l : List UInt8} (h : encode n v = some l)
    (hv : ∀ entries rawlen, v ≠ .table entries rawlen) : l.length = v.size n := by
  cases v with
  | table entries rawlen => exact absurd rfl (hv entries rawlen)
  | integer x =>
    rw [encode_integer] at h
    obtain rfl := Option.some.inj h
    rw [Value.size, length_encodeInteger]
  | string bytes =>
    rw [encode_string] at h
    obtain rfl := Option.some.inj h
    rw [Value.size, length_encodeString]
  | _ =>
    simp only [encode_nil, encode_boolean, encode_number, encode_lightuserdata] at h
    obtain rfl := Option.some.inj h
    rw [Value.size]
    simp

/-- `size` is the number of the bytes. -/
theorem length_encode {n : ℕ} {v : Value} {l : List UInt8} (h : encode n v = some l) :
    l.length = v.size n := by
  induction n generalizing v l with
  | zero =>
    refine length_encode_atom h ?_
    rintro entries rawlen rfl
    cases h
  | succ n ih =>
    by_cases hv : ∃ entries rawlen, v = .table entries rawlen
    swap
    · exact length_encode_atom h fun es len heq => hv ⟨es, len, heq⟩
    obtain ⟨entries, rawlen, rfl⟩ := hv
    rw [encode_table] at h
    obtain ⟨l₁, l₂, h₁, h₂, rfl⟩ := appendBytes_eq_some.mp h
    obtain ⟨lsize, larray, hsize, harray, rfl⟩ := appendBytes_eq_some.mp h₁
    obtain ⟨lhash, lnil, hhash, hnil, rfl⟩ := appendBytes_eq_some.mp h₂
    obtain rfl := Option.some.inj hnil
    have hpair : ∀ e ∈ hashPart entries (arraySize rawlen), ∀ l',
        appendBytes (encode n e.1) (encode n e.2) = some l' →
          l'.length = e.1.size n + e.2.size n := by
      intro e _ l' hl'
      obtain ⟨k₁, k₂, hk₁, hk₂, rfl⟩ := appendBytes_eq_some.mp hl'
      rw [List.length_append, ih hk₁, ih hk₂]
    have harray' := length_joinBytes (g := Value.size n) harray fun v _ l' hl' => ih hl'
    rw [Value.size]
    simp only [List.length_append, List.length_singleton, length_encodeArraySize hsize, harray',
      length_joinBytes hhash hpair]
    omega

lemma joinBytes_eq_some {os : List (Option (List UInt8))}
    (h : ∀ o ∈ os, ∃ l, o = some l) : ∃ l, joinBytes os = some l := by
  induction os with
  | nil => exact ⟨[], rfl⟩
  | cons o os ih =>
    obtain ⟨l₁, h₁⟩ := h o (List.mem_cons_self ..)
    obtain ⟨l₂, h₂⟩ := ih fun o' ho' => h o' (List.mem_cons_of_mem o ho')
    exact ⟨l₁ ++ l₂, appendBytes_eq_some.mpr ⟨l₁, l₂, h₁, h₂, rfl⟩⟩

lemma encodeArraySize_eq_some {a : ℤ} : (∃ l, encodeArraySize a = some l) ↔ 0 ≤ a := by
  unfold encodeArraySize
  split_ifs with hbig hneg
  · rw [maxCookie] at hbig
    simp
    omega
  · simp
    omega
  · simp
    omega

/-- A value that is not a table can always be packed. -/
lemma encode_atom {n : ℕ} {v : Value} (hv : ∀ entries rawlen, v ≠ .table entries rawlen) :
    ∃ l, encode n v = some l := by
  cases v with
  | table entries rawlen => exact absurd rfl (hv entries rawlen)
  | _ => exact ⟨_, by cases n <;> rfl⟩

/-- A value can be packed when the lengths of its tables are not negative. -/
theorem countsFit_iff {n : ℕ} {v : Value} (hlegal : v.Legal n) :
    v.CountsFit n ↔ ∃ l, encode n v = some l := by
  induction n generalizing v with
  | zero =>
    cases v with
    | table entries rawlen => exact hlegal.elim
    | _ => exact iff_of_true trivial ⟨_, rfl⟩
  | succ n ih =>
    cases v with
    | table entries rawlen =>
      rw [Value.Legal] at hlegal
      rw [Value.CountsFit, encode_table]
      have hkey := fun e he => (ih (hlegal.2 e he).2.2.1)
      have hvalue := fun e he => (ih (hlegal.2 e he).2.2.2)
      constructor
      · rintro ⟨hcount, hfit⟩
        obtain ⟨lsize, hsize⟩ := encodeArraySize_eq_some.mpr hcount
        obtain ⟨larray, harray⟩ : ∃ l, joinBytes
            ((arrayValues entries (arraySize rawlen)).map (encode n)) = some l := by
          refine joinBytes_eq_some fun o ho => ?_
          obtain ⟨v, hv, rfl⟩ := List.mem_map.mp ho
          rcases mem_arrayValues hv with rfl | ⟨e, he, rfl⟩
          · exact encode_atom (by simp)
          · exact (hvalue e he).mp (hfit e he).2
        obtain ⟨lhash, hhash⟩ : ∃ l, joinBytes ((hashPart entries (arraySize rawlen)).map
            fun e => appendBytes (encode n e.1) (encode n e.2)) = some l := by
          refine joinBytes_eq_some fun o ho => ?_
          obtain ⟨e, he, rfl⟩ := List.mem_map.mp ho
          have he := (List.mem_filter.mp he).1
          obtain ⟨l₁, h₁⟩ := (hkey e he).mp (hfit e he).1
          obtain ⟨l₂, h₂⟩ := (hvalue e he).mp (hfit e he).2
          exact ⟨l₁ ++ l₂, appendBytes_eq_some.mpr ⟨l₁, l₂, h₁, h₂, rfl⟩⟩
        exact ⟨_, appendBytes_eq_some.mpr ⟨_, _, appendBytes_eq_some.mpr ⟨_, _, hsize, harray, rfl⟩,
          appendBytes_eq_some.mpr ⟨_, _, hhash, rfl, rfl⟩, rfl⟩⟩
      · rintro ⟨l, hl⟩
        obtain ⟨l₁, l₂, h₁, h₂, rfl⟩ := appendBytes_eq_some.mp hl
        obtain ⟨lsize, larray, hsize, harray, rfl⟩ := appendBytes_eq_some.mp h₁
        obtain ⟨lhash, lnil, hhash, -, rfl⟩ := appendBytes_eq_some.mp h₂
        have hperm := perm_reordered hlegal.1 (fun e he => (hlegal.2 e he).2.1)
          (arraySize_lt rawlen)
        refine ⟨encodeArraySize_eq_some.mp ⟨_, hsize⟩, fun e he => ?_⟩
        rw [hkey e he, hvalue e he]
        -- the entry is in the array part or in the hash part
        rcases List.mem_append.mp (hperm.mem_iff.mp he) with hmem | hmem
        · obtain ⟨i, hi, -, rfl⟩ := mem_arrayPart.mp hmem
          obtain ⟨l', hl', -⟩ := exists_of_joinBytes harray
            (List.mem_map_of_mem (List.mem_map_of_mem (List.mem_range.mpr hi)))
          exact ⟨encode_atom (by simp), l', hl'⟩
        · obtain ⟨l', hl', -⟩ := exists_of_joinBytes hhash (List.mem_map_of_mem hmem)
          obtain ⟨k₁, k₂, hk₁, hk₂, -⟩ := appendBytes_eq_some.mp hl'
          exact ⟨⟨k₁, hk₁⟩, k₂, hk₂⟩
    | _ => exact iff_of_true trivial ⟨_, rfl⟩

/-- `Fits` says that the values have packed bytes, fewer than an `int` can count. -/
lemma fits_iff {values : List Value} (h : ∀ v ∈ values, v.Legal maxDepth) :
    Fits values ↔ ∃ l, encodeAll values = some l ∧ l.length < 2 ^ 31 := by
  have hsize : ∀ l, encodeAll values = some l →
      l.length = (values.map (Value.size maxDepth)).sum :=
    fun l hl => length_joinBytes hl fun v _ l' hl' => length_encode hl'
  constructor
  · rintro ⟨hcount, hlt⟩
    obtain ⟨l, hl⟩ : ∃ l, encodeAll values = some l := by
      refine joinBytes_eq_some fun o ho => ?_
      obtain ⟨v, hv, rfl⟩ := List.mem_map.mp ho
      exact (countsFit_iff (h v hv)).mp (hcount v hv)
    exact ⟨l, hl, by rw [hsize l hl]; exact hlt⟩
  · rintro ⟨l, hl, hlt⟩
    refine ⟨fun v hv => (countsFit_iff (h v hv)).mpr ?_, by rw [← hsize l hl]; exact hlt⟩
    obtain ⟨l', hl', -⟩ := exists_of_joinBytes hl (List.mem_map_of_mem hv)
    exact ⟨l', hl'⟩

/-! ## The round trip -/

/-- The loop of `luaseri_unpack` reads the items up to the end of the buffer. -/
lemma unpackLoop_eq (fuel : ℕ) : ∀ (values acc : List Value) (n : ℕ) (l : List UInt8)
    (rb : ReadBlock), values.length < n → (∀ v ∈ values, v.Legal maxDepth) →
      encodeAll values = some l → l.length ≤ fuel + 1 → rb.Ahead l →
      ∃ rb', unpackLoop fuel n acc rb = .ok (acc ++ values.map (rebuilt maxDepth), rb')
  | [], acc, n + 1, l, rb, _, _, hl, _, hrb => by
    obtain rfl := Option.some.inj hl
    obtain ⟨done, -, -, hlen⟩ := hrb
    refine ⟨rb, ?_⟩
    have hend : rbRead 1 rb = .ok (none, rb) := by
      rw [rbRead, if_pos (by rw [hlen, List.length_nil]; decide)]
    simp only [unpackLoop, bind, StateT.bind, hend, Except.bind, List.map_nil, List.append_nil]
    rfl
  | v :: values, acc, n + 1, l, rb, hn, hlegal, hl, hk, hrb => by
    rw [encodeAll, List.map_cons, joinBytes] at hl
    obtain ⟨l₁, l₂, h₁, h₂, rfl⟩ := appendBytes_eq_some.mp hl
    rw [List.length_append] at hk
    rw [List.length_cons] at hn
    obtain ⟨b, payload, rfl, hread⟩ :=
      encode_reads (k := fuel) (hlegal v (List.mem_cons_self ..)) h₁ (by omega)
    have hahead : rb.Ahead ([b] ++ (payload ++ l₂)) := by simpa using hrb
    obtain ⟨rb₁, hrbRead, hload, hrb₁⟩ := rbRead_load hahead
    obtain ⟨rb₂, hpush, hrb₂⟩ := hread rb₁ l₂ hrb₁
    obtain ⟨rb', hloop⟩ := unpackLoop_eq fuel values (acc ++ [rebuilt maxDepth v]) n l₂ rb₂
      (by omega) (fun w hw => hlegal w (List.mem_cons_of_mem v hw)) h₂ (by omega) hrb₂
    have hbyte : ofLeBytes [b] = b.toNat := by simp [ofLeBytes]
    rw [List.length_singleton, Nat.cast_one] at hrbRead hload
    refine ⟨rb', ?_⟩
    simp only [unpackLoop, bind, StateT.bind, hrbRead, Except.bind, hload, hbyte, hpush, hloop,
      List.map_cons, List.append_assoc, List.singleton_append]

/-- The buffer and the length that `luaseri_pack` hands out are what it has written, and
`luaseri_unpack` makes equal values of them. -/
def RoundTrips (values : List Value) : Prop :=
  ∃ wb buffer len values', packFrom wbInit values = .ok wb ∧
    luaseriPack values = .ok (buffer, len) ∧ buffer = wb.bytes ∧ len = wb.bytes.length ∧
    luaseriUnpack (some buffer) len = .ok values' ∧ List.Forall₂ Same values values'

lemma roundTrips_of_fits {values : List Value} (h : ∀ v ∈ values, v.Legal maxDepth)
    (hfit : Fits values) : RoundTrips values := by
  obtain ⟨l, hl, hlt⟩ := (fits_iff h).mp hfit
  rcases luaseriPack_cases h with ⟨l', wb, hl', -, hwb, hbytes, hpack⟩ | ⟨-, hbig⟩
  swap
  · exact absurd (hbig l hl) (by omega)
  obtain rfl := Option.some.inj (hl.symm.trans hl')
  have hsame : List.Forall₂ Same values (values.map (rebuilt maxDepth)) := by
    rw [List.forall₂_map_right_iff, List.forall₂_same]
    exact fun v hv => rebuilt_same (h v hv)
  refine ⟨wb, l, l.length, values.map (rebuilt maxDepth), hwb, hpack, hbytes.symm,
    by rw [hbytes], ?_, hsame⟩
  have hcount : values.length ≤ l.length := by
    have := length_le_of_joinBytes_pos hl fun o ho l' hl' => ?_
    · rwa [List.length_map] at this
    · obtain ⟨v, -, rfl⟩ := List.mem_map.mp ho
      exact encode_pos hl'
  rw [luaseriUnpack]
  by_cases hzero : l.length = 0
  · have hnil : values = [] := List.length_eq_zero_iff.mp (by omega)
    rw [hzero, hnil]
    rfl
  · have hrb : (rballInit l l.length).Ahead l := ⟨[], rfl, rfl, rfl⟩
    obtain ⟨rb', hloop⟩ := unpackLoop_eq (l.length : ℤ).toNat values []
      ((l.length : ℤ).toNat + 1) l _ (by omega) h hl (by omega) hrb
    rw [if_neg (by omega)]
    simp only [hloop, bind, Except.bind, List.nil_append]

lemma fits_of_roundTrips {values : List Value} (h : ∀ v ∈ values, v.Legal maxDepth)
    (htrip : RoundTrips values) : Fits values := by
  obtain ⟨-, buffer, len, -, -, hpack, -⟩ := htrip
  rcases luaseriPack_cases h with ⟨l, -, hl, hlt, -⟩ | ⟨⟨e, he⟩, -⟩
  · exact (fits_iff h).mpr ⟨l, hl, hlt⟩
  · rw [hpack] at he
    cases he

/-- **Serialisation round-trips** exactly when all array sizes and the number of the packed bytes
fit in an `int`. -/
theorem serialisation_round_trips (values : List Value) (h : ∀ v ∈ values, v.Legal maxDepth) :
    RoundTrips values ↔ Fits values :=
  ⟨fits_of_roundTrips h, roundTrips_of_fits h⟩

/-- An integer, a string and a table with an array part, a hole and a hash part. -/
theorem serialisation_round_trips_mixed :
    RoundTrips [.integer (-5), .string [104, 105],
      .table [(.string [107], .number 0x3ff8000000000000), (.integer 1, .boolean true),
        (.integer 3, .table [] 0)] 3] := by
  refine (serialisation_round_trips _ ?_).mpr ⟨?_, ?_⟩
  · simp [maxDepth, Value.Legal, Value.LegalKey, Value.rawEqual, Value.isNil]
  · have h3 : 0 ≤ arraySize 3 := by decide
    have h0 : 0 ≤ arraySize 0 := by decide
    simp [maxDepth, Value.CountsFit, h3, h0]
  · decide

/-- A string of `2 ^ 31 - 1` bytes is packed into five bytes more, which an `int` cannot count. -/
theorem long_string_does_not_round_trip :
    ∃ bytes : List UInt8, bytes.length = 2 ^ 31 - 1 ∧ (Value.string bytes).Legal maxDepth ∧
      ¬ RoundTrips [.string bytes] := by
  obtain ⟨bytes, hlen⟩ : ∃ bytes : List UInt8, bytes.length = 2 ^ 31 - 1 :=
    ⟨List.replicate (2 ^ 31 - 1) 0, List.length_replicate⟩
  have hlegal : (Value.string bytes).Legal maxDepth := by
    rw [Value.Legal, hlen]
    omega
  refine ⟨bytes, hlen, hlegal, fun htrip => ?_⟩
  obtain ⟨-, hlt⟩ := fits_of_roundTrips (by simpa using hlegal) htrip
  simp only [List.map_cons, List.map_nil, List.sum_cons, List.sum_nil, Value.size, hlen,
    stringSize, maxCookie] at hlt
  rw [if_neg (by omega), if_neg (by omega)] at hlt
  omega

end SkynetEureka.Seri
