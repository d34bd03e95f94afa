import SkynetEureka.Seri.PackTheorems
import SkynetEureka.Seri.Unpack

/-!
# What unpacking reads

Each reader consumes the bytes that the writer of the same item writes, and returns the item.
A table comes back with its array part in front: `reordered`.
-/

namespace SkynetEureka.Seri

open Lib

/-- What the reader has still to read. -/
def ReadBlock.Ahead (rb : ReadBlock) (rest : List UInt8) : Prop :=
  ∃ done : List UInt8, rb.buffer = done ++ rest ∧ rb.ptr = done.length ∧ rb.len = rest.length

/-- The reader `m` consumes `l` and returns `a`. -/
abbrev ReadsBytes {α : Type} (m : ReadM α) (l : List UInt8) (a : α) : Prop :=
  Reads ReadBlock.Ahead m l a

/-! ## Bytes and numbers -/

/-- **`rb_read`**, and the copy of the bytes it points to. -/
lemma rbRead_load {rb : ReadBlock} {l rest : List UInt8} (h : rb.Ahead (l ++ rest)) :
    ∃ rb', rbRead l.length rb = .ok (some rb.ptr, rb') ∧
      load rb.ptr l.length rb' = .ok (l, rb') ∧ rb'.Ahead rest := by
  obtain ⟨done, hbuffer, hptr, hlen⟩ := h
  refine ⟨{ rb with ptr := rb.ptr + l.length, len := rb.len - l.length }, ?_, ?_,
    done ++ l, by rw [hbuffer, List.append_assoc], by simp [hptr], by simp [hlen]⟩
  · have hroom : ¬ rb.len < l.length := by
      rw [hlen, List.length_append]
      omega
    rw [rbRead, if_neg hroom]
  · have hin : 0 ≤ rb.ptr ∧ (0 : ℤ) ≤ l.length ∧ rb.ptr + l.length ≤ rb.buffer.length := by
      rw [hbuffer, hptr, List.length_append, List.length_append]
      omega
    have hbytes : (rb.buffer.drop rb.ptr.toNat).take (l.length : ℤ).toNat = l := by
      rw [hbuffer, hptr, Int.toNat_natCast, Int.toNat_natCast, List.drop_left, List.take_left]
    rw [load, if_pos hin, hbytes]

lemma readBytes_reads (l : List UInt8) : ReadsBytes (readBytes l.length) l l := by
  intro rb rest h
  obtain ⟨rb', hread, hload, h'⟩ := rbRead_load h
  refine ⟨rb', ?_, h'⟩
  simp only [readBytes, bind, StateT.bind, hread, Except.bind, hload]

lemma readType_reads (b : UInt8) : ReadsBytes readType [b] b.toNat := by
  have h := (readBytes_reads [b]).bind_pure ofLeBytes
  have hb : ofLeBytes [b] = b.toNat := by simp [ofLeBytes]
  rwa [hb] at h

lemma readNumber_reads {α : Type} (k n : ℕ) (f : ℕ → α) :
    ReadsBytes (do let bytes ← readBytes k; return f (ofLeBytes bytes)) (leBytes k n)
      (f (n % 256 ^ k)) := by
  have hread := (readBytes_reads (leBytes k n)).bind_pure fun bytes => f (ofLeBytes bytes)
  rwa [length_leBytes, ofLeBytes_leBytes] at hread

/-- The type byte comes apart into type and cookie. -/
lemma combineType_toNat {t v : ℕ} (ht : t < 8) (hv : v < 32) :
    (combineType t v).toNat &&& 7 = t ∧ (combineType t v).toNat >>> 3 = v := by
  have hor : t ||| v <<< 3 = v * 8 + t := by
    rw [Nat.or_comm, ← Nat.shiftLeft_add_eq_or_of_lt (i := 3) ht, Nat.shiftLeft_eq]
  have hnat : (combineType t v).toNat = v * 8 + t := by
    rw [combineType, hor, UInt8.toNat_ofNat']
    omega
  rw [hnat, show (7 : ℕ) = 2 ^ 3 - 1 by decide, Nat.and_two_pow_sub_one_eq_mod,
    Nat.shiftRight_eq_div_pow]
  omega

/-! ## Integers -/

/-- A 64-bit integer and its two's complement. -/
lemma toInt_eq_toUInt64 (v : Int64) :
    v.toInt = if v.toUInt64.toNat < 2 ^ 63 then (v.toUInt64.toNat : ℤ)
      else (v.toUInt64.toNat : ℤ) - 2 ^ 64 := by
  have hlt := v.toUInt64.toNat_lt
  have hbv : v.toInt = v.toBitVec.toInt := rfl
  rw [hbv, BitVec.toInt_eq_toNat_cond, Int64.toNat_toBitVec]
  split_ifs <;> omega

lemma toInt32_eq_iff (v : Int64) :
    v = v.toInt32.toInt64 ↔ -2 ^ 31 ≤ v.toInt ∧ v.toInt < 2 ^ 31 := by
  rw [← Int64.toInt_inj, Int32.toInt_toInt64, Int64.toInt_toInt32, Int.bmod_def]
  split_ifs <;> omega

/-- Four bytes give back an integer of 32 bits. -/
lemma ofNat_mod_dword {v : Int64} (h : v = v.toInt32.toInt64) :
    (Int32.ofNat (v.toUInt64.toNat % 256 ^ 4)).toInt64 = v := by
  rw [toInt32_eq_iff] at h
  have hv := toInt_eq_toUInt64 v
  rw [← Int64.toInt_inj, Int32.toInt_toInt64, Int32.toInt_ofNat', Int.bmod_def, Int32.size]
  split_ifs at hv <;> split_ifs <;> omega

/-- Bytes that hold a non-negative integer give it back. -/
lemma ofNat_mod_of_lt {v : Int64} {k : ℕ} (hpos : 0 ≤ v.toInt) (hlt : v.toInt < 256 ^ k) :
    Int64.ofNat (v.toUInt64.toNat % 256 ^ k) = v := by
  have hv := toInt_eq_toUInt64 v
  have hn := v.toUInt64.toNat_lt
  have hmod : v.toUInt64.toNat % 256 ^ k = v.toUInt64.toNat := by
    refine Nat.mod_eq_of_lt ?_
    split_ifs at hv
    · rw [hv] at hlt
      exact_mod_cast hlt
    · omega
  rw [hmod, ← Int64.toInt_inj, Int64.toInt_ofNat_of_lt]
  · split_ifs at hv <;> omega
  · split_ifs at hv <;> omega

/-- Eight bytes give back every integer. -/
lemma ofNat_mod_qword (v : Int64) : Int64.ofNat (v.toUInt64.toNat % 256 ^ 8) = v := by
  have hv := toInt_eq_toUInt64 v
  have hn := v.toUInt64.toNat_lt
  rw [← Int64.toInt_inj, Int64.toInt_ofNat', Int.bmod_def, Int64.size]
  split_ifs at hv <;> split_ifs <;> omega

/-- **`get_integer`** reads what `wb_integer` wrote. -/
lemma getInteger_reads (v : Int64) : ∃ cookie payload, cookie < 32 ∧ cookie ≠ typeNumberReal ∧
    encodeInteger v = combineType typeNumber cookie :: payload ∧
      ReadsBytes (getInteger cookie) payload v := by
  unfold encodeInteger
  split_ifs with hzero hwide hneg hbyte hword
  · exact ⟨_, _, by decide, by decide, rfl, hzero ▸ Reads.pure 0⟩
  · refine ⟨_, _, by decide, by decide, rfl, ?_⟩
    have := readNumber_reads 8 v.toUInt64.toNat Int64.ofNat
    rwa [ofNat_mod_qword] at this
  all_goals rw [ne_eq, not_not] at hwide
  · refine ⟨_, _, by decide, by decide, rfl, ?_⟩
    have := readNumber_reads 4 v.toUInt64.toNat fun n => (Int32.ofNat n).toInt64
    rwa [ofNat_mod_dword hwide] at this
  all_goals rw [Int64.lt_iff_toInt_lt] at hneg hbyte
  · refine ⟨_, _, by decide, by decide, rfl, ?_⟩
    have := readNumber_reads 1 v.toUInt64.toNat Int64.ofNat
    rwa [ofNat_mod_of_lt (by simpa using hneg) (by simpa using hbyte)] at this
  · rw [Int64.lt_iff_toInt_lt] at hword
    refine ⟨_, _, by decide, by decide, rfl, ?_⟩
    have := readNumber_reads 2 v.toUInt64.toNat Int64.ofNat
    rwa [ofNat_mod_of_lt (by simpa using hneg) (by simpa using hword)] at this
  · refine ⟨_, _, by decide, by decide, rfl, ?_⟩
    have := readNumber_reads 4 v.toUInt64.toNat fun n => (Int32.ofNat n).toInt64
    rwa [ofNat_mod_dword hwide] at this

/-! ## Tables as they come back -/

/-- The entries of the array part, without the holes. -/
def arrayPart (entries : Entries) (a : ℤ) : Entries :=
  (List.range a.toNat).filterMap fun i =>
    if (rawgeti entries (Int64.ofNat (i + 1))).isNil then none
    else some (.integer (Int64.ofNat (i + 1)), rawgeti entries (Int64.ofNat (i + 1)))

/-- The entries in the order in which they are written. -/
def reordered (entries : Entries) (a : ℤ) : Entries := arrayPart entries a ++ hashPart entries a

/-- What a value comes back as: each table is built anew from its entries in the order of
writing. -/
def rebuilt : ℕ → Value → Value
  | n + 1, .table entries rawlen =>
    let entries' := (reordered entries (arraySize rawlen)).map
      fun e => (rebuilt n e.1, rebuilt n e.2)
    .table entries' (firstBorder entries')
  | _, v => v

lemma rebuilt_table (n : ℕ) (entries : Entries) (rawlen : ℕ) :
    rebuilt (n + 1) (.table entries rawlen) =
      .table ((reordered entries (arraySize rawlen)).map fun e => (rebuilt n e.1, rebuilt n e.2))
        (firstBorder ((reordered entries (arraySize rawlen)).map
          fun e => (rebuilt n e.1, rebuilt n e.2))) := rfl

/-- All values but tables come back as they were. -/
lemma rebuilt_cases (n : ℕ) (v : Value) :
    rebuilt n v = v ∨ ∃ es len es' len', v = .table es len ∧ rebuilt n v = .table es' len' := by
  cases n with
  | zero => exact Or.inl (by cases v <;> rfl)
  | succ n =>
    cases v with
    | table es len => exact Or.inr ⟨es, len, _, _, rfl, rfl⟩
    | _ => exact Or.inl rfl

lemma rebuilt_isNil (n : ℕ) (v : Value) : (rebuilt n v).isNil = v.isNil := by
  rcases rebuilt_cases n v with heq | ⟨es, len, es', len', rfl, heq⟩
  · rw [heq]
  · rw [heq]
    rfl

lemma rebuilt_integer (n : ℕ) (x : Int64) : rebuilt n (.integer x) = .integer x := by
  rcases rebuilt_cases n (.integer x) with heq | ⟨es, len, es', len', heq, -⟩
  · exact heq
  · cases heq

lemma rebuilt_legalKey {n : ℕ} {k : Value} (h : k.LegalKey) : (rebuilt n k).LegalKey := by
  rcases rebuilt_cases n k with heq | ⟨es, len, es', len', -, heq⟩
  · rwa [heq]
  · rw [heq]
    trivial

/-- A key comes back different from the keys it was different from. -/
lemma rebuilt_rawEqual (n : ℕ) (k k' : Value) :
    (rebuilt n k).rawEqual (rebuilt n k') = k.rawEqual k' := by
  have htable : ∀ es len k, Value.rawEqual (.table es len) k = false ∧
      k.rawEqual (.table es len) = false := by
    intro es len k
    cases k <;> exact ⟨rfl, rfl⟩
  rcases rebuilt_cases n k with hk | ⟨es, len, es', len', rfl, hk⟩
  · rcases rebuilt_cases n k' with hk' | ⟨es, len, es', len', rfl, hk'⟩
    · rw [hk, hk']
    · rw [hk', (htable ..).2, (htable ..).2]
  · rw [hk, (htable ..).1, (htable ..).1]

/-- A legal key that is new in the table is set as it is. -/
lemma rawset_of_legalKey {entries : Entries} {k v : Value} (hk : k.LegalKey) :
    rawset entries k v = some (assign entries k v) := by
  cases k with
  | nil => exact hk.elim
  | number bits =>
    obtain ⟨hnan, hint⟩ := hk
    simp [rawset, hnan, hint]
  | boolean b => rfl
  | integer x => rfl
  | lightuserdata address => rfl
  | string bytes => rfl
  | table es len => rfl

lemma assign_of_new {entries : Entries} {k v : Value} (hv : v.isNil = false)
    (hnew : ∀ e ∈ entries, e.1.rawEqual k = false) :
    assign entries k v = entries ++ [(k, v)] := by
  have hany : (entries.any fun e => e.1.rawEqual k) = false := by
    rw [List.any_eq_false]
    intro e he
    rw [hnew e he]
    exact Bool.false_ne_true
  rw [assign, hv, hany]
  simp

lemma assign_nil_of_new {entries : Entries} {k v : Value} (hv : v.isNil = true)
    (hnew : ∀ e ∈ entries, e.1.rawEqual k = false) : assign entries k v = entries := by
  rw [assign, if_pos hv, List.filter_eq_self]
  intro e he
  rw [hnew e he]
  rfl

/-! ## The reordered entries are the entries -/

section Reordered

variable {entries : Entries} {a : ℤ}

lemma rawEqual_comm (k k' : Value) : k.rawEqual k' = k'.rawEqual k := by
  cases k <;> cases k' <;> first | rfl | exact decide_eq_decide.mpr eq_comm

/-- An integer key finds its own entry. -/
lemma rawgeti_of_mem (hpair : entries.Pairwise fun e e' => e.1.rawEqual e'.1 = false) {x : Int64}
    {v : Value} (h : (.integer x, v) ∈ entries) : rawgeti entries x = v := by
  induction entries with
  | nil => cases h
  | cons e es ih =>
    rw [List.pairwise_cons] at hpair
    rw [rawgeti, List.find?_cons]
    rcases List.mem_cons.mp h with rfl | h
    · have : (Value.integer x).rawEqual (.integer x) = true := by simp [Value.rawEqual_integer]
      rw [this]
      rfl
    · rw [hpair.1 _ h]
      exact ih hpair.2 h

lemma rawgeti_mem {x : Int64} (h : (rawgeti entries x).isNil = false) :
    (.integer x, rawgeti entries x) ∈ entries := by
  rw [rawgeti] at h ⊢
  cases hfind : entries.find? fun e => e.1.rawEqual (.integer x) with
  | none =>
    rw [hfind] at h
    cases h
  | some e =>
    have heq := List.find?_some hfind
    have hmem := List.mem_of_find?_eq_some hfind
    obtain ⟨k, v⟩ := e
    cases k with
    | integer y =>
      obtain rfl : y = x := by simpa [Value.rawEqual_integer] using heq
      exact hmem
    | _ => exact absurd heq Bool.false_ne_true

lemma mem_arrayPart {e : Value × Value} :
    e ∈ arrayPart entries a ↔ ∃ i < a.toNat, e.2.isNil = false ∧
      e = (.integer (Int64.ofNat (i + 1)), rawgeti entries (Int64.ofNat (i + 1))) := by
  rw [arrayPart, List.mem_filterMap]
  constructor
  · rintro ⟨i, hi, h⟩
    split at h
    · cases h
    · rename_i hnil
      cases h
      exact ⟨i, List.mem_range.mp hi, by simpa using hnil, rfl⟩
  · rintro ⟨i, hi, hnil, rfl⟩
    exact ⟨i, List.mem_range.mpr hi, by rw [if_neg (by simpa using hnil)]⟩

/-- The array part holds the entries with keys from 1 to the array size. -/
lemma arrayPart_perm (hpair : entries.Pairwise fun e e' => e.1.rawEqual e'.1 = false)
    (hvalue : ∀ e ∈ entries, e.2.isNil = false) (ha : a < 2 ^ 31) :
    (entries.filter fun e => inArray a e.1).Perm (arrayPart entries a) := by
  have hself : ∀ x, (Value.integer x).rawEqual (.integer x) = true :=
    fun x => by simp [Value.rawEqual_integer]
  refine (List.perm_ext_iff_of_nodup ?_ ?_).mpr fun e => ?_
  · refine (hpair.filter _).imp_of_mem ?_
    rintro ⟨k, v⟩ e' he - hne rfl
    cases k with
    | integer x => simp [hself] at hne
    | _ => simp [inArray] at he
  · have hrange : (List.range a.toNat).Pairwise fun i j => i < j ∧ j < 2 ^ 31 := by
      refine List.pairwise_lt_range.imp_of_mem fun {i j} _ hj hlt => ⟨hlt, ?_⟩
      rw [List.mem_range] at hj
      omega
    refine hrange.filterMap _ fun i j ⟨hlt, hj⟩ e he e' he' heq => ?_
    split at he
    · cases he
    · split at he'
      · cases he'
      · cases he
        cases he'
        have := congrArg Prod.fst heq
        simp only [Value.integer.injEq, ← Int64.toInt_inj] at this
        rw [Int64.toInt_ofNat_of_lt (by omega), Int64.toInt_ofNat_of_lt (by omega)] at this
        omega
  · rw [mem_arrayPart, List.mem_filter]
    constructor
    · rintro ⟨he, hin⟩
      obtain ⟨k, v⟩ := e
      cases k with
      | integer x =>
        simp only [inArray, Bool.and_eq_true, decide_eq_true_iff] at hin
        have hx : Int64.ofNat (x.toInt.toNat - 1 + 1) = x := by
          rw [← Int64.toInt_inj, Int64.toInt_ofNat_of_lt (by omega)]
          omega
        refine ⟨x.toInt.toNat - 1, by omega, hvalue _ he, ?_⟩
        rw [hx, rawgeti_of_mem hpair he]
      | _ => simp [inArray] at hin
    · rintro ⟨i, hi, hnil, rfl⟩
      refine ⟨rawgeti_mem hnil, ?_⟩
      simp only [inArray, Bool.and_eq_true, decide_eq_true_iff]
      rw [Int64.toInt_ofNat_of_lt (by omega)]
      omega

/-- Writing the array part first loses no entry and adds none. -/
lemma perm_reordered (hpair : entries.Pairwise fun e e' => e.1.rawEqual e'.1 = false)
    (hvalue : ∀ e ∈ entries, e.2.isNil = false) (ha : a < 2 ^ 31) :
    entries.Perm (reordered entries a) :=
  (List.filter_append_perm (fun e => inArray a e.1) entries).symm.trans
    ((arrayPart_perm hpair hvalue ha).append_right _)

end Reordered

/-! ## The loops of `unpackTable` -/

/-- **The array part**: the elements from index `i` on, each read by `one`, are set in the table
in front of them. -/
lemma arrayLoop_reads (one : ReadM Value) (enc : Value → Option (List UInt8)) {f : Value → Value}
    (hf : ∀ v, (f v).isNil = v.isNil) (values : ℕ → Value) :
    ∀ (n i : ℕ) (entries : Entries) (l : List UInt8), 1 ≤ i → i + n ≤ 2 ^ 31 →
      (∀ e ∈ entries, ∃ j, 1 ≤ j ∧ j < i ∧ e.1 = .integer (Int64.ofNat j)) →
      (∀ j < n, ∀ l', enc (values (i + j)) = some l' →
        ReadsBytes one l' (f (values (i + j)))) →
      joinBytes ((List.range n).map fun j => enc (values (i + j))) = some l →
      ReadsBytes (arrayLoop one n i entries) l (entries ++ (List.range n).filterMap fun j =>
        if (values (i + j)).isNil then none
        else some (.integer (Int64.ofNat (i + j)), f (values (i + j))))
  | 0, i, entries, l, _, _, _, _, hl => by
    obtain rfl := Option.some.inj hl
    rw [List.range_zero, List.filterMap_nil, List.append_nil]
    exact Reads.pure entries
  | n + 1, i, entries, l, hi, hlt, hkeys, hone, hl => by
    rw [List.range_succ_eq_map, List.map_cons, joinBytes, List.map_map] at hl
    obtain ⟨l₁, l₂, h₁, h₂, rfl⟩ := appendBytes_eq_some.mp hl
    rw [Nat.add_zero] at h₁
    -- no key below `i` equals `i`
    have hnew : ∀ e ∈ entries, e.1.rawEqual (.integer (Int64.ofNat i)) = false := by
      intro e he
      obtain ⟨j, hj, hji, hej⟩ := hkeys e he
      rw [hej, Value.rawEqual_integer, decide_eq_false_iff_not, ← Int64.toInt_inj,
        Int64.toInt_ofNat_of_lt (by omega), Int64.toInt_ofNat_of_lt (by omega)]
      omega
    have hone0 : ReadsBytes one l₁ (f (values i)) := hone 0 (by omega) l₁ h₁
    rw [arrayLoop]
    refine hone0.bind ?_
    have hstep : ∀ j, i + 1 + j = i + (j + 1) := fun j => by omega
    have ih := arrayLoop_reads one enc hf values n (i + 1)
      (assign entries (.integer (Int64.ofNat i)) (f (values i))) l₂ (by omega) (by omega)
    simp only [hstep] at ih
    rw [List.range_succ_eq_map, List.filterMap_cons, List.filterMap_map, Nat.add_zero]
    cases hnil : (values i).isNil with
    | true =>
      have hassign := assign_nil_of_new (v := f (values i)) (by rw [hf, hnil]) hnew
      rw [hassign] at ih
      rw [if_pos rfl, hassign]
      refine ih ?_ (fun j hj => hone (j + 1) (by omega)) h₂
      intro e he
      obtain ⟨j, hj, hji, hej⟩ := hkeys e he
      exact ⟨j, hj, by omega, hej⟩
    | false =>
      have hassign := assign_of_new (v := f (values i)) (by rw [hf, hnil]) hnew
      rw [hassign] at ih
      rw [if_neg Bool.false_ne_true, hassign]
      have := ih ?_ (fun j hj => hone (j + 1) (by omega)) h₂
      · rw [List.append_assoc] at this
        exact this
      · intro e he
        rcases List.mem_append.mp he with he | he
        · obtain ⟨j, hj, hji, hej⟩ := hkeys e he
          exact ⟨j, hj, by omega, hej⟩
        · obtain rfl := List.mem_singleton.mp he
          exact ⟨i, hi, by omega, rfl⟩

/-- **The hash part**: the entries up to the nil key are appended to the table. -/
lemma hashLoop_reads (one : ReadM Value) (enc : Value → Option (List UInt8)) {f : Value → Value}
    (hf : ∀ v, (f v).isNil = v.isNil) (hkey : ∀ k, Value.LegalKey k → (f k).LegalKey)
    (hnil : ReadsBytes one [UInt8.ofNat typeNil] .nil) :
    ∀ (es : Entries) (n : ℕ) (entries : Entries) (l : List UInt8), es.length < n →
      (∀ e ∈ es, e.1.LegalKey ∧ e.2.isNil = false) →
      (entries ++ es.map fun e => (f e.1, f e.2)).Pairwise
        (fun e e' => e.1.rawEqual e'.1 = false) →
      (∀ e ∈ es, ∀ l', (enc e.1 = some l' → ReadsBytes one l' (f e.1)) ∧
        (enc e.2 = some l' → ReadsBytes one l' (f e.2))) →
      joinBytes (es.map fun e => appendBytes (enc e.1) (enc e.2)) = some l →
      ReadsBytes (hashLoop one n entries) (l ++ [UInt8.ofNat typeNil])
        (entries ++ es.map fun e => (f e.1, f e.2))
  | [], n + 1, entries, l, _, _, _, _, hl => by
    obtain rfl := Option.some.inj hl
    rw [hashLoop, List.map_nil, List.append_nil]
    exact hnil.bind (Reads.pure entries)
  | e :: es, n + 1, entries, l, hn, hlegal, hpair, hone, hl => by
    rw [List.map_cons, joinBytes] at hl
    obtain ⟨l₁, l₂, h₁, h₂, rfl⟩ := appendBytes_eq_some.mp hl
    obtain ⟨k₁, k₂, hk₁, hk₂, rfl⟩ := appendBytes_eq_some.mp h₁
    obtain ⟨hlk, hnv⟩ := hlegal e (List.mem_cons_self ..)
    have hknil : (f e.1).isNil = false := by
      rw [hf]
      cases hk : e.1 with
      | nil =>
        rw [hk] at hlk
        exact hlk.elim
      | _ => rfl
    have hnew : ∀ e' ∈ entries, e'.1.rawEqual (f e.1) = false := by
      intro e' he'
      exact (List.pairwise_append.mp hpair).2.2 e' he' _ (List.mem_cons_self ..)
    rw [hashLoop, List.append_assoc, List.append_assoc]
    refine ((hone e (List.mem_cons_self ..) k₁).1 hk₁).bind ?_
    rw [hknil]
    simp only [Bool.false_eq_true, if_false]
    refine ((hone e (List.mem_cons_self ..) k₂).2 hk₂).bind ?_
    rw [rawset_of_legalKey (hkey _ hlk), assign_of_new (by rw [hf, hnv]) hnew]
    have hsplit : entries ++ (e :: es).map (fun e => (f e.1, f e.2)) =
        entries ++ [(f e.1, f e.2)] ++ es.map fun e => (f e.1, f e.2) := by
      rw [List.map_cons, List.append_assoc, List.singleton_append]
    rw [hsplit] at hpair ⊢
    rw [List.length_cons] at hn
    exact hashLoop_reads one enc hf hkey hnil es n _ l₂ (by omega)
      (fun e' he' => hlegal e' (List.mem_cons_of_mem e he')) hpair
      (fun e' he' => hone e' (List.mem_cons_of_mem e he')) h₂

/-! ## Items -/

lemma arraySize_lt (rawlen : ℕ) : arraySize rawlen < 2 ^ 31 := by
  have := Int.bmod_lt (x := rawlen) (m := 2 ^ 32) (Nat.two_pow_pos 32)
  unfold arraySize
  omega

/-- A reader of an item is a reader of its type byte, and then of what follows. -/
def ReadsItem (one : ReadM Value) (l : List UInt8) (v : Value) : Prop :=
  ∃ b payload, l = b :: payload ∧
    ReadsBytes (pushValue one (b.toNat &&& 7) (b.toNat >>> 3)) payload v

lemma ReadsItem.unpackOne {k : ℕ} {l : List UInt8} {v : Value}
    (h : ReadsItem (unpackOne k) l v) : ReadsBytes (unpackOne (k + 1)) l v := by
  obtain ⟨b, payload, rfl, hread⟩ := h
  exact (readType_reads b).bind hread

lemma ReadsItem.of_combineType {one : ReadM Value} {t c : ℕ} {payload : List UInt8} {v : Value}
    (ht : t < 8) (hc : c < 32) (h : ReadsBytes (pushValue one t c) payload v) :
    ReadsItem one (combineType t c :: payload) v := by
  refine ⟨_, _, rfl, ?_⟩
  rwa [(combineType_toNat ht hc).1, (combineType_toNat ht hc).2]

/-- **The size of the array part**, in the cookie or behind it. -/
lemma readArraySize_reads {a : ℤ} (ha : a < 2 ^ 31) {l : List UInt8}
    (h : encodeArraySize a = some l) : ∃ cookie payload, cookie < 32 ∧
      l = combineType typeTable cookie :: payload ∧
        ReadsBytes (readArraySize cookie) payload a := by
  unfold encodeArraySize at h
  split_ifs at h with hbig hneg
  · obtain rfl := Option.some.inj h
    refine ⟨_, _, by decide, rfl, ?_⟩
    obtain ⟨cookie, payload, hlt, hreal, henc, hread⟩ := getInteger_reads (Int64.ofInt a)
    obtain ⟨htype, hcookie⟩ := combineType_toNat (t := typeNumber) (by decide) hlt
    have hback : (Int64.ofInt a).toInt32.toInt = a := by
      rw [maxCookie] at hbig
      rw [Int64.toInt_toInt32, Int64.toInt_ofInt, Int64.size, Int.bmod_def, Int.bmod_def]
      split_ifs <;> omega
    rw [henc, readArraySize, if_pos rfl]
    refine (readType_reads _).bind ?_
    simp only [htype, hcookie, hreal, ne_eq, not_true_eq_false, or_self, if_false]
    have := hread.bind_pure fun x => x.toInt32.toInt
    rwa [hback] at this
  · obtain rfl := Option.some.inj h
    rw [maxCookie] at hbig
    refine ⟨a.toNat, [], by omega, rfl, ?_⟩
    have hcookie : a.toNat ≠ maxCookie - 1 := by
      rw [maxCookie]
      omega
    have hread : ReadsBytes (pure (a.toNat : ℤ)) [] (a.toNat : ℤ) := Reads.pure _
    rw [Int.toNat_of_nonneg (by omega)] at hread
    rw [readArraySize, if_neg hcookie, Int.toNat_of_nonneg (by omega)]
    exact hread

/-- What is joined has its part in the whole. -/
lemma exists_of_joinBytes {o : Option (List UInt8)} {os : List (Option (List UInt8))}
    {l : List UInt8} (hl : joinBytes os = some l) (ho : o ∈ os) :
    ∃ l', o = some l' ∧ l'.length ≤ l.length := by
  induction os generalizing l with
  | nil => cases ho
  | cons p os ih =>
    rw [joinBytes] at hl
    obtain ⟨l₁, l₂, h₁, h₂, rfl⟩ := appendBytes_eq_some.mp hl
    rw [List.length_append]
    rcases List.mem_cons.mp ho with rfl | ho
    · exact ⟨l₁, h₁, by omega⟩
    · obtain ⟨l', hl', hle⟩ := ih h₂ ho
      exact ⟨l', hl', by omega⟩

/-- Items of at least one byte are no more than their bytes. -/
lemma length_le_of_joinBytes_pos : ∀ {os : List (Option (List UInt8))} {l : List UInt8},
    joinBytes os = some l → (∀ o ∈ os, ∀ l', o = some l' → 1 ≤ l'.length) →
      os.length ≤ l.length
  | [], _, _, _ => Nat.zero_le _
  | o :: os, l, h, hpos => by
    rw [joinBytes] at h
    obtain ⟨l₁, l₂, h₁, h₂, rfl⟩ := appendBytes_eq_some.mp h
    have := hpos o (List.mem_cons_self ..) l₁ h₁
    have := length_le_of_joinBytes_pos h₂ fun o' ho' => hpos o' (List.mem_cons_of_mem o ho')
    rw [List.length_cons, List.length_append]
    omega

lemma encodeInteger_pos (x : Int64) : 1 ≤ (encodeInteger x).length := by
  obtain ⟨cookie, payload, -, -, henc, -⟩ := getInteger_reads x
  rw [henc, List.length_cons]
  omega

lemma encodeString_pos (bytes : List UInt8) : 1 ≤ (encodeString bytes).length := by
  unfold encodeString
  split_ifs <;> rw [List.length_cons] <;> omega

/-- Every item has a type byte. -/
lemma encode_pos {n : ℕ} {v : Value} {l : List UInt8} (h : encode n v = some l) :
    1 ≤ l.length := by
  cases v with
  | table entries rawlen =>
    cases n with
    | zero => cases h
    | succ n =>
      rw [encode_table] at h
      obtain ⟨l₁, l₂, -, h₂, rfl⟩ := appendBytes_eq_some.mp h
      obtain ⟨l₃, l₄, -, h₄, rfl⟩ := appendBytes_eq_some.mp h₂
      obtain rfl := Option.some.inj h₄
      simp only [List.length_append, List.length_cons]
      omega
  | integer x =>
    rw [encode_integer] at h
    exact Option.some.inj h ▸ encodeInteger_pos x
  | string bytes =>
    rw [encode_string] at h
    exact Option.some.inj h ▸ encodeString_pos bytes
  | _ =>
    simp only [encode_nil, encode_boolean, encode_number, encode_lightuserdata] at h
    obtain rfl := Option.some.inj h
    simp only [List.length_cons]
    omega

/-- **`unpack_table`** reads what `wb_table` wrote, when `unpack_one` reads the elements. -/
lemma unpackTable_reads {one : ReadM Value} {n : ℕ} {entries : Entries} {rawlen cookie : ℕ}
    {head larray lhash : List UInt8}
    (hpair : entries.Pairwise fun e e' => e.1.rawEqual e'.1 = false)
    (hlegal : ∀ e ∈ entries, e.1.LegalKey ∧ e.2.isNil = false)
    (hhead : ReadsBytes (readArraySize cookie) head (arraySize rawlen))
    (hnil : ReadsBytes one [UInt8.ofNat typeNil] .nil)
    (harray : joinBytes ((arrayValues entries (arraySize rawlen)).map (encode n)) = some larray)
    (hhash : joinBytes ((hashPart entries (arraySize rawlen)).map
      fun e => appendBytes (encode n e.1) (encode n e.2)) = some lhash)
    (hone : ∀ v l, (v = .nil ∨ ∃ e ∈ entries, v = e.1 ∨ v = e.2) → encode n v = some l →
      l.length ≤ larray.length + lhash.length → ReadsBytes one l (rebuilt n v)) :
    ReadsBytes (unpackTable one cookie) (head ++ (larray ++ (lhash ++ [UInt8.ofNat typeNil])))
      (rebuilt (n + 1) (.table entries rawlen)) := by
  have ha := arraySize_lt rawlen
  rw [rebuilt_table]
  generalize arraySize rawlen = a at *
  have hsub : ∀ e ∈ hashPart entries a, e ∈ entries := fun e he => (List.mem_filter.mp he).1
  rw [unpackTable]
  refine hhead.bind ?_
  -- the elements of the array part
  have hshift : ((arrayValues entries a).map (encode n)) =
      (List.range a.toNat).map fun j => encode n (rawgeti entries (Int64.ofNat (1 + j))) := by
    simp only [arrayValues, List.map_map, Function.comp_def, Nat.add_comm]
  rw [hshift] at harray
  have hread := arrayLoop_reads one (encode n) (rebuilt_isNil n)
    (fun i => rawgeti entries (Int64.ofNat i)) a.toNat 1 [] larray le_rfl (by omega)
    (List.forall_mem_nil _) ?_ harray
  swap
  · intro j hj l' hl'
    obtain ⟨l'', hl'', hlen⟩ := exists_of_joinBytes harray
      (List.mem_map_of_mem (List.mem_range.mpr hj))
    obtain rfl := Option.some.inj (hl'.symm.trans hl'')
    refine hone _ l' ?_ hl' (by omega)
    have hmem : rawgeti entries (Int64.ofNat (j + 1)) ∈ arrayValues entries a :=
      List.mem_map.mpr ⟨j, List.mem_range.mpr hj, rfl⟩
    rcases mem_arrayValues hmem with h | ⟨e, he, h⟩
    · exact Or.inl (by rw [Nat.add_comm 1 j, h])
    · exact Or.inr ⟨e, he, Or.inr (by rw [Nat.add_comm 1 j, h])⟩
  rw [List.nil_append] at hread
  have harrayPart : ((List.range a.toNat).filterMap fun j =>
      if (rawgeti entries (Int64.ofNat (1 + j))).isNil then none
      else some (Value.integer (Int64.ofNat (1 + j)),
        rebuilt n (rawgeti entries (Int64.ofNat (1 + j))))) =
      (arrayPart entries a).map fun e => (rebuilt n e.1, rebuilt n e.2) := by
    rw [arrayPart, List.map_filterMap]
    refine List.filterMap_congr fun j _ => ?_
    rw [Nat.add_comm 1 j]
    split
    · rfl
    · simp [rebuilt_integer]
  simp only [harrayPart] at hread
  refine hread.bind ?_
  -- the entries of the hash part; the bytes ahead bound their number
  have hentries : (reordered entries a).map (fun e => (rebuilt n e.1, rebuilt n e.2)) =
      ((arrayPart entries a).map fun e => (rebuilt n e.1, rebuilt n e.2)) ++
        (hashPart entries a).map fun e => (rebuilt n e.1, rebuilt n e.2) := by
    rw [reordered, List.map_append]
  have hpair' : ((reordered entries a).map fun e => (rebuilt n e.1, rebuilt n e.2)).Pairwise
      fun e e' => e.1.rawEqual e'.1 = false := by
    rw [List.pairwise_map]
    simp only [rebuilt_rawEqual]
    refine ((perm_reordered hpair (fun e he => (hlegal e he).2) ha).pairwise_iff ?_).mp hpair
    intro e e' h
    rwa [rawEqual_comm]
  rw [hentries] at hpair' ⊢
  intro rb rest hrb
  have hcount : (hashPart entries a).length < rb.len.toNat + 1 := by
    obtain ⟨-, -, -, hlen⟩ := hrb
    have := length_le_of_joinBytes_pos hhash ?_
    · rw [List.length_map] at this
      rw [hlen, List.length_append, List.length_append]
      omega
    · intro o ho l' hl'
      obtain ⟨e, -, rfl⟩ := List.mem_map.mp ho
      obtain ⟨l₁, l₂, h₁, -, rfl⟩ := appendBytes_eq_some.mp hl'
      have := encode_pos h₁
      rw [List.length_append]
      omega
  have hhashRead := hashLoop_reads one (encode n) (rebuilt_isNil n)
    (fun k hk => rebuilt_legalKey hk) hnil (hashPart entries a) (rb.len.toNat + 1) _ lhash hcount
    (fun e he => hlegal e (hsub e he)) hpair' ?_ hhash
  · exact (hhashRead.bind_pure fun es => Value.table es (firstBorder es)) rb rest hrb
  · intro e he l'
    obtain ⟨l'', hl'', hlen⟩ := exists_of_joinBytes hhash (List.mem_map_of_mem he)
    obtain ⟨l₁, l₂, h₁, h₂, rfl⟩ := appendBytes_eq_some.mp hl''
    rw [List.length_append] at hlen
    constructor
    · intro h
      obtain rfl := Option.some.inj (h₁.symm.trans h)
      exact hone e.1 l₁ (Or.inr ⟨e, hsub e he, Or.inl rfl⟩) h (by omega)
    · intro h
      obtain rfl := Option.some.inj (h₂.symm.trans h)
      exact hone e.2 l₂ (Or.inr ⟨e, hsub e he, Or.inr rfl⟩) h (by omega)

/-! ## Values -/

/-- **Strings**, in the three encodings of their length. -/
lemma encodeString_reads (one : ReadM Value) {bytes : List UInt8} (h : bytes.length < 2 ^ 31) :
    ReadsItem one (encodeString bytes) (.string bytes) := by
  have hstring : ∀ len : ℤ, len = bytes.length →
      ReadsBytes (do let bytes ← getBuffer len; return Value.string bytes) bytes
        (.string bytes) := by
    rintro len rfl
    exact (readBytes_reads bytes).bind_pure Value.string
  unfold encodeString
  split_ifs with hshort hmid
  · exact .of_combineType (by decide) hshort (hstring _ rfl)
  · refine .of_combineType (by decide) (by decide) ?_
    have hlen : (bytes.length : ℤ) = (ofLeBytes (leBytes 2 bytes.length) : ℕ) := by
      rw [ofLeBytes_leBytes_of_lt (by omega)]
    have hread := readBytes_reads (leBytes 2 bytes.length)
    rw [length_leBytes] at hread
    exact hread.bind (hstring _ hlen.symm)
  · refine .of_combineType (by decide) (by decide) ?_
    have hlen : (bytes.length : ℤ) =
        Int.bmod (ofLeBytes (leBytes 4 bytes.length) : ℕ) (2 ^ 32) := by
      rw [ofLeBytes_leBytes_of_lt (by omega), Int.bmod_def]
      split <;> omega
    have hread := readBytes_reads (leBytes 4 bytes.length)
    rw [length_leBytes] at hread
    exact hread.bind (hstring _ hlen.symm)

/-- The bit pattern of 64 bits comes back from its eight bytes. -/
lemma readWord_reads (w : UInt64) :
    ReadsBytes (do let bytes ← readBytes 8; return UInt64.ofNat (ofLeBytes bytes))
      (leBytes 8 w.toNat) w := by
  have h := readNumber_reads 8 w.toNat UInt64.ofNat
  have hlt : w.toNat < 256 ^ 8 := w.toNat_lt
  rw [Nat.mod_eq_of_lt hlt, UInt64.ofNat_toNat] at h
  exact h

lemma legal_string {n : ℕ} {bytes : List UInt8} (h : (Value.string bytes).Legal n) :
    bytes.length < 2 ^ 31 := by
  cases n <;> exact h

/-- A value that is not a table. -/
lemma encode_reads_atom {n k : ℕ} {v : Value} {l : List UInt8} (hlegal : v.Legal n)
    (h : encode n v = some l) (hv : ∀ entries rawlen, v ≠ .table entries rawlen) :
    ReadsItem (unpackOne k) l (rebuilt n v) := by
  have hback : rebuilt n v = v := by
    rcases rebuilt_cases n v with heq | ⟨es, len, es', len', heq, -⟩
    · exact heq
    · exact absurd heq (hv es len)
  rw [hback]
  cases v with
  | table entries rawlen => exact absurd rfl (hv entries rawlen)
  | nil =>
    rw [encode_nil] at h
    obtain rfl := Option.some.inj h
    exact .of_combineType (t := typeNil) (c := 0) (by decide) (by decide) (Reads.pure _)
  | boolean b =>
    rw [encode_boolean] at h
    obtain rfl := Option.some.inj h
    cases b
    · exact .of_combineType (by decide) (by decide) (Reads.pure _)
    · exact .of_combineType (by decide) (by decide) (Reads.pure _)
  | integer x =>
    rw [encode_integer] at h
    obtain rfl := Option.some.inj h
    obtain ⟨cookie, payload, hlt, hreal, henc, hread⟩ := getInteger_reads x
    rw [henc]
    refine .of_combineType (by decide) hlt ?_
    have := hread.bind_pure Value.integer
    simpa [pushValue, typeNumber, typeNil, typeBoolean, hreal] using this
  | number bits =>
    rw [encode_number] at h
    obtain rfl := Option.some.inj h
    exact .of_combineType (by decide) (by decide)
      ((readWord_reads bits).bind_pure Value.number)
  | lightuserdata address =>
    rw [encode_lightuserdata] at h
    obtain rfl := Option.some.inj h
    exact .of_combineType (t := typeUserdata) (c := 0) (by decide) (by decide)
      ((readWord_reads address).bind_pure Value.lightuserdata)
  | string bytes =>
    rw [encode_string] at h
    obtain rfl := Option.some.inj h
    exact encodeString_reads _ (legal_string hlegal)

/-- **`push_value`** reads what `pack_one` wrote. -/
theorem encode_reads {n k : ℕ} {v : Value} {l : List UInt8} (hlegal : v.Legal n)
    (h : encode n v = some l) (hk : l.length ≤ k + 1) :
    ReadsItem (unpackOne k) l (rebuilt n v) := by
  induction n generalizing k v l with
  | zero =>
    refine encode_reads_atom hlegal h ?_
    rintro entries rawlen rfl
    exact hlegal
  | succ n ih =>
    by_cases hv : ∃ entries rawlen, v = .table entries rawlen
    swap
    · exact encode_reads_atom hlegal h fun es len heq => hv ⟨es, len, heq⟩
    obtain ⟨entries, rawlen, rfl⟩ := hv
    rw [Value.Legal] at hlegal
    rw [encode_table] at h
    obtain ⟨l₁, l₂, h₁, h₂, rfl⟩ := appendBytes_eq_some.mp h
    obtain ⟨lsize, larray, hsize, harray, rfl⟩ := appendBytes_eq_some.mp h₁
    obtain ⟨lhash, lnil, hhash, hnil, rfl⟩ := appendBytes_eq_some.mp h₂
    obtain rfl := Option.some.inj hnil
    obtain ⟨cookie, head, hcookie, rfl, hhead⟩ := readArraySize_reads (arraySize_lt rawlen) hsize
    simp only [List.length_append, List.length_cons, List.length_nil] at hk
    -- the elements are shorter than the table, so the recursion has rounds left for them
    have hone : ∀ v l, (v = .nil ∨ ∃ e ∈ entries, v = e.1 ∨ v = e.2) → encode n v = some l →
        l.length ≤ larray.length + lhash.length → ReadsBytes (unpackOne k) l (rebuilt n v) := by
      intro v l hv hl hle
      have hlegalv : v.Legal n := by
        rcases hv with rfl | ⟨e, he, rfl | rfl⟩
        · simp [Value.Legal]
        · exact (hlegal.2 e he).2.2.1
        · exact (hlegal.2 e he).2.2.2
      obtain ⟨k', rfl⟩ : ∃ k', k = k' + 1 := Nat.exists_eq_succ_of_ne_zero (by omega)
      exact (ih hlegalv hl (by omega)).unpackOne
    have hnil : ReadsBytes (unpackOne k) [UInt8.ofNat typeNil] .nil := by
      obtain ⟨k', rfl⟩ : ∃ k', k = k' + 1 := Nat.exists_eq_succ_of_ne_zero (by omega)
      exact ReadsItem.unpackOne
        (.of_combineType (t := typeNil) (c := 0) (by decide) (by decide) (Reads.pure _))
    have htable := unpackTable_reads hlegal.1
      (fun e he => ⟨(hlegal.2 e he).1, (hlegal.2 e he).2.1⟩) hhead hnil harray hhash hone
    rw [List.cons_append, List.cons_append, List.append_assoc]
    exact .of_combineType (by decide) hcookie htable

end SkynetEureka.Seri
