import SkynetEureka.Seri.Pack

/-!
# What packing writes

`encode n v` are the bytes of a value nested at most `n` deep, as the format defines them;
`size` is their number. `packOne` writes them wherever the borders of the blocks fall, unless they
would not fit in an `int` (or the array size of a table is negative as an `int`), and `seri`
collects them.
-/

namespace SkynetEureka.Seri

open Lib

/-! ## The bytes of the format -/

/-- An integer: its type byte and the bytes of the narrowest width. -/
def encodeInteger (v : Int64) : List UInt8 :=
  if v = 0 then [combineType typeNumber typeNumberZero]
  else if v ≠ v.toInt32.toInt64 then
    combineType typeNumber typeNumberQword :: leBytes 8 v.toUInt64.toNat
  else if v < 0 then combineType typeNumber typeNumberDword :: leBytes 4 v.toUInt64.toNat
  else if v < 0x100 then combineType typeNumber typeNumberByte :: leBytes 1 v.toUInt64.toNat
  else if v < 0x10000 then combineType typeNumber typeNumberWord :: leBytes 2 v.toUInt64.toNat
  else combineType typeNumber typeNumberDword :: leBytes 4 v.toUInt64.toNat

/-- A string: its length, in one of three widths, and its bytes. -/
def encodeString (str : List UInt8) : List UInt8 :=
  if str.length < maxCookie then combineType typeShortString str.length :: str
  else if str.length < 0x10000 then
    combineType typeLongString 2 :: (leBytes 2 str.length ++ str)
  else combineType typeLongString 4 :: (leBytes 4 str.length ++ str)

/-- The head of a table: the size of its array part. -/
def encodeArraySize (a : ℤ) : Option (List UInt8) :=
  if maxCookie - 1 ≤ a then
    some (combineType typeTable (maxCookie - 1) :: encodeInteger (Int64.ofInt a))
  else if a < 0 then none
  else some [combineType typeTable a.toNat]

/-- The entries behind the array part. -/
def hashPart (entries : Entries) (a : ℤ) : Entries := entries.filter fun e => !inArray a e.1

/-- The elements of the array part, holes included. -/
def arrayValues (entries : Entries) (a : ℤ) : List Value :=
  (List.range a.toNat).map fun i => rawgeti entries (Int64.ofNat (i + 1))

/-- A value nested at most `n` deep; `none` if a table in it has a negative array size. -/
def encode : ℕ → Value → Option (List UInt8)
  | _, .nil => some [UInt8.ofNat typeNil]
  | _, .boolean b => some [combineType typeBoolean (if b then 1 else 0)]
  | _, .integer x => some (encodeInteger x)
  | _, .number bits => some (combineType typeNumber typeNumberReal :: leBytes 8 bits.toNat)
  | _, .lightuserdata address => some (UInt8.ofNat typeUserdata :: leBytes 8 address.toNat)
  | _, .string bytes => some (encodeString bytes)
  | 0, .table .. => none
  | n + 1, .table entries rawlen =>
    let a := arraySize rawlen
    appendBytes
      (appendBytes (encodeArraySize a) (joinBytes ((arrayValues entries a).map (encode n))))
      (appendBytes
        (joinBytes ((hashPart entries a).map fun e => appendBytes (encode n e.1) (encode n e.2)))
        (some [UInt8.ofNat typeNil]))

lemma encode_nil (n : ℕ) : encode n .nil = some [UInt8.ofNat typeNil] := by
  cases n <;> rfl

lemma encode_boolean (n : ℕ) (b : Bool) :
    encode n (.boolean b) = some [combineType typeBoolean (if b then 1 else 0)] := by
  cases n <;> rfl

lemma encode_integer (n : ℕ) (x : Int64) : encode n (.integer x) = some (encodeInteger x) := by
  cases n <;> rfl

lemma encode_number (n : ℕ) (bits : UInt64) : encode n (.number bits) =
    some (combineType typeNumber typeNumberReal :: leBytes 8 bits.toNat) := by
  cases n <;> rfl

lemma encode_lightuserdata (n : ℕ) (address : UInt64) : encode n (.lightuserdata address) =
    some (UInt8.ofNat typeUserdata :: leBytes 8 address.toNat) := by
  cases n <;> rfl

lemma encode_string (n : ℕ) (bytes : List UInt8) :
    encode n (.string bytes) = some (encodeString bytes) := by
  cases n <;> rfl

lemma encode_table (n : ℕ) (entries : Entries) (rawlen : ℕ) :
    encode (n + 1) (.table entries rawlen) =
      appendBytes
        (appendBytes (encodeArraySize (arraySize rawlen))
          (joinBytes ((arrayValues entries (arraySize rawlen)).map (encode n))))
        (appendBytes
          (joinBytes ((hashPart entries (arraySize rawlen)).map
            fun e => appendBytes (encode n e.1) (encode n e.2)))
          (some [UInt8.ofNat typeNil])) := rfl

/-! ## `wbPush` -/

lemma WriteBlock.length_bytes (b : WriteBlock) : b.bytes.length = b.len := by
  rw [bytes, List.length_append, b.len_eq]

lemma WriteBlock.bytes_next (b : WriteBlock) (h : b.current.length = blockSize) :
    (b.next h).bytes = b.bytes := by
  simp [bytes, next]

@[simp] lemma WriteBlock.len_next (b : WriteBlock) (h : b.current.length = blockSize) :
    (b.next h).len = b.len := rfl

lemma WriteBlock.of_copy_ok {b b' : WriteBlock} {buffer : List UInt8}
    {h : b.current.length + buffer.length ≤ blockSize} (heq : b.copy buffer h = .ok b') :
    b'.bytes = b.bytes ++ buffer ∧ b'.len = b.len + buffer.length ∧
      b'.current.length = b.current.length + buffer.length ∧ b.len + buffer.length < 2 ^ 31 := by
  rw [copy] at heq
  split at heq
  · rename_i hlt
    cases heq
    exact ⟨by simp [bytes], rfl, List.length_append, hlt⟩
  · cases heq

lemma WriteBlock.of_copy_error {b : WriteBlock} {buffer : List UInt8} {e : PackFault}
    {h : b.current.length + buffer.length ≤ blockSize} (heq : b.copy buffer h = .error e) :
    2 ^ 31 ≤ b.len + buffer.length := by
  rw [copy] at heq
  split at heq
  · cases heq
  · omega

/-- The block borders do not show: what is pushed is appended, as long as the length is an
`int`. -/
lemma wbPushAgain_spec (b : WriteBlock) (buffer : List UInt8)
    (hptr : b.current.length < blockSize) :
    (∃ b', wbPushAgain b buffer hptr = .ok b' ∧ b'.bytes = b.bytes ++ buffer ∧
      b.len + buffer.length < 2 ^ 31) ∨
    (∃ e, wbPushAgain b buffer hptr = .error e) ∧ 2 ^ 31 ≤ b.len + buffer.length := by
  rw [wbPushAgain]
  split
  · rename_i h
    cases hcopy : b.copy buffer h with
    | ok b' =>
      obtain ⟨hbytes, -, -, hlt⟩ := WriteBlock.of_copy_ok hcopy
      exact Or.inl ⟨b', rfl, hbytes, hlt⟩
    | error e => exact Or.inr ⟨⟨e, rfl⟩, WriteBlock.of_copy_error hcopy⟩
  · rename_i h
    have htake := List.length_take_le' (blockSize - b.current.length) buffer
    have hsplit := List.take_append_drop (blockSize - b.current.length) buffer
    have hlen : buffer.length = (buffer.take (blockSize - b.current.length)).length +
        (buffer.drop (blockSize - b.current.length)).length := by
      rw [← List.length_append, hsplit]
    simp only
    split
    · -- the piece that fills the block overflows already
      rename_i e hcopy
      have := WriteBlock.of_copy_error hcopy
      exact Or.inr ⟨⟨e, rfl⟩, by omega⟩
    · rename_i b' hcopy
      obtain ⟨hbytes, hblen, hfull, hlt⟩ := WriteBlock.of_copy_ok hcopy
      have hnext : b'.current.length = blockSize := by
        rw [hfull, List.length_take]
        omega
      have ih := wbPushAgain_spec (b'.next hnext) (buffer.drop (blockSize - b.current.length))
        (Nat.zero_lt_of_lt hptr)
      rw [WriteBlock.len_next, WriteBlock.bytes_next, hbytes, List.append_assoc, hsplit] at ih
      rcases ih with ⟨c, hc, hcbytes, hclt⟩ | ⟨he, hle⟩
      · exact Or.inl ⟨c, hc, hcbytes, by omega⟩
      · exact Or.inr ⟨he, by omega⟩
termination_by buffer.length
decreasing_by
  rw [List.length_drop]
  omega

/-- What the writers of this file do: they write the bytes of `o`, below the limit of an `int`. -/
abbrev WritesBytes (f : WriteBlock → Except PackFault WriteBlock) (o : Option (List UInt8)) :
    Prop :=
  Writes WriteBlock.bytes (2 ^ 31) f o

/-- **`wb_push`** appends its bytes. -/
lemma wbPush_writes (buffer : List UInt8) :
    WritesBytes (fun wb => wbPush wb buffer) (some buffer) := by
  intro b _
  have hspec : (∃ b', wbPush b buffer = .ok b' ∧ b'.bytes = b.bytes ++ buffer ∧
      b.len + buffer.length < 2 ^ 31) ∨
      (∃ e, wbPush b buffer = .error e) ∧ 2 ^ 31 ≤ b.len + buffer.length := by
    rw [wbPush]
    split
    · rename_i h
      have := wbPushAgain_spec (b.next h) buffer (Nat.zero_lt_succ 127)
      rwa [WriteBlock.len_next, WriteBlock.bytes_next] at this
    · exact wbPushAgain_spec b buffer _
  rw [b.length_bytes]
  rcases hspec with ⟨b', hb', hbytes, hlt⟩ | ⟨he, hle⟩
  · refine ⟨?_, fun h => ?_⟩
    · rintro l ⟨⟩ -
      exact ⟨b', hb', hbytes⟩
    · have := h buffer rfl
      omega
  · refine ⟨?_, fun _ => he⟩
    rintro l ⟨⟩ hlt
    omega

/-! ## The items -/

/-- The length cookie of a string and its bytes are pushed one after the other. -/
lemma wbPush_two_writes (l l' : List UInt8) :
    WritesBytes (fun wb => wbPush wb l >>= fun wb => wbPush wb l') (some (l ++ l')) :=
  (wbPush_writes l).bind (wbPush_writes l')

/-- **`wb_integer`** -/
lemma wbInteger_writes (v : Int64) :
    WritesBytes (fun wb => wbInteger wb v) (some (encodeInteger v)) := by
  unfold wbInteger encodeInteger
  split_ifs
  · exact wbPush_writes _
  all_goals exact wbPush_two_writes _ _

/-- The head of a long string. -/
lemma wbLongStringHead_writes (len : ℕ) :
    WritesBytes (fun wb => wbLongStringHead wb len)
      (some (if len < 0x10000 then combineType typeLongString 2 :: leBytes 2 len
        else combineType typeLongString 4 :: leBytes 4 len)) := by
  unfold wbLongStringHead
  split_ifs
  all_goals exact wbPush_two_writes _ _

/-- **`wb_string`** -/
lemma wbString_writes (str : List UInt8) :
    WritesBytes (fun wb => wbString wb str) (some (encodeString str)) := by
  unfold wbString encodeString
  by_cases hshort : str.length < maxCookie
  · simp only [hshort, if_true]
    by_cases hpos : 0 < str.length
    · simp only [hpos, if_true]
      exact wbPush_two_writes _ _
    · have hnil : str = [] := List.length_eq_zero_iff.mp (by omega)
      simp only [hnil, List.length_nil, Nat.lt_irrefl, if_false]
      exact (wbPush_writes _).bind Writes.ok
  · simp only [hshort, if_false]
    have hhead := (wbLongStringHead_writes str.length).bind (wbPush_writes str)
    split_ifs with hmid
    · rwa [if_pos hmid] at hhead
    · rwa [if_neg hmid] at hhead

/-- A loop that writes nothing for some of its items. -/
lemma joinBytes_map_ite {ι : Type} (c : ι → Bool) (p : ι → Option (List UInt8)) :
    ∀ xs : List ι, joinBytes (xs.map fun x => if c x then some [] else p x) =
      joinBytes ((xs.filter fun x => !c x).map p)
  | [] => rfl
  | x :: xs => by
    rw [List.map_cons, joinBytes, joinBytes_map_ite c p xs, List.filter_cons]
    by_cases hx : c x
    · rw [if_pos hx, if_neg (by simp [hx])]
      cases joinBytes ((xs.filter fun x => !c x).map p) <;> rfl
    · rw [if_neg hx, if_pos (by simp [hx]), List.map_cons, joinBytes]

/-- The head of a table. -/
lemma wbArraySize_writes (a : ℤ) :
    WritesBytes (fun wb => wbArraySize wb a) (encodeArraySize a) := by
  unfold wbArraySize encodeArraySize
  split_ifs
  · exact (wbPush_writes _).bind (wbInteger_writes _)
  · exact Writes.error
  · exact wbPush_writes _

/-- **`wb_table`** -/
lemma wbTable_writes {one : WriteBlock → Value → Except PackFault WriteBlock}
    {enc : Value → Option (List UInt8)} (entries : Entries) (rawlen : ℕ)
    (harray : ∀ v ∈ arrayValues entries (arraySize rawlen),
      WritesBytes (fun wb => one wb v) (enc v))
    (hhash : ∀ e ∈ hashPart entries (arraySize rawlen),
      WritesBytes (fun wb => one wb e.1) (enc e.1) ∧
        WritesBytes (fun wb => one wb e.2) (enc e.2)) :
    WritesBytes (fun wb => wbTable one wb entries rawlen)
      (appendBytes
        (appendBytes (encodeArraySize (arraySize rawlen))
          (joinBytes ((arrayValues entries (arraySize rawlen)).map enc)))
        (appendBytes
          (joinBytes ((hashPart entries (arraySize rawlen)).map
            fun e => appendBytes (enc e.1) (enc e.2)))
          (some [UInt8.ofNat typeNil]))) := by
  unfold wbTable
  generalize arraySize rawlen = a at *
  refine Writes.bind (Writes.bind (wbArraySize_writes a) ?_) (Writes.bind ?_ (wbPush_writes _))
  · rw [arrayValues, List.map_map]
    refine Writes.foldlM _ fun i hi => harray _ ?_
    exact List.mem_map_of_mem hi
  · rw [hashPart, ← joinBytes_map_ite]
    refine Writes.foldlM _ fun e he => ?_
    by_cases hin : inArray a e.1
    · simp only [hin, if_true]
      exact Writes.ok
    · simp only [hin, if_false, Bool.false_eq_true]
      obtain ⟨hk, hv⟩ := hhash e (List.mem_filter.mpr ⟨he, by simp [hin]⟩)
      exact hk.bind hv

/-- Every element of the array part is an entry's value, or nil. -/
lemma mem_arrayValues {entries : Entries} {a : ℤ} {v : Value} (h : v ∈ arrayValues entries a) :
    v = .nil ∨ ∃ e ∈ entries, e.2 = v := by
  obtain ⟨i, -, rfl⟩ := List.mem_map.mp h
  rw [rawgeti]
  cases hfind : entries.find? fun e => e.1.rawEqual (.integer (Int64.ofNat (i + 1))) with
  | none => exact Or.inl rfl
  | some e => exact Or.inr ⟨e, List.mem_of_find?_eq_some hfind, rfl⟩

/-- **`pack_one`** writes the bytes of a value whose nesting is within its depth. -/
theorem packOne_writes : ∀ n v, v.Legal n →
    WritesBytes (fun wb => packOne (n + 1) wb v) (encode n v)
  | n, .nil, _ => by rw [encode_nil]; exact wbPush_writes _
  | n, .boolean b, _ => by rw [encode_boolean]; exact wbPush_writes _
  | n, .integer x, _ => by rw [encode_integer]; exact wbInteger_writes x
  | n, .number bits, _ => by rw [encode_number]; exact wbPush_two_writes _ _
  | n, .lightuserdata address, _ => by rw [encode_lightuserdata]; exact wbPush_two_writes _ _
  | n, .string bytes, _ => by rw [encode_string]; exact wbString_writes bytes
  | n + 1, .table entries rawlen, h => by
    rw [Value.Legal] at h
    rw [encode_table]
    refine wbTable_writes entries rawlen (fun v hv => ?_) fun e he => ?_
    · rcases mem_arrayValues hv with rfl | ⟨e, he, rfl⟩
      · exact packOne_writes n .nil (by simp [Value.Legal])
      · exact packOne_writes n e.2 (h.2 e he).2.2.2
    · have := h.2 e (List.mem_filter.mp he).1
      exact ⟨packOne_writes n e.1 this.2.2.1, packOne_writes n e.2 this.2.2.2⟩

/-! ## `seri` -/

/-- The bytes of several values. -/
def encodeAll (values : List Value) : Option (List UInt8) :=
  joinBytes (values.map (encode maxDepth))

/-- **`pack_from`** writes one value after the other. -/
theorem packFrom_writes {values : List Value} (h : ∀ v ∈ values, v.Legal maxDepth) :
    WritesBytes (fun wb => packFrom wb values) (encodeAll values) :=
  Writes.foldlM values fun v hv => packOne_writes maxDepth v (h v hv)

/-- The loop of `seri` copies the written part of the chain. -/
lemma seriLoop_eq : ∀ (full : List (List UInt8)) (current : List UInt8),
    (∀ b ∈ full, b.length = blockSize) → current.length ≤ blockSize →
      seriLoop (full ++ [current]) (full.flatten.length + current.length) =
        .ok (full.flatten ++ current)
  | [], current, _, hle => by
    rw [List.flatten_nil, List.length_nil, Nat.zero_add, List.nil_append, List.nil_append]
    cases hlen : current.length with
    | zero =>
      rw [List.length_eq_zero_iff.mp hlen, seriLoop]
    | succ n =>
      rw [seriLoop, ← hlen, List.take_length]
      split
      · rename_i hfull
        have hzero : current.length - blockSize = 0 := by omega
        rw [hzero, seriLoop, List.take_of_length_le hle]
        simp [bind, Except.bind]
      · rfl
  | b :: full, current, hfull, hle => by
    have hb := hfull b (List.mem_cons_self ..)
    have ih := seriLoop_eq full current (fun c hc => hfull c (List.mem_cons_of_mem b hc)) hle
    have hsize : 0 < blockSize := by decide
    rw [List.flatten_cons, List.length_append, hb, List.cons_append]
    obtain ⟨m, hm⟩ : ∃ m, blockSize + full.flatten.length + current.length = m + 1 :=
      Nat.exists_eq_succ_of_ne_zero (by omega)
    rw [hm, seriLoop, if_pos (by omega),
      show m + 1 - blockSize = full.flatten.length + current.length by omega, ih,
      List.take_of_length_le hb.le, List.append_assoc]
    rfl

/-- **`seri`** hands out what has been written, and its length. -/
theorem seri_eq (wb : WriteBlock) : seri wb = .ok (wb.bytes, wb.len) := by
  rw [seri, wb.len_eq, seriLoop_eq wb.full wb.current wb.full_length wb.current_le, ← wb.len_eq]
  rfl

/-- **`luaseri_pack`** hands out the bytes of the values, or fails. -/
theorem luaseriPack_cases {values : List Value} (h : ∀ v ∈ values, v.Legal maxDepth) :
    (∃ l wb, encodeAll values = some l ∧ l.length < 2 ^ 31 ∧ packFrom wbInit values = .ok wb ∧
      wb.bytes = l ∧ luaseriPack values = .ok (l, l.length)) ∨
    (∃ e, luaseriPack values = .error e) ∧
      ∀ l, encodeAll values = some l → 2 ^ 31 ≤ l.length := by
  obtain ⟨hok, herr⟩ := packFrom_writes h wbInit (by decide)
  have hinit : wbInit.bytes = [] := rfl
  simp only [hinit, List.length_nil, Nat.zero_add, List.nil_append] at hok herr
  by_cases hfit : ∃ l, encodeAll values = some l ∧ l.length < 2 ^ 31
  · obtain ⟨l, hl, hlt⟩ := hfit
    obtain ⟨wb, hwb, hbytes⟩ := hok l hl hlt
    refine Or.inl ⟨l, wb, hl, hlt, hwb, hbytes, ?_⟩
    rw [luaseriPack, hwb, ← hbytes, wb.length_bytes]
    exact seri_eq wb
  · have hbig : ∀ l, encodeAll values = some l → 2 ^ 31 ≤ l.length :=
      fun l hl => Nat.le_of_not_lt fun hlt => hfit ⟨l, hl, hlt⟩
    obtain ⟨e, he⟩ := herr hbig
    refine Or.inr ⟨⟨e, ?_⟩, hbig⟩
    rw [luaseriPack, he]
    rfl

end SkynetEureka.Seri
