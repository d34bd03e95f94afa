import SkynetEureka.Sproto.Decode

/-!
# Encoding (sproto.c)

`sproto_encode` asks its callback for each field of a type and writes the answers to a buffer: an
index of the fields in front, and behind it the data that the index has no room for. The part of the
buffer that is in use is a list of bytes, and `size` is what is left of it. The host is little endian.
-/

namespace SkynetEureka.Sproto

open Lib

/-- What a callback does: it returns `SPROTO_CB_NIL`, `SPROTO_CB_NOARRAY` or `SPROTO_CB_ERROR`, or it
writes bytes to `args.value` and returns their number. -/
inductive Reply where
  | nil
  | noarray
  | error
  | value (l : List UInt8)
deriving DecidableEq, Repr

/-- A callback of `sproto_encode`, with the state that it works on. -/
abbrev EncodeCallback (σ : Type) := SprotoArg → σ → Reply × σ

section

variable {σ : Type}

/-- `cb(args)`; the callback may write `length` bytes. -/
def ask (cb : EncodeCallback σ) (args : SprotoArg) (length index : ℤ) (s : σ) : Checked (Reply × σ) :=
  match cb { args with length := length, index := index } s with
  | (.value l, s) => if l.length ≤ length then .ok (.value l, s) else .error (.fault .write)
  | r => .ok r

/-! ## Single values -/

/-- `fill_size`: the length in front of the bytes. -/
def fillSize (l : List UInt8) : List UInt8 := leBytes 4 l.length ++ l

/-- `encode_integer`. -/
def encodeInteger (v : ℕ) (size : ℤ) : Checked (List UInt8) :=
  if size < 8 then .error .fail else .ok (fillSize (leBytes 4 v))

/-- `encode_uint64`. -/
def encodeUint64 (v : ℕ) (size : ℤ) : Checked (List UInt8) :=
  if size < 12 then .error .fail else .ok (fillSize (leBytes 8 v))

/-- `encode_object`, which returns 0 without a value. -/
def encodeObject (cb : EncodeCallback σ) (args : SprotoArg) (size : ℤ) (s : σ) :
    Checked (List UInt8 × σ) :=
  if size < 4 then .error .fail
  else do
    match ← ask cb args (size - 4) 0 s with
    | (.value l, s) => .ok (fillSize l, s)
    | (.nil, s) => .ok ([], s)
    | _ => .error .fail

/-! ## Arrays of integers -/

/-- `uint32_to_uint64`: the high half of a number, which repeats its sign. -/
def signBytes (v : ℕ) : List UInt8 := List.replicate 4 (if v < 2 ^ 31 then 0 else 0xff)

/-- Replace the bytes of the buffer from offset `i` on. -/
def put (buffer : List UInt8) (i : ℕ) (l : List UInt8) : List UInt8 :=
  buffer.take i ++ l ++ buffer.drop (i + l.length)

/-- The loop that rearranges the first `n` integers of the buffer, the last of them first: the four bytes
of each move to where its eight bytes begin. -/
def rearrange : ℕ → List UInt8 → List UInt8
  | 0, buffer => buffer
  | i + 1, buffer =>
    let v := (buffer.drop (i * 4)).take 4
    rearrange i (put buffer (i * 8) (v ++ signBytes (ofLeBytes v)))

/-- The variables of `encode_integer_array`; `buffer` is what is written behind the header byte. -/
structure IntegerArray where
  buffer : List UInt8
  size : ℤ
  intlen : ℕ
  index : ℕ

/-- An integer of 32 bits, in the length that the array has. -/
def IntegerArray.addInt32 (a : IntegerArray) (v : ℕ) : IntegerArray :=
  { a with buffer := a.buffer ++ leBytes 4 v ++ (if a.intlen = 8 then signBytes v else []),
           size := a.size - a.intlen, index := a.index + 1 }

/-- From here on the array has integers of 64 bits. What is behind the integers so far is not read before
it is written. -/
def IntegerArray.widen (a : IntegerArray) : IntegerArray :=
  if a.intlen = 4 then
    { a with buffer := rearrange (a.index - 1) (a.buffer ++ List.replicate ((a.index - 1) * 4) 0),
             size := a.size - (a.index - 1 : ℕ) * 4, intlen := 8 }
  else a

/-- An integer of 64 bits. -/
def IntegerArray.addInt64 (a : IntegerArray) (v : ℕ) : IntegerArray :=
  { a with buffer := a.buffer ++ leBytes 8 v, size := a.size - a.intlen, index := a.index + 1 }

/-- What `encode_integer_array` writes in the end: nothing for an empty array. -/
def IntegerArray.content (a : IntegerArray) : List UInt8 :=
  if a.buffer = [] then [] else UInt8.ofNat a.intlen :: a.buffer

/-- The loop of `encode_integer_array`, in which each round takes at least four bytes of the buffer;
`none` when the callback says that there is no array. -/
def encodeIntegers (cb : EncodeCallback σ) (args : SprotoArg) :
    ℕ → IntegerArray → σ → Checked (Option (List UInt8) × σ)
  | 0, _, _ => .error (.fault .endless)
  | fuel + 1, a, s => do
    match ← ask cb args 8 a.index s with
    | (.nil, s) => .ok (some a.content, s)
    | (.noarray, s) => .ok (none, s)
    | (.error, _) => .error .fail
    | (.value l, s) =>
      if a.size < 8 then .error .fail
      else if l.length = 4 then encodeIntegers cb args fuel (a.addInt32 (ofLeBytes l)) s
      else if l.length ≠ 8 then .error .fail
      else if a.widen.size < 8 then .error .fail
      else encodeIntegers cb args fuel (a.widen.addInt64 (ofLeBytes l)) s

/-- `encode_integer_array`. -/
def encodeIntegerArray (cb : EncodeCallback σ) (args : SprotoArg) (size : ℤ) (s : σ) :
    Checked (Option (List UInt8) × σ) :=
  if size < 1 then .error .fail
  else encodeIntegers cb args (size.toNat + 1) { buffer := [], size := size - 1, intlen := 4, index := 1 } s

/-! ## Other arrays -/

/-- The loop of `encode_array` for booleans; `v` is an int that is 0 at first. -/
def encodeBooleans (cb : EncodeCallback σ) (args : SprotoArg) :
    ℕ → List UInt8 → ℤ → ℕ → σ → Checked (Option (List UInt8) × σ)
  | 0, _, _, _, _ => .error (.fault .endless)
  | fuel + 1, buffer, size, index, s => do
    match ← ask cb args 4 index s with
    | (.nil, s) => .ok (some buffer, s)
    | (.noarray, s) => .ok (none, s)
    | (.error, _) => .error .fail
    | (.value l, s) =>
      if size < 1 then .error .fail
      else
        encodeBooleans cb args fuel (buffer ++ [if ofLeBytes l ≠ 0 then 1 else 0]) (size - 1) (index + 1) s

/-- The loop of `encode_array` for strings and structs. -/
def encodeObjects (cb : EncodeCallback σ) (args : SprotoArg) :
    ℕ → List UInt8 → ℤ → ℕ → σ → Checked (Option (List UInt8) × σ)
  | 0, _, _, _, _ => .error (.fault .endless)
  | fuel + 1, buffer, size, index, s =>
    if size < 4 then .error .fail
    else do
      match ← ask cb args (size - 4) index s with
      | (.nil, s) => .ok (some buffer, s)
      | (.noarray, s) => .ok (none, s)
      | (.error, _) => .error .fail
      | (.value l, s) =>
        encodeObjects cb args fuel (buffer ++ fillSize l) (size - 4 - l.length) (index + 1) s

/-- The `switch` of `encode_array`. -/
def encodeElements (cb : EncodeCallback σ) (args : SprotoArg) (size : ℤ) (s : σ) :
    Checked (Option (List UInt8) × σ) :=
  match args.type with
  | .tinteger => encodeIntegerArray cb args size s
  | .tboolean => encodeBooleans cb args (size.toNat + 1) [] size 1 s
  | _ => encodeObjects cb args (size.toNat + 1) [] size 1 s

/-- `encode_array`, which returns 0 when there is no array. -/
def encodeArray (cb : EncodeCallback σ) (args : SprotoArg) (size : ℤ) (s : σ) :
    Checked (List UInt8 × σ) :=
  if size < 4 then .error .fail
  else do
    match ← encodeElements cb args (size - 4) s with
    | (some content, s) => .ok (fillSize content, s)
    | (none, s) => .ok ([], s)

/-! ## sproto_encode -/

/-- The word of a record and the data of the field, none of both without a value. -/
abbrev FieldBytes := ℕ × List UInt8

/-- The `switch` for an integer or a boolean; `none` where `sproto_encode` returns 0. -/
def encodeNumber (cb : EncodeCallback σ) (args : SprotoArg) (size : ℤ) (s : σ) :
    Checked (Option FieldBytes × σ) := do
  match ← ask cb args 8 0 s with
  | (.nil, s) => .ok (some (0, []), s)
  | (.noarray, s) => .ok (none, s)
  | (.error, _) => .error .fail
  | (.value l, s) =>
    if l.length = 4 then
      if ofLeBytes l < 0x7fff then .ok (some ((ofLeBytes l + 1) * 2, []), s)
      else do
        let d ← encodeInteger (ofLeBytes l) size
        .ok (some (0, d), s)
    else if l.length = 8 then do
      let d ← encodeUint64 (ofLeBytes l) size
      .ok (some (0, d), s)
    else .error .fail

/-- The first half of the loop body of `sproto_encode`. -/
def encodeValue (cb : EncodeCallback σ) (f : Field) (size : ℤ) (s : σ) :
    Checked (Option FieldBytes × σ) :=
  if f.array then do
    let (d, s) ← encodeArray cb f.args size s
    .ok (some (0, d), s)
  else
    match f.type with
    | .tinteger | .tboolean => encodeNumber cb f.args size s
    | _ => do
      let (d, s) ← encodeObject cb f.args size s
      .ok (some (0, d), s)

/-- The variables of `sproto_encode`; `records` are the words of the index, `index` of them. -/
structure EncodeState where
  lasttag : ℤ
  size : ℤ
  records : List ℕ
  data : List UInt8

/-- The word of a record that skips `tag` tags. -/
def skipWord (tag : ℤ) : List ℕ := if tag > 0 then [((tag - 1) * 2 + 1).toNat] else []

/-- The second half of the loop body: the record of a field. The buffer has room for `maxn` records in
front of the data. -/
def addRecord (maxn : ℕ) (f : Field) (v : FieldBytes) (e : EncodeState) : Checked EncodeState :=
  if v = (0, []) then .ok e
  else if f.tag - e.lasttag - 1 > 0 ∧ (f.tag - e.lasttag - 2) * 2 + 1 > 0xffff then .error .fail
  else
    let records := e.records ++ skipWord (f.tag - e.lasttag - 1) ++ [v.1]
    if records.length > maxn then .error (.fault .write)
    else .ok { lasttag := f.tag, size := e.size - v.2.length, records := records, data := e.data ++ v.2 }

/-- The loop of `sproto_encode`. -/
def encodeFields (maxn : ℕ) (cb : EncodeCallback σ) :
    List Field → EncodeState → σ → Checked (Option EncodeState × σ)
  | [], e, s => .ok (some e, s)
  | f :: fs, e, s => do
    let (v, s) ← encodeValue cb f e.size s
    match v with
    | none => .ok (none, s)
    | some v => do
      let e ← addRecord maxn f v e
      encodeFields maxn cb fs e s

/-- The message; the data is moved behind the records. -/
def EncodeState.message (e : EncodeState) : List UInt8 :=
  leBytes 2 e.records.length ++ e.records.flatMap (leBytes 2) ++ e.data

/-- `sproto_encode(st, buffer, size, cb, ud)`: the bytes whose number it returns. -/
def sprotoEncode (st : SprotoType) (size : ℕ) (cb : EncodeCallback σ) (s : σ) :
    Checked (List UInt8 × σ) :=
  if size < 2 + st.maxn * 2 then .error .fail
  else do
    let (e, s) ← encodeFields st.maxn cb st.f
      { lasttag := -1, size := size - (2 + st.maxn * 2 : ℕ), records := [], data := [] } s
    match e with
    | none => .ok ([], s)
    | some e => .ok (e.message, s)

end

end SkynetEureka.Sproto
