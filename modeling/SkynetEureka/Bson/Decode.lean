import SkynetEureka.Bson.Value

/-!
# Decoding (lua-bson.c)

A reader is an offset in the document and a size. An int is checked against the size only, and a
size is compared as an int, so that a negative length passes and takes the reader back. What is read
and copied is checked against the document itself.
-/

namespace SkynetEureka.Bson

open Lib

/-- The errors that decoding raises. -/
inductive Raise where
  /-- "Invalid bson block (%d:%d)" -/
  | block (size sz : ℤ)
  /-- "Invalid bson block : cstring" -/
  | cstring
  /-- "Invalid document end" -/
  | documentEnd
  /-- "Invalid bson string , length = %d" -/
  | string (sz : ℤ)
  /-- "Invalid bson type : %d" -/
  | type (bt : UInt8)
deriving DecidableEq

/-- How decoding ends without a table. -/
inductive Stop where
  | raise (r : Raise)
  /-- a byte outside of the document is read -/
  | outside
  /-- a negative number of bytes is to be copied, which `luaL_addlstring` takes for a `size_t` -/
  | copy (len : ℤ)
  /-- the model gave the recursion too few rounds -/
  | endless
deriving DecidableEq

/-- `struct bson_reader` -/
structure Reader where
  ptr : ℤ
  size : ℤ
deriving DecidableEq

abbrev Read := StateT Reader (Except Stop)

variable (doc : List UInt8)

/-- The reader has gone `n` bytes on. -/
def Reader.skip (br : Reader) (n : ℤ) : Reader := ⟨br.ptr + n, wrap (br.size - n)⟩

/-- `check_reader` -/
def checkReader (sz : ℤ) : Read Unit := fun br =>
  if br.size < sz then .error (.raise (.block br.size sz)) else .ok ((), br)

/-- The `len` bytes at an offset. -/
def load (ptr len : ℤ) : Except Stop (List UInt8) :=
  if len < 0 then .error (.copy len)
  else if 0 ≤ ptr ∧ ptr + len ≤ doc.length then .ok ((doc.drop ptr.toNat).take len.toNat)
  else .error .outside

/-- The check, the bytes and the move of `read_byte`, `read_int32`, `read_int64`, `read_double` -/
def readNumber (k : ℕ) : Read ℕ := fun br =>
  if br.size < k then .error (.raise (.block br.size k))
  else (load doc br.ptr k).map fun bytes => (ofLeBytes bytes, br.skip k)

/-- `read_byte` -/
def readByte : Read UInt8 := do
  let n ← readNumber doc 1
  return UInt8.ofNat n

/-- `read_int32` -/
def readInt32 : Read ℤ := do
  let n ← readNumber doc 4
  return wrap n

/-- `read_bytes`: the offset of the bytes. -/
def readBytes (sz : ℤ) : Read ℤ := fun br =>
  if br.size < sz then .error (.raise (.block br.size sz)) else .ok (br.ptr, br.skip sz)

/-- The loop of `read_cstring` from `i` on, for the `n` bytes that are left. -/
def cstringLength (ptr : ℤ) : ℕ → ℕ → Except Stop ℕ
  | 0, _ => .error (.raise .cstring)
  | n + 1, i => do
    let bytes ← load doc (ptr + i) 1
    if bytes = [0] then return i else cstringLength ptr n (i + 1)

/-- `read_cstring`; the size is not negative, since a byte has been read before. -/
def readCstring : Read (List UInt8) := fun br => do
  let sz ← cstringLength doc br.ptr br.size.toNat 0
  let bytes ← load doc br.ptr sz
  return (bytes, br.skip (sz + 1))

/-- `make_object` of bytes of the document -/
def copyObject (tag : Tag) (ptr len : ℤ) : Read Value := fun br => do
  let bytes ← load doc ptr len
  return (.string (makeObject tag bytes), br)

/-- The offset of the reader. -/
def here : Read ℤ := fun br => .ok (br.ptr, br)

/-- The value of a field that is no document. -/
def readSimple : Tag → Read Value
  | .real => do
    let n ← readNumber doc 8
    return .number (UInt64.ofNat n)
  | .boolean => do
    let b ← readByte doc
    return .boolean (b ≠ 0)
  | .string => do
    let sz ← readInt32 doc
    if sz ≤ 0 then throw (.raise (.string sz))
    let ptr ← readBytes sz
    let bytes ← load doc ptr (sz - 1)
    return .string bytes
  | .binary => do
    let sz ← readInt32 doc
    let subtype ← readByte doc
    let ptr ← readBytes sz
    let bytes ← load doc ptr sz
    return .string (makeObject .binary (subtype :: bytes))
  | .objectid => do
    let ptr ← readBytes 12
    copyObject doc .objectid ptr 12
  | .date => do
    let n ← readNumber doc 8
    let date := Int.bmod n (2 ^ 64)
    return .string (makeObject .date (leBytes 4 (date.tdiv 1000 % 2 ^ 32).toNat))
  | .regex => do
    let r1 ← readCstring doc
    let r2 ← readCstring doc
    return .string (makeObject .regex (r1 ++ 0 :: r2 ++ [0]))
  | .int32 => do
    let sz ← readInt32 doc
    return .integer (Int64.ofInt sz)
  | .timestamp => do
    let inc ← readNumber doc 4
    let ts ← readNumber doc 4
    return .string (makeObject .timestamp (leBytes 4 inc ++ leBytes 4 ts))
  | .int64 => do
    let n ← readNumber doc 8
    return .integer (Int64.ofNat n)
  | .dbpointer => do
    let ptr ← here
    let sz ← readInt32 doc
    let _ ← readBytes (wrap (sz + 12))
    copyObject doc .dbpointer ptr (wrap (sz + 16))
  | .jscode => do
    let ptr ← here
    let sz ← readInt32 doc
    let _ ← readBytes sz
    copyObject doc .jscode ptr (wrap (sz + 4))
  | .symbol => do
    let ptr ← here
    let sz ← readInt32 doc
    let _ ← readBytes sz
    copyObject doc .symbol ptr (wrap (sz + 4))
  | .codews => do
    let ptr ← here
    let sz ← readInt32 doc
    let _ ← readBytes (wrap (sz - 4))
    copyObject doc .codews ptr sz
  -- `null`, `minkey`, `maxkey`; the documents are not read here
  | tag => return .string (makeObject tag [])

/-- The header of a document, up to its last byte: the reader of its fields. -/
def openDict : Read Reader := do
  let sz ← readInt32 doc
  let ptr ← readBytes (wrap (sz - 5))
  let last ← readByte doc
  if last ≠ 0 then throw (.raise .documentEnd)
  return ⟨ptr, wrap (sz - 5)⟩

/-- `isspace` -/
def isSpace (b : UInt8) : Bool := b = 32 || (9 ≤ b && b ≤ 13)

/-- The digits that a text begins with, as a number. -/
def digits (n : ℕ) : List UInt8 → ℕ
  | [] => n
  | b :: bs => if 48 ≤ b ∧ b ≤ 57 then digits (10 * n + (b.toNat - 48)) bs else n

/-- `strtol(key, NULL, 10)` -/
def strtol (key : List UInt8) : ℤ :=
  match key.dropWhile isSpace with
  | 45 :: bs => max (-2 ^ 63) (-(digits 0 bs : ℤ))
  | 43 :: bs => min (2 ^ 63 - 1) (digits 0 bs : ℤ)
  | bs => min (2 ^ 63 - 1) (digits 0 bs : ℤ)

/-- The key that a field of a document, or of an array, gets in the table. -/
def keyOf (array : Bool) (key : List UInt8) : Key :=
  if array then .integer (Int64.ofInt (wrap (strtol key + 1))) else .string key

/-- The type and the key of a field. -/
def readHeader : Read (UInt8 × List UInt8) := do
  let bt ← readByte doc
  let key ← readCstring doc
  return (bt, key)

/-- The value of a field; `fields` reads the fields of a document. -/
def readValue (fields : Bool → Reader → Except Stop Entries) (bt : UInt8) : Read Value :=
  match Tag.ofByte bt with
  | none => throw (.raise (.type bt))
  | some tag =>
    match tag.nested with
    | none => readSimple doc tag
    | some array => do
      let inner ← openDict doc
      let entries ← fields array inner
      return .table entries (firstBorder entries)

/-- The loop of `unpack_dict` -/
def unpackFields : ℕ → Bool → Entries → Reader → Except Stop Entries
  | 0, _, _, _ => .error .endless
  | fuel + 1, array, entries, t =>
    if t.size = 0 then .ok entries
    else do
      let ((bt, key), t) ← readHeader doc t
      let (v, t) ← readValue doc (fun array t => unpackFields fuel array [] t) bt t
      unpackFields fuel array (assign entries (keyOf array key) v) t

/-- `ldecode`; each field takes at least two bytes. -/
def decode : Except Stop Value := do
  let len := wrap (ofLeBytes (doc.take 4))
  let (inner, _) ← openDict doc ⟨0, len⟩
  let entries ← unpackFields doc (doc.length + 1) false [] inner
  return .table entries (firstBorder entries)

end SkynetEureka.Bson
