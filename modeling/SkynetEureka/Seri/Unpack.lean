import SkynetEureka.Seri.Pack

/-!
# Unpacking (`lua-seri.c`)

The reader keeps a pointer into the buffer and the number of bytes behind it; `rb_read` checks
the number and moves the pointer, and what is then copied is checked against the buffer itself.
-/

namespace SkynetEureka.Seri

open Lib

/-- The ways in which unpacking ends without a result. -/
inductive UnpackError where
  /-- `luaL_error(L, "Invalid serialize stream %d (line:%d)", len, line)` -/
  | invalidStream
  /-- `luaL_error(L, "deserialize null pointer")` -/
  | nullPointer
  /-- the error of `lua_rawset` for a NaN key -/
  | tableIndex
  /-- bytes are copied from outside the buffer, or a negative number of them -/
  | outOfBounds
  /-- the model gave the recursion too few rounds -/
  | outOfFuel
deriving DecidableEq

/-- `struct read_block` -/
structure ReadBlock where
  buffer : List UInt8
  len : ℤ
  ptr : ℤ

abbrev ReadM := StateT ReadBlock (Except UnpackError)

/-- `rball_init` -/
def rballInit (buffer : List UInt8) (size : ℤ) : ReadBlock := ⟨buffer, size, 0⟩

/-- `rb_read`: the offset of the bytes, if so many are left. -/
def rbRead (sz : ℤ) : ReadM (Option ℤ) := fun rb =>
  if rb.len < sz then .ok (none, rb)
  else .ok (some rb.ptr, { rb with ptr := rb.ptr + sz, len := rb.len - sz })

/-- `memcpy` of `sz` bytes at an offset of the buffer -/
def load (ptr sz : ℤ) : ReadM (List UInt8) := fun rb =>
  if 0 ≤ ptr ∧ 0 ≤ sz ∧ ptr + sz ≤ rb.buffer.length then
    .ok ((rb.buffer.drop ptr.toNat).take sz.toNat, rb)
  else .error .outOfBounds

/-- `rb_read`, the test for `NULL` and the `memcpy` of its result -/
def readBytes (sz : ℤ) : ReadM (List UInt8) := do
  match ← rbRead sz with
  | none => throw .invalidStream
  | some ptr => load ptr sz

/-- The type byte of an item. -/
def readType : ReadM ℕ := do
  let bytes ← readBytes 1
  return ofLeBytes bytes

/-- `get_integer` -/
def getInteger (cookie : ℕ) : ReadM Int64 :=
  if cookie = typeNumberZero then return 0
  else if cookie = typeNumberByte then do
    let n ← readBytes 1
    return Int64.ofNat (ofLeBytes n)
  else if cookie = typeNumberWord then do
    let n ← readBytes 2
    return Int64.ofNat (ofLeBytes n)
  else if cookie = typeNumberDword then do
    let n ← readBytes 4
    return (Int32.ofNat (ofLeBytes n)).toInt64
  else if cookie = typeNumberQword then do
    let n ← readBytes 8
    return Int64.ofNat (ofLeBytes n)
  else throw .invalidStream

/-- `get_real` -/
def getReal : ReadM UInt64 := do
  let n ← readBytes 8
  return UInt64.ofNat (ofLeBytes n)

/-- `get_pointer` -/
def getPointer : ReadM UInt64 := do
  let v ← readBytes 8
  return UInt64.ofNat (ofLeBytes v)

/-- `get_buffer` -/
def getBuffer (len : ℤ) : ReadM (List UInt8) := readBytes len

/-- The array part: the next `n` elements, from index `i` on. -/
def arrayLoop (one : ReadM Value) : ℕ → ℕ → Entries → ReadM Entries
  | 0, _, entries => return entries
  | n + 1, i, entries => do
    let v ← one
    arrayLoop one n (i + 1) (assign entries (.integer (Int64.ofNat i)) v)

/-- The hash part: key and value until a nil key, at most `n` times. -/
def hashLoop (one : ReadM Value) : ℕ → Entries → ReadM Entries
  | 0, _ => throw .outOfFuel
  | n + 1, entries => do
    let k ← one
    if k.isNil then return entries
    else do
      let v ← one
      match rawset entries k v with
      | none => throw .tableIndex
      | some entries => hashLoop one n entries

/-- The head of `unpack_table`: `array_size`, or the integer that follows. -/
def readArraySize (arraySize : ℕ) : ReadM ℤ :=
  if arraySize = maxCookie - 1 then do
    let type ← readType
    let cookie := type >>> 3
    if type &&& 7 ≠ typeNumber ∨ cookie = typeNumberReal then throw .invalidStream
    else do
      let x ← getInteger cookie
      return x.toInt32.toInt
  else return arraySize

/-- `unpack_table`; `one` is `unpack_one`. Each round of the second loop reads a byte. -/
def unpackTable (one : ReadM Value) (arraySize : ℕ) : ReadM Value := do
  let arraySize ← readArraySize arraySize
  let entries ← arrayLoop one arraySize.toNat 1 []
  let rb ← get
  let entries ← hashLoop one (rb.len.toNat + 1) entries
  return .table entries (firstBorder entries)

/-- `push_value`; `one` is `unpack_one`. -/
def pushValue (one : ReadM Value) (type cookie : ℕ) : ReadM Value :=
  if type = typeNil then return .nil
  else if type = typeBoolean then return .boolean (cookie ≠ 0)
  else if type = typeNumber then
    if cookie = typeNumberReal then do
      let bits ← getReal
      return .number bits
    else do
      let x ← getInteger cookie
      return .integer x
  else if type = typeUserdata then do
    let address ← getPointer
    return .lightuserdata address
  else if type = typeShortString then do
    let bytes ← getBuffer cookie
    return .string bytes
  else if type = typeLongString then
    if cookie = 2 then do
      let n ← readBytes 2
      let bytes ← getBuffer (ofLeBytes n)
      return .string bytes
    else if cookie ≠ 4 then throw .invalidStream
    else do
      let n ← readBytes 4
      -- the `uint32_t` is passed as an `int`
      let bytes ← getBuffer (Int.bmod (ofLeBytes n) (2 ^ 32))
      return .string bytes
  else if type = typeTable then unpackTable one cookie
  else throw .invalidStream

/-- `unpack_one`, nested at most `n` deep. Each level reads a byte. -/
def unpackOne : ℕ → ReadM Value
  | 0 => throw .outOfFuel
  | n + 1 => do
    let type ← readType
    pushValue (unpackOne n) (type &&& 7) (type >>> 3)

/-- The loop of `luaseri_unpack`, at most `n` rounds. -/
def unpackLoop (fuel : ℕ) : ℕ → List Value → ReadM (List Value)
  | 0, _ => throw .outOfFuel
  | n + 1, values => do
    match ← rbRead 1 with
    | none => return values
    | some ptr =>
      let bytes ← load ptr 1
      let type := ofLeBytes bytes
      let v ← pushValue (unpackOne fuel) (type &&& 7) (type >>> 3)
      unpackLoop fuel n (values ++ [v])

/-- `luaseri_unpack` of a light userdata (`none`: a null pointer) and a length -/
def luaseriUnpack (buffer : Option (List UInt8)) (len : ℤ) : Except UnpackError (List Value) :=
  if len = 0 then .ok []
  else
    match buffer with
    | none => .error .nullPointer
    | some buffer => do
      let (values, _) ← unpackLoop len.toNat (len.toNat + 1) [] (rballInit buffer len)
      .ok values

end SkynetEureka.Seri
