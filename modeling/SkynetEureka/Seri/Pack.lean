import SkynetEureka.Lib.Bytes
import SkynetEureka.Seri.Value

/-!
# Packing (`lua-seri.c`)

The writer fills a chain of blocks. What lies behind `ptr` in the last block has never been
written, so that a block is the list of the bytes written to it. Numbers are copied as they lie in
memory, on a little-endian host.
-/

namespace SkynetEureka.Seri

open Lib

/-! ## The format -/

def typeNil : ℕ := 0
def typeBoolean : ℕ := 1
def typeNumber : ℕ := 2
def typeNumberZero : ℕ := 0
def typeNumberByte : ℕ := 1
def typeNumberWord : ℕ := 2
def typeNumberDword : ℕ := 4
def typeNumberQword : ℕ := 6
def typeNumberReal : ℕ := 8
def typeUserdata : ℕ := 3
def typeShortString : ℕ := 4
def typeLongString : ℕ := 5
def typeTable : ℕ := 6

/-- `MAX_COOKIE` -/
def maxCookie : ℕ := 32

/-- `BLOCK_SIZE` -/
def blockSize : ℕ := 128

/-- `MAX_DEPTH` -/
def maxDepth : ℕ := 32

/-- `COMBINE_TYPE`, stored into a `uint8_t` -/
def combineType (t v : ℕ) : UInt8 := UInt8.ofNat (t ||| v <<< 3)

/-- The ways in which packing fails. -/
inductive PackFault where
  /-- `luaL_error(L, "serialize can't pack too depth table")` -/
  | tooDeep
  /-- the `int` `wb->len` overflows -/
  | lenOverflow
  /-- `COMBINE_TYPE` shifts a negative `array_size` -/
  | negativeShift
  /-- `seri` follows the chain of blocks beyond its end -/
  | noBlock
deriving DecidableEq

/-! ## The blocks -/

/-- `struct write_block`: the blocks before `current`, and what has been written to `current`. -/
structure WriteBlock where
  full : List (List UInt8)
  current : List UInt8
  len : ℕ
  full_length : ∀ b ∈ full, b.length = blockSize
  current_le : current.length ≤ blockSize
  len_eq : len = full.flatten.length + current.length

/-- `wb_init` -/
def wbInit : WriteBlock where
  full := []
  current := []
  len := 0
  full_length := fun _ h => nomatch h
  current_le := Nat.zero_le _
  len_eq := rfl

/-- All bytes written. -/
def WriteBlock.bytes (b : WriteBlock) : List UInt8 := b.full.flatten ++ b.current

/-- `memcpy` to the current block, where the bytes fit, and `b->len += sz`. -/
def WriteBlock.copy (b : WriteBlock) (buffer : List UInt8)
    (h : b.current.length + buffer.length ≤ blockSize) : Except PackFault WriteBlock :=
  if b.len + buffer.length < 2 ^ 31 then
    .ok { b with
      current := b.current ++ buffer
      len := b.len + buffer.length
      current_le := by rw [List.length_append]; exact h
      len_eq := by rw [List.length_append, b.len_eq, Nat.add_assoc] }
  else .error .lenOverflow

/-- `b->current = b->current->next = blk_alloc(); b->ptr = 0` -/
def WriteBlock.next (b : WriteBlock) (h : b.current.length = blockSize) : WriteBlock where
  full := b.full ++ [b.current]
  current := []
  len := b.len
  full_length := by
    intro c hc
    rcases List.mem_append.mp hc with hc | hc
    · exact b.full_length c hc
    · rw [List.mem_singleton.mp hc, h]
  current_le := Nat.zero_le _
  len_eq := by simp [b.len_eq]

/-- `wb_push` from the comparison of `sz` with the room on; a block that is filled is followed by
a new one. -/
def wbPushAgain (b : WriteBlock) (buffer : List UInt8) (hptr : b.current.length < blockSize) :
    Except PackFault WriteBlock :=
  if h : b.current.length + buffer.length ≤ blockSize then b.copy buffer h
  else
    let copy := blockSize - b.current.length
    match hb : b.copy (buffer.take copy) (by
      have := List.length_take_le copy buffer
      omega) with
    | .error e => .error e
    | .ok b' =>
      wbPushAgain (b'.next (by
          rw [WriteBlock.copy] at hb
          split at hb
          · cases hb
            rw [List.length_append, List.length_take]
            omega
          · cases hb))
        (buffer.drop copy) (Nat.zero_lt_of_lt hptr)
termination_by buffer.length
decreasing_by
  rw [List.length_drop]
  omega

/-- `wb_push` -/
def wbPush (b : WriteBlock) (buffer : List UInt8) : Except PackFault WriteBlock :=
  if h : b.current.length = blockSize then wbPushAgain (b.next h) buffer (Nat.zero_lt_succ 127)
  else wbPushAgain b buffer (Nat.lt_of_le_of_ne b.current_le h)

/-! ## The items -/

/-- `wb_nil` -/
def wbNil (wb : WriteBlock) : Except PackFault WriteBlock := wbPush wb [UInt8.ofNat typeNil]

/-- `wb_boolean` -/
def wbBoolean (wb : WriteBlock) (boolean : Bool) : Except PackFault WriteBlock :=
  wbPush wb [combineType typeBoolean (if boolean then 1 else 0)]

/-- `wb_integer` -/
def wbInteger (wb : WriteBlock) (v : Int64) : Except PackFault WriteBlock :=
  if v = 0 then wbPush wb [combineType typeNumber typeNumberZero]
  else if v ≠ v.toInt32.toInt64 then do
    let wb ← wbPush wb [combineType typeNumber typeNumberQword]
    wbPush wb (leBytes 8 v.toUInt64.toNat)
  else if v < 0 then do
    let wb ← wbPush wb [combineType typeNumber typeNumberDword]
    wbPush wb (leBytes 4 v.toUInt64.toNat)
  else if v < 0x100 then do
    let wb ← wbPush wb [combineType typeNumber typeNumberByte]
    wbPush wb (leBytes 1 v.toUInt64.toNat)
  else if v < 0x10000 then do
    let wb ← wbPush wb [combineType typeNumber typeNumberWord]
    wbPush wb (leBytes 2 v.toUInt64.toNat)
  else do
    let wb ← wbPush wb [combineType typeNumber typeNumberDword]
    wbPush wb (leBytes 4 v.toUInt64.toNat)

/-- `wb_real` -/
def wbReal (wb : WriteBlock) (bits : UInt64) : Except PackFault WriteBlock := do
  let wb ← wbPush wb [combineType typeNumber typeNumberReal]
  wbPush wb (leBytes 8 bits.toNat)

/-- `wb_pointer` -/
def wbPointer (wb : WriteBlock) (address : UInt64) : Except PackFault WriteBlock := do
  let wb ← wbPush wb [UInt8.ofNat typeUserdata]
  wbPush wb (leBytes 8 address.toNat)

/-- The head of a long string in `wb_string`. -/
def wbLongStringHead (wb : WriteBlock) (len : ℕ) : Except PackFault WriteBlock :=
  if len < 0x10000 then do
    let wb ← wbPush wb [combineType typeLongString 2]
    wbPush wb (leBytes 2 len)
  else do
    let wb ← wbPush wb [combineType typeLongString 4]
    wbPush wb (leBytes 4 len)

/-- `wb_string`, for a length that an `int` holds -/
def wbString (wb : WriteBlock) (str : List UInt8) : Except PackFault WriteBlock :=
  if str.length < maxCookie then do
    let wb ← wbPush wb [combineType typeShortString str.length]
    if 0 < str.length then wbPush wb str else .ok wb
  else do
    let wb ← wbLongStringHead wb str.length
    wbPush wb str

/-- `int array_size = lua_rawlen(L, index)` -/
def arraySize (rawlen : ℕ) : ℤ := Int.bmod rawlen (2 ^ 32)

/-- The head of `wb_table_array`. -/
def wbArraySize (wb : WriteBlock) (arraySize : ℤ) : Except PackFault WriteBlock :=
  if maxCookie - 1 ≤ arraySize then do
    let wb ← wbPush wb [combineType typeTable (maxCookie - 1)]
    wbInteger wb (Int64.ofInt arraySize)
  else if arraySize < 0 then .error .negativeShift
  else wbPush wb [combineType typeTable arraySize.toNat]

/-- `wb_table_array`; `one` is `pack_one` at the depth of the elements. -/
def wbTableArray (one : WriteBlock → Value → Except PackFault WriteBlock) (wb : WriteBlock)
    (entries : Entries) (arraySize : ℤ) : Except PackFault WriteBlock := do
  let wb ← wbArraySize wb arraySize
  (List.range arraySize.toNat).foldlM
    (fun wb i => one wb (rawgeti entries (Int64.ofNat (i + 1)))) wb

/-- The test of `wb_table_hash`: the key is in the array part. -/
def inArray (arraySize : ℤ) : Value → Bool
  | .integer x => 0 < x.toInt && x.toInt ≤ arraySize
  | _ => false

/-- `wb_table_hash` -/
def wbTableHash (one : WriteBlock → Value → Except PackFault WriteBlock) (wb : WriteBlock)
    (entries : Entries) (arraySize : ℤ) : Except PackFault WriteBlock := do
  let wb ← entries.foldlM (fun wb e =>
    if inArray arraySize e.1 then .ok wb
    else do
      let wb ← one wb e.1
      one wb e.2) wb
  wbNil wb

/-- `wb_table`, without `__pairs` -/
def wbTable (one : WriteBlock → Value → Except PackFault WriteBlock) (wb : WriteBlock)
    (entries : Entries) (rawlen : ℕ) : Except PackFault WriteBlock := do
  let wb ← wbTableArray one wb entries (arraySize rawlen)
  wbTableHash one wb entries (arraySize rawlen)

/-- `pack_one`. The first argument counts the levels left: it is `MAX_DEPTH + 1 - depth`, and 0
for a depth above `MAX_DEPTH`. -/
def packOne : ℕ → WriteBlock → Value → Except PackFault WriteBlock
  | 0, _, _ => .error .tooDeep
  | left + 1, wb, value =>
    match value with
    | .nil => wbNil wb
    | .boolean b => wbBoolean wb b
    | .integer x => wbInteger wb x
    | .number bits => wbReal wb bits
    | .lightuserdata address => wbPointer wb address
    | .string bytes => wbString wb bytes
    | .table entries rawlen => wbTable (packOne left) wb entries rawlen

/-- `pack_from`: the values on the stack, each at depth 0 -/
def packFrom (wb : WriteBlock) (values : List Value) : Except PackFault WriteBlock :=
  values.foldlM (packOne (maxDepth + 1)) wb

/-- The loop of `seri` over the chain of blocks. -/
def seriLoop : List (List UInt8) → ℕ → Except PackFault (List UInt8)
  | _, 0 => .ok []
  | [], _ + 1 => .error .noBlock
  | b :: rest, len + 1 =>
    if blockSize ≤ len + 1 then do
      let buffer ← seriLoop rest (len + 1 - blockSize)
      .ok (b.take blockSize ++ buffer)
    else .ok (b.take (len + 1))

/-- `seri`: the buffer and the length it reports -/
def seri (wb : WriteBlock) : Except PackFault (List UInt8 × ℕ) := do
  let buffer ← seriLoop (wb.full ++ [wb.current]) wb.len
  .ok (buffer, wb.len)

/-- `luaseri_pack` -/
def luaseriPack (values : List Value) : Except PackFault (List UInt8 × ℕ) := do
  let wb ← packFrom wbInit values
  seri wb

end SkynetEureka.Seri
