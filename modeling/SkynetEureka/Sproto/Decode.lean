import SkynetEureka.Sproto.Schema

/-!
# Decoding (sproto.c)

`sproto_decode` calls back with each field that it finds in the bytes `data`. What the callback
gets is an integer, or a pointer into `data` with a length.
-/

namespace SkynetEureka.Sproto

open Lib

/-- What `args.value` points to. -/
inductive ArgValue where
  | null
  | word (v : UInt64)
  /-- a place in the bytes that are decoded -/
  | data (offset : ℕ)
deriving DecidableEq, Repr

/-- `struct sproto_arg`, apart from `ud`. -/
structure SprotoArg where
  tagname : List UInt8
  tagid : ℕ
  type : FieldType
  subtype : Option ℕ
  value : ArgValue
  length : ℤ
  /-- from 1 on in an array, -1 for an empty array -/
  index : ℤ
  mainindex : Option ℕ
  extra : ℤ
deriving DecidableEq, Repr

/-- A callback, with the state that it works on. -/
abbrev Callback (σ : Type) := SprotoArg → σ → Checked (ℤ × σ)

/-- A 32 bit number as an int. -/
def toInt32 (n : ℕ) : ℤ := if n < 2 ^ 31 then n else n - 2 ^ 32

/-- `expand64`: the sign is extended. -/
def expand64 (v : ℕ) : UInt64 := UInt64.ofNat (if v < 2 ^ 31 then v else v + (2 ^ 64 - 2 ^ 32))

section

variable {σ : Type}

/-- A call whose result is not looked at. -/
def call (cb : Callback σ) (args : SprotoArg) (s : σ) : Checked σ := do
  let (_, s) ← cb args s
  .ok s

/-- A call whose result has to be 0. -/
def callChecked (cb : Callback σ) (args : SprotoArg) (s : σ) : Checked σ := do
  let (r, s) ← cb args s
  if r ≠ 0 then .error .fail else .ok s

/-- The call for a number. -/
def SprotoArg.withWord (args : SprotoArg) (v : UInt64) (index : ℤ) : SprotoArg :=
  { args with value := .word v, length := 8, index := index }

/-- The call for bytes. -/
def SprotoArg.withData (args : SprotoArg) (offset : ℕ) (length index : ℤ) : SprotoArg :=
  { args with value := .data offset, length := length, index := index }

/-- `decode_array_object`; each round takes at least four bytes. -/
def decodeArrayObject (cb : Callback σ) (args : SprotoArg) (data : List UInt8) :
    ℕ → ℕ → ℤ → ℤ → σ → Checked σ
  | fuel, stream, sz, index, s =>
    if sz > 0 then
      match fuel with
      | 0 => .error (.fault .endless)
      | fuel + 1 =>
        if sz < 4 then .error .fail
        else do
          let hsz ← todword data stream
          if hsz > (sz - 4).toNat then .error .fail
          else do
            let s ← callChecked cb (args.withData (stream + 4) (toInt32 hsz) index) s
            decodeArrayObject cb args data fuel (stream + 4 + hsz) (sz - 4 - hsz) (index + 1) s
    else .ok s

/-- The element `i` of an array of 32 bit integers. -/
def decodeInt32 (cb : Callback σ) (args : SprotoArg) (data : List UInt8) (stream i : ℕ) (s : σ) :
    Checked σ := do
  let v ← todword data (stream + i * 4)
  call cb (args.withWord (expand64 v) (i + 1)) s

/-- A number of 64 bits. -/
def readInt64 (data : List UInt8) (stream : ℕ) : Checked UInt64 := do
  let low ← todword data stream
  let hi ← todword data (stream + 4)
  .ok (UInt64.ofNat (low + hi * 2 ^ 32))

/-- The element `i` of an array of 64 bit integers. -/
def decodeInt64 (cb : Callback σ) (args : SprotoArg) (data : List UInt8) (stream i : ℕ) (s : σ) :
    Checked σ := do
  let v ← readInt64 data (stream + i * 8)
  call cb (args.withWord v (i + 1)) s

/-- The element `i` of an array of booleans. -/
def decodeBoolean (cb : Callback σ) (args : SprotoArg) (data : List UInt8) (stream i : ℕ)
    (s : σ) : Checked σ := do
  let v ← readAt data (stream + i)
  call cb (args.withWord v.toUInt64 (i + 1)) s

/-- `decode_array`. -/
def decodeArray (cb : Callback σ) (args : SprotoArg) (data : List UInt8) (stream : ℕ) (s : σ) :
    Checked σ := do
  let sz ← todword data stream
  if sz = 0 then
    -- an empty array
    call cb { args with index := -1, value := .null, length := 0 } s
  else
    let stream := stream + 4
    match args.type with
    | .tinteger => do
      let len ← readAt data stream
      if len = 4 then
        if (sz - 1) % 4 ≠ 0 then .error .fail
        else times (decodeInt32 cb args data (stream + 1)) ((sz - 1) / 4) 0 s
      else if len = 8 then
        if (sz - 1) % 8 ≠ 0 then .error .fail
        else times (decodeInt64 cb args data (stream + 1)) ((sz - 1) / 8) 0 s
      else .error .fail
    | .tboolean => times (decodeBoolean cb args data stream) sz 0 s
    | _ => decodeArrayObject cb args data (toInt32 sz).toNat stream (toInt32 sz) 1 s

/-- A field whose value is in the data part, at `currentdata`. -/
def decodeData (cb : Callback σ) (f : Field) (args : SprotoArg) (data : List UInt8)
    (currentdata : ℕ) (s : σ) : Checked σ :=
  if f.array then decodeArray cb args data currentdata s
  else
    match f.type with
    | .tinteger => do
      let sz ← todword data currentdata
      if sz = 4 then do
        let v ← todword data (currentdata + 4)
        call cb (args.withWord (expand64 v) 0) s
      else if sz ≠ 8 then .error .fail
      else do
        let v ← readInt64 data (currentdata + 4)
        call cb (args.withWord v 0) s
    | .tboolean => .error .fail
    | _ => do
      let sz ← todword data currentdata
      callChecked cb (args.withData (currentdata + 4) (toInt32 sz) 0) s

/-- The arguments for a field. -/
def Field.args (f : Field) : SprotoArg :=
  { tagname := f.name, tagid := f.tag, type := f.type, subtype := f.st, value := .null,
    length := 0, index := 0, mainindex := f.key, extra := f.extra }

/-- The variables of `sproto_decode`. -/
structure DecodeState (σ : Type) where
  tag : ℤ
  datastream : ℕ
  size : ℕ
  ud : σ

/-- The length of the data that a field with the word `value` has at `datastream`. -/
def dataLength (data : List UInt8) (value datastream size : ℕ) : Checked ℕ :=
  if value / 2 = 0 then
    if size < 4 then .error .fail
    else do
      let sz ← todword data datastream
      if size < withLength sz then .error .fail else .ok (withLength sz)
  else .ok 0

/-- The loop body of `sproto_decode`. -/
def decodeField (st : SprotoType) (cb : Callback σ) (data : List UInt8) (i : ℕ)
    (s : DecodeState σ) : Checked (DecodeState σ) := do
  let value ← toword data (2 + i * 2)
  let tag := s.tag + 1
  if value % 2 = 1 then .ok { s with tag := tag + (value / 2 : ℕ) }
  else do
    let currentdata := s.datastream
    let sz ← dataLength data value s.datastream s.size
    let s := { s with tag := tag, datastream := s.datastream + sz, size := s.size - sz }
    match findtag st tag.toNat with
    | none => .ok s
    | some f =>
      if value / 2 = 0 then do
        let ud ← decodeData cb f f.args data currentdata s.ud
        .ok { s with ud := ud }
      else if f.array ∨ (f.type ≠ .tinteger ∧ f.type ≠ .tboolean) then .error .fail
      else do
        let ud ← call cb (f.args.withWord (UInt64.ofNat (value / 2 - 1)) 0) s.ud
        .ok { s with ud := ud }

/-- `sproto_decode(st, data, size, cb, ud)`: the number of bytes, and the state of the callback. -/
def sprotoDecode (st : SprotoType) (data : List UInt8) (cb : Callback σ) (ud : σ) :
    Checked (ℕ × σ) :=
  if data.length < 2 then .error .fail
  else do
    let fn ← toword data 0
    if data.length - 2 < fn * 2 then .error .fail
    else do
      let s ← times (decodeField st cb data) fn 0
        { tag := -1, datastream := 2 + fn * 2, size := data.length - 2 - fn * 2, ud := ud }
      .ok (data.length - s.size, s.ud)

end

end SkynetEureka.Sproto
