import SkynetEureka.Lib.Bytes
import SkynetEureka.Lib.Memory

/-!
# Schema objects of sproto (sproto.c)

`sproto_create` reads a schema object from a bundle, which is itself encoded as a sproto message.
A pointer into the bundle is an offset, a pointer to a type the index of the type, and NULL the
exit `fail`. Length fields are 32 bit numbers; the sums of them that the code makes are taken
modulo `2 ^ 32`.
-/

namespace SkynetEureka.Sproto

open Lib

/-! ## The object -/

/-- `SPROTO_TINTEGER` and so on. -/
inductive FieldType where
  | tinteger
  | tboolean
  | tstring
  | tstruct
deriving DecidableEq, Repr

structure Field where
  tag : ℕ
  type : FieldType
  /-- `SPROTO_TARRAY` is set in the type -/
  array : Bool
  name : List UInt8
  /-- the type of a struct -/
  st : Option ℕ
  /-- the tag of the key field of a map -/
  key : Option ℕ
  extra : ℤ
deriving DecidableEq, Repr

/-- A type; its number of fields `n` is the length of `f`. -/
structure SprotoType where
  name : List UInt8
  /-- the first tag, or -1 when the tags have gaps -/
  base : ℤ
  maxn : ℕ
  f : List Field
deriving DecidableEq, Repr

structure Protocol where
  name : List UInt8
  tag : ℕ
  confirm : ℤ
  request : Option ℕ
  response : Option ℕ
deriving DecidableEq, Repr

structure SprotoObject where
  type : List SprotoType
  proto : List Protocol
deriving DecidableEq, Repr

/-! ## Reading the bundle -/

/-- `toword`. -/
def toword (p : List UInt8) (i : ℕ) : Checked ℕ := do
  let l ← readSlice p i 2
  pure (ofLeBytes l)

/-- `todword`. -/
def todword (p : List UInt8) (i : ℕ) : Checked ℕ := do
  let l ← readSlice p i 4
  pure (ofLeBytes l)

/-- `SIZEOF_LENGTH + sz` as the code computes it. -/
def withLength (sz : ℕ) : ℕ := (sz + 4) % 2 ^ 32

/-- The loop of `count_array`. A round that does not move the stream is repeated for ever, and
any other takes a byte of the bundle. -/
def countItems (p : List UInt8) : ℕ → ℕ → ℕ → ℕ → Checked ℕ
  | fuel, stream, length, n =>
    if length > 0 then
      match fuel with
      | 0 => .error (.fault .endless)
      | fuel + 1 =>
        if length < 4 then .error .fail
        else do
          let nsz ← todword p stream
          if withLength nsz > length then .error .fail
          else countItems p fuel (stream + withLength nsz) (length - withLength nsz) (n + 1)
    else .ok n

/-- `count_array`. -/
def countArray (p : List UInt8) (stream : ℕ) : Checked ℕ := do
  let length ← todword p stream
  countItems p (p.length + 1) (stream + 4) length 0

/-- The loop body of `struct_field`: the data part at `s.1`, of which `s.2` bytes are left. -/
def skipField (p : List UInt8) (field : ℕ) (i : ℕ) (s : ℕ × ℕ) : Checked (ℕ × ℕ) := do
  let value ← toword p (field + 2 * i)
  if value ≠ 0 then .ok s
  else if s.2 < 4 then .error .fail
  else do
    let dsz ← todword p s.1
    if s.2 < withLength dsz then .error .fail
    else .ok (s.1 + withLength dsz, s.2 - withLength dsz)

/-- `struct_field`: the number of fields of a struct of `sz` bytes. -/
def structField (p : List UInt8) (stream sz : ℕ) : Checked ℕ :=
  if sz < 4 then .error .fail
  else do
    let fn ← toword p stream
    let header := 2 + 2 * fn
    if sz < header then .error .fail
    else do
      let _ ← times (skipField p (stream + 2)) fn 0 (stream + header, sz - header)
      .ok fn

/-- `import_string`; the C string ends at its first zero byte. -/
def importString (p : List UInt8) (stream : ℕ) : Checked (List UInt8) := do
  let sz ← todword p stream
  let buffer ← readSlice p (stream + 4) sz
  .ok (buffer.takeWhile fun b => b ≠ 0)

/-- `calc_pow`; an int that overflows wraps around. -/
def calcPow (base : Int32) (n : ℕ) : Int32 :=
  if n = 0 then 1
  else
    let r := calcPow (base * base) (n / 2)
    if n % 2 = 1 then r * base else r
termination_by n
decreasing_by omega

/-! ## import_field -/

/-- A field that is being imported; what is -1 or NULL at first is `none`. -/
structure FieldImport where
  /-- the tag of the record in front -/
  last : ℤ
  array : Bool
  tag : Option ℕ
  type : Option FieldType
  name : Option (List UInt8)
  st : Option ℕ
  key : Option ℕ
  extra : ℤ

/-- The built-in type with this number. -/
def buildin : ℕ → Option FieldType
  | 0 => some .tinteger
  | 1 => some .tboolean
  | 2 => some .tstring
  | _ => none

/-- The `switch` of `import_field`. -/
def importFieldValue (typeN : ℕ) (f : FieldImport) (tag : ℤ) (value : ℕ) :
    Checked FieldImport :=
  if tag = 1 then
    match buildin value with
    | none => .error .fail
    | some type => .ok { f with type := some type }
  else if tag = 2 then
    if f.type = some .tinteger then .ok { f with extra := (calcPow 10 value).toInt }
    else if f.type = some .tstring then .ok { f with extra := value }
    else if value ≥ typeN then .error .fail
    else if f.type.isSome then .error .fail
    else .ok { f with type := some .tstruct, st := some value }
  else if tag = 3 then .ok { f with tag := some value }
  else if tag = 4 then .ok { f with array := f.array || value != 0 }
  else if tag = 5 then .ok { f with key := some value }
  else .error .fail

/-- The loop body of `import_field`; the records are at `stream`, `fn` of them. -/
def importFieldRecord (typeN : ℕ) (p : List UInt8) (stream fn i : ℕ) (f : FieldImport) :
    Checked FieldImport := do
  let tag := f.last + 1
  let value ← toword p (stream + 2 * i)
  if value % 2 = 1 then .ok { f with last := tag + value / 2 }
  else if tag = 0 then
    if value ≠ 0 then .error .fail
    else do
      let name ← importString p (stream + fn * 2)
      .ok { f with last := tag, name := some name }
  else if value = 0 then .error .fail
  else importFieldValue typeN { f with last := tag } tag (value / 2 - 1)

/-- The checks at the end of `import_field`. -/
def importFieldDone (f : FieldImport) : Checked Field :=
  match f.tag, f.type, f.name with
  | some tag, some type, some name =>
    .ok { tag := tag, type := type, array := f.array, name := name, st := f.st, key := f.key,
          extra := f.extra }
  | _, _, _ => .error .fail

/-- `import_field`: the field, and where the next one begins. -/
def importField (typeN : ℕ) (p : List UInt8) (stream : ℕ) : Checked (Field × ℕ) := do
  let sz ← todword p stream
  let stream := stream + 4
  let fn ← structField p stream sz
  let f ← times (importFieldRecord typeN p (stream + 2) fn) fn 0
    { last := -1, array := false, tag := none, type := none, name := none, st := none,
      key := none, extra := 0 }
  let f ← importFieldDone f
  .ok (f, stream + sz)

/-! ## import_type -/

/-- The fields of a type that are imported so far. -/
structure FieldsImport where
  stream : ℕ
  last : ℤ
  maxn : ℕ
  f : List Field

/-- The loop body over the fields of a type. -/
def importTypeField (typeN : ℕ) (p : List UInt8) (s : FieldsImport) : Checked FieldsImport := do
  let (f, stream) ← importField typeN p s.stream
  if (f.tag : ℤ) ≤ s.last then .error .fail
  else
    .ok { stream := stream, last := f.tag,
          maxn := if (f.tag : ℤ) > s.last + 1 then s.maxn + 1 else s.maxn, f := s.f ++ [f] }

/-- The end of `import_type`: without fields, `t->f[0]` and `t->f[n-1]` are read outside of the
array. -/
def importTypeBase (name : List UInt8) (s : FieldsImport) : Checked SprotoType :=
  match s.f.head?, s.f.getLast? with
  | some first, some last =>
    .ok { name := name, maxn := s.maxn, f := s.f,
          base := if (last.tag : ℤ) - first.tag + 1 = s.f.length then first.tag else -1 }
  | _, _ => .error (.fault .read)

/-- The words of a type are zero. -/
def zeroWord (p : List UInt8) (stream i : ℕ) (_ : Unit) : Checked Unit := do
  let v ← toword p (stream + 2 + 2 * i)
  if v ≠ 0 then .error .fail else .ok ()

/-- `import_type`: the type, and where the next one begins. -/
def importType (typeN : ℕ) (p : List UInt8) (stream : ℕ) : Checked (SprotoType × ℕ) := do
  let sz ← todword p stream
  let stream := stream + 4
  let fn ← structField p stream sz
  if fn = 0 ∨ fn > 2 then .error .fail
  else do
    let _ ← times (zeroWord p stream) fn 0 ()
    let data := stream + 2 + fn * 2
    let name ← importString p data
    if fn = 1 then .ok ({ name := name, base := 0, maxn := 0, f := [] }, stream + sz)
    else do
      let nameSz ← todword p data
      let fields := data + (nameSz + 4) % 2 ^ 32
      let n ← countArray p fields
      let s ← times (fun _ => importTypeField typeN p) n 0
        { stream := fields + 4, last := -1, maxn := n, f := [] }
      let t ← importTypeBase name s
      .ok (t, stream + sz)

/-! ## import_protocol -/

/-- A protocol that is being imported. -/
structure ProtocolImport where
  name : Option (List UInt8)
  tag : Option ℕ
  confirm : ℤ
  request : Option ℕ
  response : Option ℕ

/-- The loop body of `import_protocol`, which looks at the index of the record, not at its
tag. -/
def importProtocolRecord (typeN : ℕ) (p : List UInt8) (stream fn i : ℕ) (s : ProtocolImport) :
    Checked ProtocolImport := do
  let v ← toword p (stream + 2 * i)
  let value : ℤ := (v / 2 : ℕ) - 1
  if v % 2 = 1 then .ok s
  else if i = 0 then
    if value ≠ -1 then .error .fail
    else do
      let name ← importString p (stream + 2 * fn)
      .ok { s with name := some name }
  else if i = 1 then
    if value < 0 then .error .fail else .ok { s with tag := some value.toNat }
  else if i = 2 then
    if value < 0 ∨ value ≥ typeN then .error .fail
    else .ok { s with request := some value.toNat }
  else if i = 3 then
    if value < 0 ∨ value ≥ typeN then .error .fail
    else .ok { s with response := some value.toNat }
  else if i = 4 then .ok { s with confirm := value }
  else .error .fail

/-- The check at the end of `import_protocol`. -/
def importProtocolDone (s : ProtocolImport) : Checked Protocol :=
  match s.name, s.tag with
  | some name, some tag =>
    .ok { name := name, tag := tag, confirm := s.confirm, request := s.request,
          response := s.response }
  | _, _ => .error .fail

/-- `import_protocol`: the protocol, and where the next one begins. When `struct_field` returns -1
there is no record, and the check at the end fails. -/
def importProtocol (typeN : ℕ) (p : List UInt8) (stream : ℕ) : Checked (Protocol × ℕ) := do
  let sz ← todword p stream
  let stream := stream + 4
  let fn ← structField p stream sz
  let s ← times (importProtocolRecord typeN p (stream + 2) fn) fn 0
    { name := none, tag := none, confirm := 0, request := none, response := none }
  let s ← importProtocolDone s
  .ok (s, stream + sz)

/-! ## sproto_create -/

/-- The types or the protocols one after the other. -/
def importItem {α : Type} (import₁ : ℕ → Checked (α × ℕ)) (s : List α × ℕ) :
    Checked (List α × ℕ) := do
  let (a, stream) ← import₁ s.2
  .ok (s.1 ++ [a], stream)

/-- An array of the bundle: its number of items, its first item, and what is behind it. -/
def bundleArray (p : List UInt8) (word content : ℕ) : Checked (ℕ × ℕ × ℕ) := do
  let value ← toword p word
  if value ≠ 0 then .error .fail
  else do
    let n ← countArray p content
    let length ← todword p content
    .ok (n, content + 4, content + (length + 4) % 2 ^ 32)

/-- `create_from_bundle`. -/
def createFromBundle (p : List UInt8) : Checked SprotoObject := do
  let fn ← structField p 0 p.length
  if fn > 2 then .error .fail
  else if fn = 0 then .ok { type := [], proto := [] }
  else do
    let (typeN, typedata, content) ← bundleArray p 2 (2 + fn * 2)
    let (protocolN, protocoldata, _) ←
      (if fn = 2 then bundleArray p 4 content else .ok (0, 0, 0) : Checked (ℕ × ℕ × ℕ))
    let (types, _) ← times (fun _ => importItem (importType typeN p)) typeN 0 ([], typedata)
    let (protos, _) ← times (fun _ => importItem (importProtocol typeN p)) protocolN 0
      ([], protocoldata)
    .ok { type := types, proto := protos }

/-- `sproto_create(proto, sz)`. -/
def sprotoCreate (proto : List UInt8) : Checked SprotoObject := createFromBundle proto

/-! ## findtag -/

/-- The binary search of `findtag`. -/
def searchTag (f : List Field) (tag : ℕ) : ℕ → ℕ → ℕ → Option Field
  | 0, _, _ => none
  | fuel + 1, begin, end' =>
    if begin < end' then
      match f[(begin + end') / 2]? with
      | none => none
      | some field =>
        if field.tag = tag then some field
        else if tag > field.tag then searchTag f tag fuel ((begin + end') / 2 + 1) end'
        else searchTag f tag fuel begin ((begin + end') / 2)
    else none

/-- `findtag`; each round of the search at least halves the range. -/
def findtag (st : SprotoType) (tag : ℕ) : Option Field :=
  if st.base ≥ 0 then
    if (tag : ℤ) - st.base < 0 ∨ (tag : ℤ) - st.base ≥ st.f.length then none
    else st.f[((tag : ℤ) - st.base).toNat]?
  else searchTag st.f tag (st.f.length + 1) 0 st.f.length

end SkynetEureka.Sproto
