import SkynetEureka.Lib.Bytes

/-!
# Cluster packets (`lua-cluster.c`)

A packet is a list of bytes: a big-endian length of two bytes and the frame, which is what the
receiver gets. A message is the list of its bytes, its `sz` the length of the list. Every read of
a frame names its offset and the number of bytes, so that reading outside of it is an error.
-/

namespace SkynetEureka.Cluster

open Lib

/-- `MULTI_PART` -/
def multiPart : ℕ := 0x8000

/-- `TEMP_LENGTH` -/
def tempLength : ℕ := 0x8200

/-- `INT32_MAX` -/
def int32Max : ℕ := 0x7fffffff

abbrev Packet := List UInt8

/-- An address of a service. -/
inductive Address where
  | number (addr : ℕ)
  | name (name : List UInt8)
deriving DecidableEq

/-- The ways in which packing ends without a packet. -/
inductive PackError where
  /-- "Invalid request message" -/
  | invalidMessage
  /-- "Invalid request session %d" -/
  | invalidSession (session : ℤ)
  /-- "name is too long %s" -/
  | invalidName (name : List UInt8)
  /-- `assert(sz < 0x10000)` in `fill_header` -/
  | headerSize
  /-- bytes are written behind the end of `buf` -/
  | overflow
deriving DecidableEq

/-- `fill_uint32` -/
def fillUint32 (n : ℕ) : List UInt8 := leBytes 4 n

/-- `fill_header` -/
def fillHeader (sz : ℕ) : Except PackError (List UInt8) :=
  if sz < 0x10000 then .ok [UInt8.ofNat (sz >>> 8), UInt8.ofNat sz] else .error .headerSize

/-- A packet in `buf`: the header for the size `sz`, and what is written behind it. -/
def packet (sz : ℕ) (frame : List UInt8) : Except PackError Packet := do
  let header ← fillHeader sz
  if tempLength < header.length + frame.length then throw .overflow
  else return header ++ frame

/-- The number of parts of a message. -/
def parts (sz : ℕ) : ℕ := (sz - 1) / multiPart + 1

/-- The loops of `packreq_multi` and of `lpackresponse`: one part after another, each with the
flag that it is the last. -/
def partLoop (pack : Bool → List UInt8 → Except PackError Packet) :
    ℕ → List UInt8 → Except PackError (List Packet)
  | 0, _ => return []
  | part + 1, msg => do
    let last := msg.length ≤ multiPart
    let first ← pack last (msg.take multiPart)
    let rest ← partLoop pack part (msg.drop multiPart)
    return first :: rest

/-! ## Requests -/

/-- `packreq_number`: the packet, and the number of parts that follow. -/
def packreqNumber (addr session : ℕ) (msg : List UInt8) (isPush : Bool) :
    Except PackError (Packet × ℕ) :=
  if msg.length < multiPart then do
    let p ← packet (msg.length + 9)
      (0 :: fillUint32 addr ++ fillUint32 (if isPush then 0 else session) ++ msg)
    return (p, 0)
  else do
    let p ← packet 13
      ((if isPush then 0x41 else 1) ::
        fillUint32 addr ++ fillUint32 session ++ fillUint32 msg.length)
    return (p, parts msg.length)

/-- `packreq_string` -/
def packreqString (name : List UInt8) (session : ℕ) (msg : List UInt8) (isPush : Bool) :
    Except PackError (Packet × ℕ) :=
  let namelen := name.length
  if namelen < 1 ∨ 255 < namelen then .error (.invalidName name)
  else if msg.length < multiPart then do
    let p ← packet (msg.length + 6 + namelen)
      (0x80 :: UInt8.ofNat namelen :: name ++ fillUint32 (if isPush then 0 else session) ++ msg)
    return (p, 0)
  else do
    let p ← packet (10 + namelen)
      ((if isPush then 0xc1 else 0x81) :: UInt8.ofNat namelen :: name ++ fillUint32 session ++
        fillUint32 msg.length)
    return (p, parts msg.length)

/-- `packreq_multi` -/
def packreqMulti (session : ℕ) (msg : List UInt8) : Except PackError (List Packet) :=
  partLoop (fun last s => packet (s.length + 5)
    ((if last then 3 else 2) :: fillUint32 session ++ s)) (parts msg.length) msg

/-- What `packrequest` returns. -/
structure Packed where
  request : Packet
  newSession : ℕ
  padding : Option (List Packet)

/-- `packrequest`; a message is `none` when it is no pointer. -/
def packrequest (addr : Address) (session : ℤ) (msg : Option (List UInt8)) (isPush : Bool) :
    Except PackError Packed :=
  match msg with
  | none => .error .invalidMessage
  | some msg =>
    if session ≤ 0 then .error (.invalidSession session)
    else do
      let session := session.toNat
      let (request, multipak) ←
        match addr with
        | .number addr => packreqNumber addr session msg isPush
        | .name name => packreqString name session msg isPush
      let newSession := if int32Max < session + 1 then 1 else session + 1
      if multipak ≠ 0 then do
        let padding ← packreqMulti session msg
        return ⟨request, newSession, some padding⟩
      else return ⟨request, newSession, none⟩

/-! ## Reading a frame -/

/-- The ways in which unpacking a request ends without values. -/
inductive UnpackError where
  /-- "Invalid cluster message (size=%d)" -/
  | messageSize (sz : ℕ)
  /-- "Invalid cluster message size %d (multi req must be 13)" -/
  | multiSize (sz : ℕ)
  /-- "Invalid cluster multi part message" -/
  | partSize
  /-- "Invalid req package type %d" -/
  | packageType (type : UInt8)
  /-- a byte outside of the frame is read, or a negative number of bytes is copied -/
  | outOfBounds
deriving DecidableEq

/-- `sz` bytes of the frame from an offset on -/
def bytesAt (buf : List UInt8) (offset : ℕ) (sz : ℤ) : Except UnpackError (List UInt8) :=
  if 0 ≤ sz ∧ offset + sz ≤ buf.length then .ok ((buf.drop offset).take sz.toNat)
  else .error .outOfBounds

/-- `buf[offset]` -/
def byteAt (buf : List UInt8) (offset : ℕ) : Except UnpackError UInt8 :=
  match buf[offset]? with
  | some b => .ok b
  | none => .error .outOfBounds

/-- `unpack_uint32` -/
def unpackUint32 (buf : List UInt8) (offset : ℕ) : Except UnpackError ℕ := do
  let bytes ← bytesAt buf offset 4
  return ofLeBytes bytes

/-- The values that `unpackrequest` returns, as the arguments of `dispatch_request`. -/
structure Arguments where
  /-- `none` for the `false` of a part; the tag of a trace -/
  addr : Option Address
  /-- `none` for a trace -/
  session : Option ℕ
  /-- `none` for nil -/
  msg : Option (List UInt8)
  sz : ℕ
  padding : Bool
  isPush : Bool
deriving DecidableEq

/-- `unpackreq_number` -/
def unpackreqNumber (buf : List UInt8) : Except UnpackError Arguments :=
  if buf.length < 9 then .error (.messageSize buf.length)
  else do
    let address ← unpackUint32 buf 1
    let session ← unpackUint32 buf 5
    let msg ← bytesAt buf 9 ((buf.length : ℤ) - 9)
    return ⟨some (.number address), some session, some msg, msg.length, false, session = 0⟩

/-- `unpackmreq_number` -/
def unpackmreqNumber (buf : List UInt8) (isPush : Bool) : Except UnpackError Arguments :=
  if buf.length ≠ 13 then .error (.multiSize buf.length)
  else do
    let address ← unpackUint32 buf 1
    let session ← unpackUint32 buf 5
    let size ← unpackUint32 buf 9
    return ⟨some (.number address), some session, none, size, true, isPush⟩

/-- `unpackmreq_part` -/
def unpackmreqPart (buf : List UInt8) : Except UnpackError Arguments :=
  if buf.length < 5 then .error .partSize
  else do
    let type ← byteAt buf 0
    let session ← unpackUint32 buf 1
    let msg ← bytesAt buf 5 ((buf.length : ℤ) - 5)
    return ⟨none, some session, some msg, msg.length, type = 2, false⟩

/-- `unpacktrace` -/
def unpacktrace (buf : List UInt8) : Except UnpackError Arguments := do
  let tag ← bytesAt buf 1 ((buf.length : ℤ) - 1)
  return ⟨some (.name tag), none, none, 0, false, false⟩

/-- `unpackreq_string` -/
def unpackreqString (buf : List UInt8) : Except UnpackError Arguments :=
  if buf.length < 2 then .error (.messageSize buf.length)
  else do
    let namesz ← byteAt buf 1
    let namesz := namesz.toNat
    if buf.length < namesz + 6 then throw (.messageSize buf.length)
    else do
      let name ← bytesAt buf 2 namesz
      let session ← unpackUint32 buf (namesz + 2)
      let msg ← bytesAt buf (2 + namesz + 4) ((buf.length : ℤ) - namesz - 6)
      return ⟨some (.name name), some session, some msg, msg.length, false, session = 0⟩

/-- `unpackmreq_string` -/
def unpackmreqString (buf : List UInt8) (isPush : Bool) : Except UnpackError Arguments :=
  if buf.length < 2 then .error (.messageSize buf.length)
  else do
    let namesz ← byteAt buf 1
    let namesz := namesz.toNat
    if buf.length < namesz + 10 then throw (.messageSize buf.length)
    else do
      let name ← bytesAt buf 2 namesz
      let session ← unpackUint32 buf (namesz + 2)
      let size ← unpackUint32 buf (namesz + 6)
      return ⟨some (.name name), some session, none, size, true, isPush⟩

/-- `lunpackrequest` of a frame -/
def lunpackrequest (msg : List UInt8) : Except UnpackError Arguments := do
  let type ← byteAt msg 0
  if type = 0 then unpackreqNumber msg
  else if type = 1 then unpackmreqNumber msg false
  else if type = 0x41 then unpackmreqNumber msg true
  else if type = 2 ∨ type = 3 then unpackmreqPart msg
  else if type = 4 then unpacktrace msg
  else if type = 0x80 then unpackreqString msg
  else if type = 0x81 then unpackmreqString msg false
  else if type = 0xc1 then unpackmreqString msg true
  else throw (.packageType type)

/-! ## Responses -/

/-- `lpackresponse`: one packet, or a table of packets -/
inductive Response where
  | single (p : Packet)
  | multi (ps : List Packet)

/-- The loop of `lpackresponse` -/
def packrespMulti (session : ℕ) (msg : List UInt8) : Except PackError (List Packet) :=
  partLoop (fun last s => packet (s.length + 5)
    (fillUint32 session ++ (if last then 4 else 3) :: s)) (parts msg.length) msg

/-- `lpackresponse` -/
def lpackresponse (session : ℕ) (ok : Bool) (msg : List UInt8) : Except PackError Response :=
  if ok ∧ multiPart < msg.length then do
    let begin_ ← packet 9 (fillUint32 session ++ 2 :: fillUint32 msg.length)
    let rest ← packrespMulti session msg
    return .multi (begin_ :: rest)
  else do
    -- an error message is truncated when it is too long
    let msg := if ok then msg else msg.take multiPart
    let p ← packet (msg.length + 5) (fillUint32 session ++ (if ok then 1 else 0) :: msg)
    return .single p

/-- A value in the table of a response: the size, or the bytes of a part. -/
inductive Item where
  | size (sz : ℕ)
  | bytes (s : List UInt8)
deriving DecidableEq

/-- What `lunpackresponse` returns: session, ok, data, padding. -/
structure Answer where
  session : ℕ
  ok : Bool
  data : Item
  padding : Bool
deriving DecidableEq

/-- `lunpackresponse`; `none` when it returns nothing -/
def lunpackresponse (buf : List UInt8) : Option Answer :=
  if buf.length < 5 then none
  else
    let session := ofLeBytes (buf.take 4)
    let type := buf.getD 4 0
    if type = 0 then some ⟨session, false, .bytes (buf.drop 5), false⟩
    else if type = 1 ∨ type = 4 then some ⟨session, true, .bytes (buf.drop 5), false⟩
    else if type = 2 then
      if buf.length ≠ 9 then none
      else some ⟨session, true, .size (ofLeBytes (buf.drop 5)), true⟩
    else if type = 3 then some ⟨session, true, .bytes (buf.drop 5), true⟩
    else none

/-! ## Parts -/

/-- `lappend`: the size when there is no message, else the bytes -/
def lappend (t : List Item) (msg : Option (List UInt8)) (sz : ℕ) : List Item :=
  match msg with
  | none => t ++ [.size sz]
  | some msg => t ++ [.bytes msg]

/-- The loop of `lconcat`: the strings up to the first value that is none. `none` when they are
more than `sz` bytes. -/
def concatLoop (sz : ℕ) : List UInt8 → List Item → Option (List UInt8)
  | buff, .bytes s :: t => if sz < s.length + buff.length then none else concatLoop sz (buff ++ s) t
  | buff, _ => some buff

/-- `lconcat` -/
def lconcat : List Item → Option (List UInt8)
  | .size sz :: t => (concatLoop sz [] t).filter fun buff => buff.length = sz
  | _ => none

end SkynetEureka.Cluster
