import SkynetEureka.Lib.Bytes
import SkynetEureka.Lib.RingBuffer

/-!
# Frame reassembly (`lua-netpackext.c`)

A chunk of a socket is a list of bytes, its `size` the length of the list. A frame is a head of
22 bytes, with the length of the body in its bytes 2 to 5, and the body. An incomplete frame is
kept in a record `uncomplete` in a hash table of chains; complete frames are handed out at once
or pushed to a ring. The queue is `nil` until it is needed for the first time.

Of the head, `filter_data_` reads only `length`; memory that is never freed is not tracked.
-/

namespace SkynetEureka.NetPack

open Lib

/-- `sizeof(protocolhead)`, packed -/
def headSize : ℕ := 22

/-- `QUEUESIZE` -/
def queueSize : ℕ := 1024

/-- `HASHSIZE` -/
def hashSize : ℕ := 4096

/-- `INT_MAX` -/
def intMax : ℕ := 0x7FFFFFFF

/-- The longest body that is accepted. -/
def maxBody : ℤ := 0x100000

/-- The ways in which the C code leaves its defined behaviour. -/
inductive Fault where
  /-- a `memcpy` reads or writes outside of its block -/
  | outOfBounds
  /-- the bytes of a body are copied over the pointer `uc->protocol.protobuf` -/
  | pointerOverwritten
  /-- the int `uc->read + size` overflows -/
  | intOverflow
  /-- `skynet_malloc` of a negative int, which `size_t` makes larger than any memory -/
  | outOfMemory
  /-- memory that was never written is handed out -/
  | uninitialised
  /-- `push_more` calls itself without end -/
  | diverges
deriving DecidableEq

/-- A block of memory from `skynet_malloc`; `none` for a byte that was not written. -/
abbrev Block := List (Option UInt8)

/-- `struct uncomplete`, without its link `next` -/
structure Uncomplete where
  head : List UInt8
  protobuf : Option Block
  read : ℕ
  fd : ℕ
deriving DecidableEq

/-- `struct netpackext`; the `size` is the length of the buffer. -/
structure Netpackext where
  id : ℕ
  buffer : List UInt8
deriving DecidableEq

/-- `struct queue` -/
structure Queue where
  hash : ℕ → List Uncomplete
  ring : RingBuffer Netpackext

/-- What `filter_data_` returns next to the queue. -/
inductive Result where
  /-- `return 1`: nothing -/
  | nothing
  /-- `TYPE_DATA` with a complete frame -/
  | data (fd : ℕ) (buffer : List UInt8)
  /-- `TYPE_MORE`: there are frames in the queue -/
  | more
  /-- `TYPE_ERROR`, "Invalid size (too long) of body" -/
  | error (fd : ℕ)
deriving DecidableEq

/-! ## Bytes -/

/-- An int from the four bytes of it, the lowest first. -/
def intOfBytes (bytes : List UInt8) : ℤ := (ofLeBytes bytes : ℤ).bmod (2 ^ 32)

/-- `toprotocolhead(buffer).length`: bytes 2 to 5, the highest first -/
def headLength (buffer : List UInt8) : ℤ := intOfBytes ((buffer.drop 2).take 4).reverse

/-- `head.length` read from the bytes in place, by a little-endian machine -/
def nativeLength (buffer : List UInt8) : ℤ := intOfBytes ((buffer.drop 2).take 4)

/-- `setbuffer_session` -/
def setbufferSession (buffer : List UInt8) (fd : ℕ) : List UInt8 :=
  (((buffer.set 18 (UInt8.ofNat ((fd &&& 0xFF) >>> 24))).set 19
    (UInt8.ofNat ((fd &&& 0xFF) >>> 16))).set 20
    (UInt8.ofNat ((fd &&& 0xFF) >>> 8))).set 21 (UInt8.ofNat (fd &&& 0xFF))

/-- `skynet_malloc(size)` with an int -/
def malloc (size : ℤ) : Except Fault Block :=
  if size < 0 then .error .outOfMemory else .ok (List.replicate size.toNat none)

/-- `memcpy` into a block -/
def store {α : Type} (block : List α) (offset : ℕ) (bytes : List α) : Except Fault (List α) :=
  if offset + bytes.length ≤ block.length then
    .ok (block.take offset ++ bytes ++ block.drop (offset + bytes.length))
  else .error .outOfBounds

/-- `skynet_malloc(size)` and `memcpy` of so many bytes from the front of a buffer -/
def load {α : Type} (buffer : List α) (size : ℤ) : Except Fault (List α) :=
  if size < 0 then .error .outOfMemory
  else if size ≤ buffer.length then .ok (buffer.take size.toNat)
  else .error .outOfBounds

/-- `memcpy(protobuf + offset, bytes)`, where nothing is copied to a null pointer -/
def storeBody (protobuf : Option Block) (offset : ℕ) (bytes : List UInt8) :
    Except Fault (Option Block) :=
  match protobuf with
  | none => if bytes = [] then .ok none else .error .outOfBounds
  | some block => (store block offset (bytes.map some)).map some

/-- `memcpy(result, protobuf, length)`, for a `length` other than 0 -/
def loadBody (protobuf : Option Block) (length : ℤ) : Except Fault (List UInt8) :=
  if length = 0 then .ok []
  else
    match protobuf with
    | none => .error .outOfBounds
    | some block =>
      (load block length).bind fun bytes =>
        if none ∈ bytes then .error .uninitialised else .ok bytes.reduceOption

/-! ## The queue -/

/-- `hash_fd`; the int sum may wrap, of which the remainder by 4096 sees nothing. -/
def hashFd (fd : ℕ) : ℕ := ((fd >>> 24) + (fd >>> 12) + fd) % hashSize

/-- `get_queue` -/
def getQueue (q : Option Queue) : Queue := q.getD ⟨fun _ => [], RingBuffer.empty queueSize⟩

/-- The walk along a chain in `find_uncomplete`: the first record with this id is unlinked. -/
def unlink (fd : ℕ) : List Uncomplete → Option (Uncomplete × List Uncomplete)
  | [] => none
  | uc :: next =>
    if uc.fd = fd then some (uc, next)
    else (unlink fd next).map fun (found, next) => (found, uc :: next)

/-- `find_uncomplete` -/
def findUncomplete (q : Option Queue) (fd : ℕ) : Option Uncomplete × Option Queue :=
  match q with
  | none => (none, none)
  | some q =>
    match unlink fd (q.hash (hashFd fd)) with
    | none => (none, some q)
    | some (uc, chain) =>
      (some uc, some { q with hash := Function.update q.hash (hashFd fd) chain })

/-- `save_uncomplete`, with the fields that its caller fills in -/
def saveUncomplete (q : Option Queue) (uc : Uncomplete) : Queue :=
  let q := getQueue q
  let h := hashFd uc.fd
  { q with hash := Function.update q.hash h (uc :: q.hash h) }

/-- `push_data` and `expand_queue`, for a buffer that is already cloned -/
def pushData (q : Option Queue) (fd : ℕ) (buffer : List UInt8) : Queue :=
  let q := getQueue q
  { q with ring := q.ring.push (· + queueSize) ⟨fd, buffer⟩ }

/-! ## `filter_data_` -/

/-- A record of a frame whose head is not complete: the rest of the head is zero. -/
def partialHead (fd : ℕ) (buffer : List UInt8) : Uncomplete where
  head := buffer ++ List.replicate (headSize - buffer.length) 0
  protobuf := none
  read := buffer.length
  fd := fd

/-- `push_more`: the queue and the result. Each round takes a frame from the buffer. -/
def pushMore : ℕ → Option Queue → ℕ → List UInt8 → Except Fault (Option Queue × ℤ)
  | 0, _, _, _ => .error .diverges
  | fuel + 1, q, fd, buffer =>
    if buffer.length = 0 then .ok (q, 0)
    else if buffer.length < headSize then .ok (some (saveUncomplete q (partialHead fd buffer)), 1)
    else
      let buffer := setbufferSession buffer fd
      let length := headLength buffer
      let packSize := length + headSize
      if maxBody < length then .ok (q, length)
      else if buffer.length < packSize then do
        let block ← malloc length
        let block ← store block 0 ((buffer.drop headSize).map some)
        return (some (saveUncomplete q ⟨buffer.take headSize, some block, buffer.length, fd⟩), 1)
      else do
        let package ← load buffer packSize
        let q := pushData q fd package
        let buffer := buffer.drop packSize.toNat
        if 0 < buffer.length then pushMore fuel (some q) fd buffer
        else return (some q, 0)

/-- `push_more` and the result that `filter_data_` makes of it -/
def morePackages (q : Option Queue) (fd : ℕ) (buffer : List UInt8) :
    Except Fault (Option Queue × Result) := do
  let (q, ret) ← pushMore (buffer.length + 1) q fd buffer
  return (q, if 1 < ret then .error fd else .more)

/-- The rest of an incomplete head is taken from the chunk. -/
def completeHead (uc : Uncomplete) (buffer : List UInt8) :
    Except Fault (Uncomplete × List UInt8) :=
  if uc.read < headSize then do
    let need := headSize - uc.read
    let head ← store uc.head uc.read (buffer.take need)
    return ({ uc with head := head, read := uc.read + need }, buffer.drop need)
  else return (uc, buffer)

/-- `if (head.length && !uc->protocol.protobuf)`: a block for the body -/
def allocBody (protobuf : Option Block) (length : ℤ) : Except Fault (Option Block) :=
  if length ≠ 0 ∧ protobuf = none then (malloc length).map some else .ok protobuf

/-- The branch of a socket with a saved record, once its head is complete. -/
def filterBody (q : Option Queue) (uc : Uncomplete) (fd : ℕ) (buffer : List UInt8) :
    Except Fault (Option Queue × Result) :=
  let head := setbufferSession uc.head fd
  let length := headLength head
  let packSize := length + headSize
  if maxBody < length then .ok (q, .error fd)
  else do
    let protobuf ← allocBody uc.protobuf length
    let protobufRead := uc.read - headSize
    if uc.read + buffer.length < packSize then do
      let _ ← storeBody protobuf protobufRead buffer
      -- `return 1`, but the record is not linked again
      return (q, .nothing)
    else if uc.read + buffer.length = packSize then do
      let protobuf ← storeBody protobuf protobufRead buffer
      let body ← loadBody protobuf length
      return (q, .data fd (head ++ body))
    else do
      -- the frame is taken from the rest of the chunk, not from the record
      let package ← load buffer packSize
      morePackages (some (pushData q fd package)) fd (buffer.drop packSize.toNat)

/-- The branch of a socket with a saved record, which is unlinked by now. -/
def filterResumed (q : Option Queue) (uc : Uncomplete) (fd : ℕ) (buffer : List UInt8) :
    Except Fault (Option Queue × Result) :=
  if intMax < uc.read + buffer.length then .error .intOverflow
  else if uc.read + buffer.length < headSize then do
    let _ ← store uc.head uc.read buffer
    -- `return 1`, but the record is not linked again
    return (q, .nothing)
  else do
    let (uc, buffer) ← completeHead uc buffer
    filterBody q uc fd buffer

/-- The branch of a socket without a saved record. -/
def filterFresh (q : Option Queue) (fd : ℕ) (buffer : List UInt8) :
    Except Fault (Option Queue × Result) :=
  if buffer.length < headSize then
    .ok (some (saveUncomplete q (partialHead fd buffer)), .nothing)
  else
    let buffer := setbufferSession buffer fd
    let length := headLength buffer
    let packSize := length + headSize
    if maxBody < length then .ok (q, .error fd)
    else if buffer.length = packSize then .ok (q, .data fd buffer)
    else if buffer.length < packSize then do
      let block ← malloc (nativeLength buffer)
      -- `memcpy(&uc->protocol.protobuf, ..)`: the pointer itself is the target
      if headSize < buffer.length then .error .pointerOverwritten
      else
        return (some (saveUncomplete q ⟨buffer.take headSize, some block, buffer.length, fd⟩),
          .nothing)
    else do
      let package ← load buffer packSize
      morePackages (some (pushData q fd package)) fd (buffer.drop packSize.toNat)

/-- `filter_data_` -/
def filterData (q : Option Queue) (fd : ℕ) (buffer : List UInt8) :
    Except Fault (Option Queue × Result) :=
  match findUncomplete q fd with
  | (some uc, q) => filterResumed q uc fd buffer
  | (none, q) => filterFresh q fd buffer

/-! ## The dispatcher (`tcpserver.lua`) -/

/-- `dispatch_queue`: `netpackext.pop` until the queue is empty -/
def dispatchQueue (q : Option Queue) : List Netpackext × Option Queue :=
  match q with
  | none => ([], none)
  | some q =>
    ((q.ring.drain q.ring.length).1, some { q with ring := (q.ring.drain q.ring.length).2 })

/-- `MSG[type](...)`: the packages that a result hands out -/
def dispatch (q : Option Queue) : Result → List Netpackext × Option Queue
  | .data fd buffer => ([⟨fd, buffer⟩], q)
  | .more => dispatchQueue q
  | .nothing | .error _ => ([], q)

/-- `netpackext.filter` for a chunk, and the dispatch of its result -/
def feed (q : Option Queue) (fd : ℕ) (buffer : List UInt8) :
    Except Fault (List Netpackext × Option Queue) :=
  (filterData q fd buffer).map fun (q, res) => dispatch q res

/-- Chunks of any sockets one after another, each with the id of its socket: all packages that
are handed out, in order. -/
def feedAll (q : Option Queue) : List (ℕ × List UInt8) → Except Fault (List Netpackext)
  | [] => .ok []
  | (fd, buffer) :: chunks => do
    let (packages, q) ← feed q fd buffer
    let later ← feedAll q chunks
    return packages ++ later

end SkynetEureka.NetPack
