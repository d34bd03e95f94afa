import SkynetEureka.Lib.Chains
import SkynetEureka.Lib.RingBuffer

/-!
# Packages (`lua-netpack.c`)

A chunk of a socket is a list of bytes, its `size` the length of the list. A frame is the length
of a package, two bytes, and the package. An incomplete frame is kept in a record `uncomplete` in
a hash table of chains; complete packages are handed out at once or pushed to a ring. The queue
is `nil` until it is needed for the first time.
-/

namespace SkynetEureka.Gate

open Lib

/-- `QUEUESIZE` -/
def queueSize : ℕ := 1024

/-- `HASHSIZE` -/
def hashSize : ℕ := 4096

/-- `struct netpack` -/
structure Netpack where
  id : ℕ
  size : ℕ
  buffer : List UInt8
deriving DecidableEq

/-- `struct uncomplete`, without its link `next`. The buffer holds the bytes that are copied so
far, of the `size` that are allocated. -/
structure Uncomplete where
  pack : Netpack
  read : ℤ
  header : UInt8
deriving DecidableEq

/-- `struct queue` -/
structure Queue where
  hash : Chains Uncomplete
  ring : RingBuffer Netpack

/-- What `filter_data_` returns next to the queue. -/
inductive Filtered where
  /-- `return 1`: nothing -/
  | nothing
  /-- `TYPE_DATA` with a complete package -/
  | data (fd : ℕ) (buffer : List UInt8) (size : ℕ)
  /-- `TYPE_MORE`: there are packages in the queue -/
  | more
deriving DecidableEq

/-! ## The queue -/

/-- `hash_fd`; the sum is an int that is cast to `uint32_t`. -/
def hashFd (fd : ℕ) : ℕ := ((fd >>> 24) + (fd >>> 12) + fd) % 2 ^ 32 % hashSize

/-- `get_queue` -/
def getQueue (q : Option Queue) : Queue := q.getD ⟨fun _ => [], RingBuffer.empty queueSize⟩

/-- The socket of a record. -/
def Uncomplete.fd (uc : Uncomplete) : ℕ := uc.pack.id

/-- `find_uncomplete` -/
def findUncomplete (q : Option Queue) (fd : ℕ) : Option Uncomplete × Option Queue :=
  match q with
  | none => (none, none)
  | some q =>
    let (uc, hash) := q.hash.unlink Uncomplete.fd hashFd fd
    (uc, some { q with hash := hash })

/-- `save_uncomplete`, with the fields that its caller fills in; also how `filter_data_` links a
record again -/
def saveUncomplete (q : Option Queue) (uc : Uncomplete) : Option Queue :=
  let q := getQueue q
  some { q with hash := q.hash.link Uncomplete.fd hashFd uc }

/-- `push_data` and `expand_queue` -/
def pushData (q : Option Queue) (fd : ℕ) (buffer : List UInt8) (size : ℕ) : Option Queue :=
  let q := getQueue q
  some { q with ring := q.ring.push (· + queueSize) ⟨fd, size, buffer⟩ }

/-- `lpop` -/
def lpop (q : Option Queue) : Option (Netpack × Option Queue) :=
  match q with
  | none => none
  | some q => q.ring.pop.map fun (np, ring) => (np, some { q with ring := ring })

/-! ## Frames -/

/-- `read_size` -/
def readSize (high low : UInt8) : ℕ := high.toNat <<< 8 ||| low.toNat

/-- `lpack`; `none` for the error "Invalid size (too long) of data : %d" -/
def lpack (msg : List UInt8) : Option (List UInt8) :=
  if 0x10000 ≤ msg.length then none
  else some (UInt8.ofNat (msg.length >>> 8) :: UInt8.ofNat msg.length :: msg)

/-- The record of a socket of which one byte has come. -/
def oneByte (fd : ℕ) (header : UInt8) : Uncomplete := ⟨⟨fd, 0, []⟩, -1, header⟩

/-- `push_more` -/
def pushMore (q : Option Queue) (fd : ℕ) (buffer : List UInt8) : Option Queue :=
  match buffer with
  | [] => q -- no caller has nothing left
  | [header] => saveUncomplete q (oneByte fd header)
  | high :: low :: buffer =>
    let packSize := readSize high low
    if buffer.length < packSize then
      saveUncomplete q ⟨⟨fd, packSize, buffer⟩, buffer.length, 0⟩
    else
      let q := pushData q fd (buffer.take packSize) packSize
      if 0 < (buffer.drop packSize).length then pushMore q fd (buffer.drop packSize) else q
termination_by buffer.length
decreasing_by
  rw [List.length_drop, List.length_cons, List.length_cons]
  omega

/-- `if (uc->read < 0)`: the second byte of the size is taken from the chunk. -/
def fillSize (uc : Uncomplete) (buffer : List UInt8) : Uncomplete × List UInt8 :=
  if uc.read < 0 then
    (⟨⟨uc.fd, (buffer.headD 0).toNat ||| uc.header.toNat <<< 8, []⟩, 0, uc.header⟩, buffer.tail)
  else (uc, buffer)

/-- The body is filled from the chunk. -/
def fillBody (q : Option Queue) (uc : Uncomplete) (fd : ℕ) (buffer : List UInt8) :
    Option Queue × Filtered :=
  let need := uc.pack.size - uc.read
  if buffer.length < need then
    (saveUncomplete q ⟨{ uc.pack with buffer := uc.pack.buffer ++ buffer },
      uc.read + buffer.length, uc.header⟩, .nothing)
  else
    let package := uc.pack.buffer ++ buffer.take need.toNat
    let buffer := buffer.drop need.toNat
    if buffer.length = 0 then (q, .data fd package uc.pack.size)
    else (pushMore (pushData q fd package uc.pack.size) fd buffer, .more)

/-- The branch of a socket with a saved record, which is unlinked by now. -/
def filterResumed (q : Option Queue) (uc : Uncomplete) (fd : ℕ) (buffer : List UInt8) :
    Option Queue × Filtered :=
  let (uc, buffer) := fillSize uc buffer
  fillBody q uc fd buffer

/-- The branch of a socket without a saved record. -/
def filterFresh (q : Option Queue) (fd : ℕ) (buffer : List UInt8) : Option Queue × Filtered :=
  match buffer with
  | [] => (q, .nothing) -- no chunk is empty
  | [header] => (saveUncomplete q (oneByte fd header), .nothing)
  | high :: low :: buffer =>
    let packSize := readSize high low
    if buffer.length < packSize then
      (saveUncomplete q ⟨⟨fd, packSize, buffer⟩, buffer.length, 0⟩, .nothing)
    else if buffer.length = packSize then (q, .data fd buffer buffer.length)
    else
      (pushMore (pushData q fd (buffer.take packSize) packSize) fd (buffer.drop packSize), .more)

/-- `filter_data_` -/
def filterData (q : Option Queue) (fd : ℕ) (buffer : List UInt8) : Option Queue × Filtered :=
  match findUncomplete q fd with
  | (some uc, q) => filterResumed q uc fd buffer
  | (none, q) => filterFresh q fd buffer

/-! ## Runs -/

/-- The package that a result hands out. -/
def Filtered.packages : Filtered → List Netpack
  | .data fd buffer size => [⟨fd, size, buffer⟩]
  | .nothing | .more => []

/-- The queue, the bytes that have come from each socket, and the packages handed out. -/
structure Receiver where
  queue : Option Queue
  received : ℕ → List UInt8
  delivered : List Netpack

def Receiver.init : Receiver := ⟨none, fun _ => [], []⟩

inductive Event where
  /-- a chunk of a socket is filtered -/
  | chunk (fd : ℕ) (buffer : List UInt8)
  | pop

def Receiver.step (r : Receiver) : Event → Option Receiver
  | .chunk fd buffer =>
    if buffer = [] then none
    else
      let result := filterData r.queue fd buffer
      some ⟨result.1, Function.update r.received fd (r.received fd ++ buffer),
        r.delivered ++ result.2.packages⟩
  | .pop =>
    match lpop r.queue with
    | none => some r
    | some (np, q) => some { r with queue := q, delivered := r.delivered ++ [np] }

/-- The packages in the queue. -/
def Receiver.waiting (r : Receiver) : List Netpack :=
  let ring := (getQueue r.queue).ring
  (ring.drain ring.length).1

end SkynetEureka.Gate
