import SkynetEureka.Lib.Bytes

/-!
# The buffer of a connection (databuffer.h)

The blocks that a socket has sent are kept in a linked list of messages until they have been read.
The messages are taken from a pool that all connections share. A number stands for the address of a
message, and another one for a block of memory; `none` is a read of memory that is not there, or an
assertion that fails.
-/

namespace SkynetEureka.ServiceGate

open Lib Function

/-- `MESSAGEPOOL` -/
def messagePool : ℕ := 1023

/-- `struct message` -/
structure Message where
  buffer : Option ℕ
  size : ℕ
  next : Option ℕ

/-- A block of memory, and the socket that has sent it. -/
structure Block where
  socket : ℕ
  data : List UInt8

/-- The messages of `struct messagepool` (those below `allocated`) and its list of free ones, the
blocks, and the calls of `skynet_free` for them. -/
structure Memory where
  message : ℕ → Message
  allocated : ℕ
  freelist : Option ℕ
  blocks : List Block
  freed : List ℕ

/-- `struct databuffer` -/
structure Databuffer where
  header : ℤ
  offset : ℕ
  size : ℕ
  head : Option ℕ
  tail : Option ℕ

namespace Memory

variable (mem : Memory)

def init : Memory := ⟨fun _ => ⟨none, 0, none⟩, 0, none, [], []⟩

/-- `memcpy` of `n` bytes at `offset` of a block, which has not been freed -/
def copy (buffer : Option ℕ) (offset n : ℕ) : Option (List UInt8) := do
  let b ← buffer
  let block ← mem.blocks[b]?
  if b ∈ mem.freed ∨ block.data.length < offset + n then none
  else some ((block.data.drop offset).take n)

/-- A message for `databuffer_push`: the first one that is free, or the first one of a new list -/
def takeMessage : ℕ × Memory :=
  match mem.freelist with
  | some m => (m, { mem with freelist := (mem.message m).next })
  | none =>
    let bound := mem.allocated + messagePool
    (mem.allocated,
      { mem with
        message := fun a =>
          if mem.allocated < a ∧ a < bound then
            ⟨none, 0, if a + 1 < bound then some (a + 1) else none⟩
          else mem.message a
        allocated := bound
        freelist := some (mem.allocated + 1) })

end Memory

namespace Databuffer

variable (db : Databuffer) (mem : Memory)

/-- `memset` -/
def init : Databuffer := ⟨0, 0, 0, none, none⟩

/-- `_return_message` -/
def returnMessage : Option (Databuffer × Memory) := do
  let m ← db.head
  let message := mem.message m
  let db ← match message.next with
    | none => if db.tail = some m then some { db with head := none, tail := none } else none
    | some next => some { db with head := some next }
  some (db,
    { mem with
      message := update mem.message m ⟨none, 0, mem.freelist⟩
      freelist := some m
      freed := mem.freed ++ message.buffer.toList })

/-- The loop of `databuffer_read`, of at most so many rounds -/
def readLoop : ℕ → Databuffer → Memory → ℕ → Option (Databuffer × Memory × List UInt8)
  | 0, _, _, _ => none
  | rounds + 1, db, mem, sz => do
    let m ← db.head
    let current := mem.message m
    let bsz := current.size - db.offset
    if sz < bsz then
      let bytes ← mem.copy current.buffer db.offset sz
      some ({ db with offset := db.offset + sz }, mem, bytes)
    else if bsz = sz then
      let bytes ← mem.copy current.buffer db.offset sz
      let (db, mem) ← { db with offset := 0 }.returnMessage mem
      some (db, mem, bytes)
    else
      let bytes ← mem.copy current.buffer db.offset bsz
      let (db, mem) ← db.returnMessage mem
      let (db, mem, rest) ← readLoop rounds { db with offset := 0 } mem (sz - bsz)
      some (db, mem, bytes ++ rest)

/-- `databuffer_read`: each round but the last one reads a byte at least. -/
def read (sz : ℕ) : Option (Databuffer × Memory × List UInt8) :=
  if sz ≤ db.size then readLoop (sz + 1) { db with size := db.size - sz } mem sz else none

/-- `databuffer_push` -/
def push (socket : ℕ) (data : List UInt8) : Option (Databuffer × Memory) :=
  let (m, mem) := mem.takeMessage
  let mem :=
    { mem with
      message := update mem.message m ⟨some mem.blocks.length, data.length, none⟩
      blocks := mem.blocks ++ [⟨socket, data⟩] }
  let db := { db with size := db.size + data.length }
  match db.head with
  | none => if db.tail = none then some ({ db with head := some m, tail := some m }, mem) else none
  | some _ => do
    let last ← db.tail
    some ({ db with tail := some m },
      { mem with message := update mem.message last { mem.message last with next := some m } })

/-- The length in a header of 2 or 4 bytes, an int -/
def readLength (headerSize : ℕ) (plen : List UInt8) : ℤ :=
  let n := ofLeBytes plen.reverse
  if headerSize = 2 ∨ n < 2 ^ 31 then n else n - 2 ^ 32

/-- The end of `databuffer_readheader` -/
def available (db : Databuffer) : ℤ := if db.size < db.header then -1 else db.header

/-- `databuffer_readheader` -/
def readheader (headerSize : ℕ) : Option (Databuffer × Memory × ℤ) :=
  if db.header = 0 then
    if db.size < headerSize then some (db, mem, -1)
    else do
      let (db, mem, plen) ← db.read mem headerSize
      let db := { db with header := readLength headerSize plen }
      some (db, mem, db.available)
  else some (db, mem, db.available)

/-- `databuffer_reset` -/
def reset : Databuffer := { db with header := 0 }

/-- The loop of `databuffer_clear`, of at most so many rounds -/
def clearLoop : ℕ → Databuffer → Memory → Option Memory
  | 0, _, _ => none
  | rounds + 1, db, mem =>
    match db.head with
    | none => some mem
    | some _ => do
      let (db, mem) ← db.returnMessage mem
      clearLoop rounds db mem

/-- `databuffer_clear`: each message but the first one has a byte that has not been read, and the
first one has too. -/
def clear : Option (Databuffer × Memory) := do
  let mem ← clearLoop (db.size + 1) db mem
  some (init, mem)

end Databuffer

end SkynetEureka.ServiceGate
