import SkynetEureka.Lib.Run
import SkynetEureka.Socket.Buffer

/-!
# The nodes of socket buffers (lua-socket.c)

The buffers of a service take their nodes from one pool. A list of nodes stands for a linked list; a
node has an address, and a block that has been given with `lpushbuffer`. The blocks are numbered in
the order in which they come.
-/

namespace SkynetEureka.Socket

open Lib

/-- `LARGE_PAGE_NODE` -/
def largePageNode : ℕ := 12

/-- `struct buffer_node`, of a list: its address, and its block with the number of it -/
structure Node where
  addr : ℕ
  block : ℕ
  msg : Bytes

/-- `struct socket_buffer` -/
structure SocketBuffer where
  size : ℤ
  offset : ℕ
  nodes : List Node

/-- The table `pool`: `freeNodes` are the node at index 1 and those behind it, `chunks` is the
number of userdata behind index 1, which have `allocated` nodes in all. `pushed` is the number of blocks
that have come, and `freed` are those for which `skynet_free` has been called. -/
structure Pool where
  freeNodes : List ℕ
  chunks : ℕ
  allocated : ℕ
  pushed : ℕ
  freed : List ℕ

namespace Pool

variable (pool : Pool)

def init : Pool := ⟨[], 0, 0, 0, []⟩

/-- The size of the next chunk in `lpushbuffer` -/
def chunkSize : ℕ :=
  let tsz := pool.chunks + 1
  if tsz ≤ largePageNode - 3 then 8 <<< tsz else 8 <<< (largePageNode - 3)

/-- The node that `lpushbuffer` takes -/
def takeNode : ℕ × Pool :=
  match pool.freeNodes with
  | a :: rest => (a, { pool with freeNodes := rest })
  | [] =>
    (pool.allocated,
      { pool with
        freeNodes := List.range' (pool.allocated + 1) (pool.chunkSize - 1)
        chunks := pool.chunks + 1
        allocated := pool.allocated + pool.chunkSize })

/-- `return_free_node`: the node goes back to the pool, and its block is freed. -/
def returnFreeNode (node : Node) : Pool :=
  { pool with freeNodes := node.addr :: pool.freeNodes, freed := pool.freed ++ [node.block] }

end Pool

namespace SocketBuffer

variable (sb : SocketBuffer) (pool : Pool)

/-- `lnewbuffer` -/
def init : SocketBuffer := ⟨0, 0, []⟩

/-- `lpushbuffer` -/
def push (msg : Bytes) : SocketBuffer × Pool :=
  let (addr, pool) := pool.takeNode
  ({ sb with
      size := toInt (sb.size + msg.length)
      nodes := sb.nodes ++ [⟨addr, pool.pushed, msg⟩] },
    { pool with pushed := pool.pushed + 1 })

/-- The loop of `pop_lstring` -/
def popLoop (skip : ℕ) :
    List Node → ℕ → Pool → ℕ → Bytes → Option (Bytes × ℕ × List Node × Pool)
  | [], _, _, _, _ => none
  | current :: rest, offset, pool, sz, b =>
    let bytes := current.msg.length - offset
    if sz ≤ bytes then
      let b := if skip < sz then b ++ (current.msg.drop offset).take (sz - skip) else b
      if bytes = sz then some (b, 0, rest, pool.returnFreeNode current)
      else some (b, offset + sz, current :: rest, pool)
    else
      let realSz := sz - skip
      let b := if 0 < realSz then
        b ++ (current.msg.drop offset).take (if realSz < bytes then realSz else bytes) else b
      popLoop skip rest 0 (pool.returnFreeNode current) (sz - bytes) b

/-- `pop_lstring` -/
def popLstring (sz : ℤ) (skip : ℕ) : Option (Bytes × SocketBuffer × Pool) :=
  match sb.nodes with
  | [] => none
  | current :: rest =>
    if sz < current.msg.length - sb.offset then do
      let ret ← pushBytes (current.msg.drop sb.offset) (sz - skip)
      some (ret, { sb with offset := sb.offset + sz.toNat }, pool)
    else if sz = current.msg.length - sb.offset then do
      let ret ← pushBytes (current.msg.drop sb.offset) (sz - skip)
      some (ret, { sb with offset := 0, nodes := rest }, pool.returnFreeNode current)
    else do
      let (b, offset, nodes, pool) ← popLoop skip sb.nodes sb.offset pool sz.toNat []
      some (b, { sb with offset := offset, nodes := nodes }, pool)

/-- `lpopbuffer` -/
def pop (n : ℤ) : Option (Option Bytes × SocketBuffer × Pool) :=
  let sz := toInt n
  if sb.size < sz ∨ sz = 0 then some (none, sb, pool)
  else do
    let (ret, sb', pool) ← sb.popLstring pool sz 0
    some (some ret, { sb' with size := toInt (sb'.size - sz) }, pool)

/-- The loop of `lreadall` -/
def readallLoop : List Node → ℕ → Pool → Bytes → Bytes × Pool
  | [], _, pool, b => (b, pool)
  | current :: rest, offset, pool, b =>
    readallLoop rest 0 (pool.returnFreeNode current) (b ++ current.msg.drop offset)

/-- The buffer after its nodes have been returned one by one, with `size` set to 0 -/
def emptied : SocketBuffer := if sb.nodes = [] then { sb with size := 0 } else init

/-- `lreadall` -/
def readall : Bytes × SocketBuffer × Pool :=
  let (b, pool) := readallLoop sb.nodes sb.offset pool []
  (b, sb.emptied, pool)

/-- `lclearbuffer` -/
def clear : SocketBuffer × Pool := (sb.emptied, sb.nodes.foldl Pool.returnFreeNode pool)

/-- The bytes of the nodes, without their addresses -/
def toBuffer : Buffer := ⟨sb.size, sb.offset, sb.nodes.map Node.msg⟩

/-- `lreadline`, with a pool: nothing is changed before the separator is found. -/
def readline (sep : Bytes) : Option (Option Bytes × SocketBuffer × Pool) := do
  let found ← sb.toBuffer.search sep
  match found with
  | none => some (none, sb, pool)
  | some i => do
    let (ret, sb', pool) ← sb.popLstring pool (i + sep.length) sep.length
    some (some ret, { sb' with size := toInt (sb'.size - (i + sep.length)) }, pool)

end SocketBuffer

/-- Bytes, one at least -/
abbrev SomeBytes := { b : Bytes // b ≠ [] }

/-- The functions on a buffer -/
inductive Op where
  | push (msg : SomeBytes)
  | pop (n : ℕ)
  | readline (sep : SomeBytes)
  | readall
  | clear

/-- What happens: there is a new buffer, or a function is called with one of the buffers. -/
inductive PoolAct where
  | newbuffer
  | call (i : ℕ) (op : Op)

/-- A function, with what it returns -/
def SocketBuffer.exec (sb : SocketBuffer) (pool : Pool) :
    Op → Option (Option Bytes × SocketBuffer × Pool)
  | .push msg => some (none, sb.push pool msg)
  | .pop n => sb.pop pool n
  | .readline sep => sb.readline pool sep
  | .readall =>
    let (b, sb, pool) := sb.readall pool
    some (some b, sb, pool)
  | .clear => some (none, sb.clear pool)

/-- The buffers of a service, and their pool -/
structure Sockets where
  buffers : List SocketBuffer
  pool : Pool

namespace Sockets

def init : Sockets := ⟨[], .init⟩

/-- A call without a buffer is an error, and changes nothing. -/
def exec (s : Sockets) : PoolAct → Option (Option Bytes × Sockets)
  | .newbuffer => some (none, { s with buffers := s.buffers ++ [.init] })
  | .call i op =>
    match s.buffers[i]? with
    | none => some (none, s)
    | some sb => do
      let (ret, sb, pool) ← sb.exec s.pool op
      some (ret, ⟨s.buffers.set i sb, pool⟩)

def step (s : Sockets) (a : PoolAct) : Option Sockets := (s.exec a).map Prod.snd

end Sockets

end SkynetEureka.Socket
