import SkynetEureka.Lib.Interleaving

/-!
# What a TCP socket sends (`socket_server.c`)

A connected TCP socket is followed until it is closed. Any number of threads call `socket_server_send` and
`socket_server_send_lowpriority`, and the socket thread executes the commands of the pipe and writes the
two lists of buffers. A caller that finds nothing to send writes to the descriptor itself, under
`s->dw_lock`; what is not accepted is left in `s->dw_buffer`. `can_direct_write` reads the fields one by
one, and is called a second time when the lock is held.

A package is one call. It carries the calls that had returned when it began, so that one can say which
call was before which. What `write` accepts and which events the socket thread gets is given with the threads.

`send_object` is the buffer itself (`sz >= 0`). `EINTR` repeats a write, and is left out.
-/

namespace SkynetEureka.SocketServer

open Lib

/-! ## Packages and buffers -/

structure Package where
  id : ℕ
  /-- The calls that had returned when this one began -/
  seen : List ℕ
  /-- `PRIORITY_HIGH` -/
  high : Bool
  bytes : List UInt8
  deriving DecidableEq

/-- `struct write_buffer`, with the number of bytes between `buffer` and `ptr` -/
structure Buffer where
  package : Package
  offset : ℕ
  deriving DecidableEq

/-- What is left from `ptr` on -/
def Buffer.rest (b : Buffer) : List UInt8 := b.package.bytes.drop b.offset

/-- What is before `ptr` -/
def Buffer.taken (b : Buffer) : List UInt8 := b.package.bytes.take b.offset

def Buffer.sz (b : Buffer) : ℕ := b.rest.length

/-- `list_uncomplete` -/
def listUncomplete : List Buffer → Bool
  | [] => false
  | wb :: _ => wb.offset ≠ 0

/-! ## The socket -/

inductive SocketType where
  | connected | halfclose | invalid
  deriving DecidableEq, Repr

inductive Command where
  /-- `D` or `P`, by the priority of the package -/
  | send (p : Package)
  /-- `K` -/
  | close (shutdown : Bool)
  deriving DecidableEq

/-- `struct socket` and the pipe. From `out` on the fields only record what was done: the bytes that `write` took
before the socket thread began to close the socket, and those that it took after that; the packages that
were sent whole, and those that were freed otherwise; the buffer that a caller writes, until it is in
`dw_buffer`; and the calls. -/
structure Socket where
  type : SocketType
  high : List Buffer
  low : List Buffer
  wbSize : ℤ
  /-- The low 16 bits of `s->sending` -/
  sending : ℕ
  dwLock : Bool
  dwBuffer : Option Buffer
  /-- The write event is on (`sp_write`). -/
  event : Bool
  pipe : List Command
  out : List UInt8
  late : List UInt8
  closing : Bool
  sent : List Package
  freed : List Package
  writing : Option Buffer
  returned : List ℕ
  next : ℕ
  deriving DecidableEq

/-- A socket that has just been connected -/
def connected : Socket where
  type := .connected
  high := []
  low := []
  wbSize := 0
  sending := 0
  dwLock := false
  dwBuffer := none
  event := false
  pipe := []
  out := []
  late := []
  closing := false
  sent := []
  freed := []
  writing := none
  returned := []
  next := 0

/-- The bytes that `write` takes are before or after the beginning of the close. -/
def Socket.write (m : Socket) (bytes : List UInt8) : Socket :=
  if m.closing then { m with late := m.late ++ bytes } else { m with out := m.out ++ bytes }

/-- A package of which the last byte was taken -/
def Socket.done (m : Socket) (p : Package) : Socket :=
  if m.closing then { m with freed := m.freed ++ [p] } else { m with sent := m.sent ++ [p] }

def Socket.free (m : Socket) (packages : List Package) : Socket := { m with freed := m.freed ++ packages }

/-- `send_socket`: without anything to send also a package of low priority is put into the high list. -/
def sendSocket (m : Socket) (p : Package) : Socket :=
  if m.type = .invalid ∨ m.type = .halfclose then m.free [p]
  else if m.high = [] ∧ m.low = [] ∧ m.type = .connected then
    { m with high := [⟨p, 0⟩], wbSize := m.wbSize + p.bytes.length, event := true }
  else if p.high then { m with high := m.high ++ [⟨p, 0⟩], wbSize := m.wbSize + p.bytes.length }
  else { m with low := m.low ++ [⟨p, 0⟩], wbSize := m.wbSize + p.bytes.length }

/-! ## Threads -/

/-- What `write` does: it takes some bytes, or none with `EAGAIN`, or fails. -/
inductive Written where
  | accepts (n : ℕ)
  | again
  | fails
  deriving DecidableEq

/-- What the socket thread does next: it takes a command, with what the writes do that belong to it, or it
handles a write event, or the connection is broken. -/
inductive Event where
  | command (writes : List Written)
  | writable (writes : List Written)
  | broken
  deriving DecidableEq

/-- What `can_direct_write` reads next -/
inductive Field where
  | high | low | dwBuffer | sending | type
  deriving DecidableEq

/-- The next line of the socket thread. `shutdown` is there when the line belongs to `close_socket`. -/
inductive Phase where
  /-- `socket_server_poll` -/
  | poll
  /-- `dec_sending_ref` -/
  | dec
  /-- `nomore_sending_data` in `close_socket`, before and after `send_buffer`: what it reads next is
  `s->sending`, or the lists and `s->dw_buffer` -/
  | nomore (again reads : Bool) (shutdown : Bool) (writes : List Written)
  /-- `socket_trylock` in `send_buffer` -/
  | trylock (shutdown : Option Bool) (writes : List Written)
  /-- `dw_buffer` is put before `high.head` -/
  | move (shutdown : Option Bool) (writes : List Written)
  /-- the loop of `send_list_tcp`, of the low list or the high one -/
  | list (low : Bool) (shutdown : Option Bool) (writes : List Written)
  /-- `list->head = tmp->next` -/
  | pop (low : Bool) (shutdown : Option Bool) (writes : List Written)
  /-- the rest of `send_buffer_`, after one of the two lists -/
  | after (low : Bool) (shutdown : Option Bool) (writes : List Written)
  /-- step 4 of `send_buffer_` -/
  | last (shutdown : Option Bool)
  | unlock (shutdown : Option Bool)
  /-- `force_close` frees the lists, and the lock is held or not. -/
  | free (locked : Bool)
  /-- `socket_lock` in `force_close` -/
  | lock
  /-- the socket is closed, and `dw_buffer` is freed -/
  | invalid
  | unlockClosed
  deriving DecidableEq

inductive Thread where
  /-- A call; `n` is how many bytes `write` takes at most, if it gets so far. -/
  | send (high : Bool) (bytes : List UInt8) (n : ℕ)
  | check (again : Bool) (field : Field) (p : Package) (n : ℕ)
  | trylock (p : Package) (n : ℕ)
  /-- `write`, under the lock -/
  | write (p : Package) (n : ℕ)
  /-- `s->dw_buffer = buffer` -/
  | park (id : ℕ)
  /-- `sp_write` -/
  | arm (id : ℕ)
  /-- `socket_unlock`, and the call returns -/
  | unlock (id : ℕ)
  /-- `socket_unlock`, when the second check has failed -/
  | giveUp (p : Package)
  /-- `inc_sending_ref` -/
  | count (p : Package)
  /-- `send_request` -/
  | request (p : Package)
  /-- `socket_server_close` and `socket_server_shutdown` -/
  | close (shutdown : Bool)
  | socket (phase : Phase) (events : List Event)
  | ended
  deriving DecidableEq

def Socket.return (m : Socket) (id : ℕ) : Socket := { m with returned := m.returned ++ [id] }

/-- What `can_direct_write` sees in a field -/
def Field.idle (m : Socket) : Field → Bool
  | .high => m.high = []
  | .low => m.low = []
  | .dwBuffer => m.dwBuffer = none
  | .sending => m.sending = 0
  | .type => m.type = .connected

/-- The field that `can_direct_write` reads after another -/
def Field.next : Field → Option Field
  | .high => some .low
  | .low => some .dwBuffer
  | .dwBuffer => some .sending
  | .sending => some .type
  | .type => none

/-- A result of a step: the memory and the thread, or a fault -/
abbrev Result := Option (Socket × Thread)

/-- `send_buffer` returns. -/
def Phase.back : Option Bool → Phase
  | none => .poll
  | some shutdown => .nomore true false shutdown []

def Socket.list (m : Socket) (low : Bool) : List Buffer := if low then m.low else m.high

def Socket.setList (m : Socket) (low : Bool) (list : List Buffer) : Socket :=
  if low then { m with low := list } else { m with high := list }

/-- The direct write buffer is put before `high.head`. -/
def Socket.move (m : Socket) : Socket :=
  match m.dwBuffer with
  | none => m
  | some b => { m with high := b :: m.high, wbSize := m.wbSize + b.sz, dwBuffer := none }

/-- One turn of the loop of `send_list_tcp` -/
def sendListTcp (m : Socket) (low : Bool) (shutdown : Option Bool) (writes : List Written) : Socket × Phase :=
  match m.list low, writes with
  | [], _ => (m, .after low shutdown writes)
  | _, [] => (m, .after low shutdown [])
  | _, .again :: writes => (m, .after low shutdown writes)
  | _, .fails :: _ => (m, .free true)
  | b :: bs, .accepts n :: writes =>
    let n := min n b.sz
    let m' := { m.write (b.rest.take n) with wbSize := m.wbSize - n }
    let m' := m'.setList low (⟨b.package, b.offset + n⟩ :: bs)
    (m', if n = b.sz then .pop low shutdown writes else .after low shutdown writes)

/-- The next step of the socket thread; `some none` is an assertion that fails. -/
def Phase.step (m : Socket) (events : List Event) : Phase → Option Result
  | .poll =>
    match events with
    | [] => some (some (m, .ended))
    | .broken :: events =>
      some (some (m, .socket (if m.type = .invalid then .poll else .free false) events))
    | .writable writes :: events =>
      some (some (m, .socket (if m.type = .invalid then .poll else .trylock none writes) events))
    | .command writes :: events =>
      match m.pipe with
      | [] => some (some (m, .socket .poll events))
      | .send p :: pipe => some (some (sendSocket { m with pipe := pipe } p, .socket .dec events))
      | .close shutdown :: pipe =>
        some (some ({ m with pipe := pipe },
          .socket (if m.type = .invalid then .poll else .nomore false false shutdown writes) events))
  | .dec =>
    some (if m.sending = 0 then none else some ({ m with sending := m.sending - 1 }, .socket .poll events))
  | .nomore again false shutdown writes =>
    if m.high = [] ∧ m.low = [] ∧ m.dwBuffer = none then
      some (some (m, .socket (.nomore again true shutdown writes) events))
    else if again then
      if shutdown then some (some (m, .socket (.free false) events))
      else some (some ({ m with type := .halfclose }, .socket .poll events))
    else some (some (m, .socket (.trylock (some shutdown) writes) events))
  | .nomore again true shutdown writes =>
    if again then
      if shutdown ∨ m.sending = 0 then some (some (m, .socket (.free false) events))
      else some (some ({ m with type := .halfclose }, .socket .poll events))
    else if m.sending = 0 then some (some (m, .socket (.nomore true false shutdown []) events))
    else some (some (m, .socket (.trylock (some shutdown) writes) events))
  | .trylock shutdown writes =>
    if m.dwLock then some (some (m, .socket (.back shutdown) events))
    else some (some ({ m with dwLock := true }, .socket (.move shutdown writes) events))
  | .move shutdown writes =>
    -- `assert(!list_uncomplete(&s->low))`
    some (if listUncomplete m.move.low then none
      else some (m.move, .socket (.list false shutdown writes) events))
  | .list low shutdown writes =>
    let (m', phase) := sendListTcp m low shutdown writes
    some (some (m', .socket phase events))
  | .pop low shutdown writes =>
    match m.list low with
    | [] => some none
    | b :: bs =>
      some (some ((m.done b.package).setList low bs, .socket (.list low shutdown writes) events))
  | .after false shutdown writes =>
    some (some (m, .socket (if m.high ≠ [] then .unlock shutdown
      else if m.low ≠ [] then .list true shutdown writes
      else .last shutdown) events))
  | .after true shutdown _ =>
    match m.low with
    | [] => some (some (m, .socket (.last shutdown) events))
    | b :: low =>
      if b.offset ≠ 0 then
        -- `raise_uncomplete`, with `assert(high->head == NULL)`
        some (if m.high = [] then
          some ({ m with low := low, high := [b] }, .socket (.unlock shutdown) events) else none)
      else some (some (m, .socket (.unlock shutdown) events))
  | .last shutdown =>
    -- `assert(send_buffer_empty(s) && s->wb_size == 0)`
    some (if m.high = [] ∧ m.low = [] ∧ m.wbSize = 0 then
      some ({ m with event := false },
        .socket (if m.type = .halfclose then .free true else .unlock shutdown) events)
      else none)
  | .unlock shutdown => some (some ({ m with dwLock := false }, .socket (.back shutdown) events))
  | .free locked =>
    some (some ({ m.free ((m.high ++ m.low).map Buffer.package) with high := [], low := [], closing := true },
      .socket (if locked then .invalid else .lock) events))
  | .lock =>
    if m.dwLock then none else some (some ({ m with dwLock := true }, .socket .invalid events))
  | .invalid =>
    some (some ({ m.free (m.dwBuffer.toList.map Buffer.package) with type := .invalid, dwBuffer := none },
      .socket .unlockClosed events))
  | .unlockClosed => some (some ({ m with dwLock := false }, .socket .poll events))

/-- The next step of a thread. `inc_sending_ref` waits while the counter is full. -/
def Thread.step (m : Socket) : Thread → Option Result
  | .send high bytes n =>
    let p : Package := ⟨m.next, m.returned, high, bytes⟩
    let m' := { m with next := m.next + 1 }
    some (some (if m.type = .invalid then ((m'.free [p]).return p.id, .ended)
      else (m', if high then .check false .high p n else .count p)))
  | .check again field p n =>
    some (some (m,
      if field.idle m then
        match field.next with
        | some field => .check again field p n
        | none => if again then .write p n else .trylock p n
      else if again then .giveUp p else .count p))
  | .trylock p n =>
    some (some (if m.dwLock then (m, .count p) else ({ m with dwLock := true }, .check true .high p n)))
  | .write p n =>
    let n := min n p.bytes.length
    let m' := m.write (p.bytes.take n)
    some (some (if n = p.bytes.length then (m'.done p, .unlock p.id)
      else ({ m' with writing := some ⟨p, n⟩ }, .park p.id)))
  | .park id => some (some ({ m with dwBuffer := m.writing, writing := none }, .arm id))
  | .arm id => some (some ({ m with event := true }, .unlock id))
  | .unlock id => some (some ({ m with dwLock := false }.return id, .ended))
  | .giveUp p => some (some ({ m with dwLock := false }, .count p))
  | .count p =>
    if m.sending = 0xffff then none
    else some (some ({ m with sending := m.sending + 1 }, .request p))
  | .request p => some (some ({ m with pipe := m.pipe ++ [Command.send p] }.return p.id, .ended))
  | .close shutdown => some (some ({ m with pipe := m.pipe ++ [Command.close shutdown] }, .ended))
  | .socket phase events => phase.step m events
  | .ended => none

/-- The calls, of which any number may begin at any time, and the socket thread -/
def server : Program Socket Thread where
  starts
    | .send _ _ _ | .close _ => true
    | _ => false
  next m t := (t.step m).map fun r => r.map fun (m, t) => (m, t, [])

/-- A connected socket, with what will happen to it -/
def start (events : List Event) : Threads Socket Thread := ⟨connected, [.socket .poll events], false⟩

end SkynetEureka.SocketServer
