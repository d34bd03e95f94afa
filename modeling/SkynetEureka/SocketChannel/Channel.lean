import SkynetEureka.Lib.Run

/-!
# A socket channel in order mode (socketchannel.lua)

The callers of a channel queue up in `__request` and `__thread`, and a dispatch coroutine reads
their responses one after another. A coroutine is a number, and so is a connection. What a coroutine
does between two points where it yields is one step.

The connections, what they have received and what has been read of it, and the records of the
callers (`waits`, `joined`, `served`) are not fields of the channel.
-/

namespace SkynetEureka.SocketChannel

open Lib Function

variable {D : Type}

/-- What a response function returns, and how many bytes it has read. -/
structure Reply (D : Type) where
  ok : Bool
  data : D
  padding : Bool
  size : ℕ

/-- A response function, as a function of the bytes of a connection that have not been read: `none`
when it has to wait for more of them. -/
structure Response (D : Type) where
  run : List UInt8 → Option (Reply D)
  extend : ∀ bytes more reply, run bytes = some reply → run (bytes ++ more) = some reply
  size_le : ∀ bytes reply, run bytes = some reply → reply.size ≤ bytes.length

/-- What stands in `__result_data` -/
inductive Value (D : Type) where
  | one (data : D)
  | parts (data : List D)
  | message (text : String)

/-- What stands in `__result` -/
inductive Result where
  | answer (ok : Bool)
  | socketError

/-- What has been put down for a caller when it was woken, by the dispatch coroutine of the
connection or by a request that failed on it. -/
structure Outcome (D : Type) where
  conn : ℕ
  result : Result
  data : Option (Value D)

/-- A caller, and how many have queued up on its connection before it. -/
structure Caller (D : Type) where
  co : ℕ
  index : ℕ
  response : Response D

/-- A caller that has queued up on a connection, and how often it has been woken. -/
structure Wait (D : Type) where
  conn : ℕ
  caller : Caller D
  woken : ℕ
  outcome : Option (Outcome D)

/-- A response function that has returned for a caller, from its first byte on. -/
structure Served (D : Type) where
  caller : Caller D
  ok : Bool
  value : Value D
  size : ℕ

/-- Where the dispatch coroutine is: before it runs, in `pop_response`, in a response function with
the parts it has so far, or in `close_channel_socket` after an error. -/
inductive Phase (D : Type) where
  | start
  | waiting
  | called (co : ℕ) (func : Response D) (parts : Option (List D))
  | closing (co : ℕ) (errmsg : Option String)

structure Dispatch (D : Type) where
  conn : ℕ
  phase : Phase D

/-- What a coroutine calls. The response of a request may be missing. -/
inductive Call (D : Type) where
  | request (response : Option (Response D))
  | response (response : Response D)
  | connect (once : Bool)

/-- Where the coroutine is that connects: in `socket.open`, waiting for the old dispatch coroutine,
in `__auth`, in `close_channel_socket` after it has failed, or asleep before the next try. -/
inductive Connecting where
  | opening
  | awaiting
  | authing
  | authClosing
  | sleeping
  deriving DecidableEq

structure Connector (D : Type) where
  co : ℕ
  once : Bool
  call : Call D
  phase : Connecting

/-- The channel. `true` in `__request` and `false` in `__thread` are `none`. The coroutines of
`__connecting` behind the first one are `connecting`, and those that go on after it are `ready`.
`failing` are the requests whose write has failed, in `close_channel_socket`. -/
structure State (D : Type) where
  auth : Bool
  sock : Option ℕ
  closed : Bool
  authcoroutine : Option ℕ
  request : List (Option (Response D))
  thread : List (Option ℕ)
  result : ℕ → Option Result
  resultData : ℕ → Option (Value D)
  waitResponse : Bool
  dispatchThread : Option (Dispatch D)
  connector : Option (Connector D)
  connecting : List (ℕ × Call D)
  ready : List (ℕ × Call D)
  failing : List (ℕ × ℕ)
  connections : ℕ
  received : ℕ → List UInt8
  consumed : ℕ → ℕ
  waits : ℕ → Option (Wait D)
  joined : ℕ → List (Caller D)
  served : ℕ → List (Served D)

/-- `table.insert(self.__result_data[co], result_data)` -/
def Value.insert : Value D → Value D → Value D
  | .parts l, .one data => .parts (l ++ [data])
  | old, _ => old

namespace State

variable (s : State D)

def init (auth : Bool) : State D where
  auth := auth
  sock := none
  closed := false
  authcoroutine := none
  request := []
  thread := []
  result := fun _ => none
  resultData := fun _ => none
  waitResponse := false
  dispatchThread := none
  connector := none
  connecting := []
  ready := []
  failing := []
  connections := 0
  received := fun _ => []
  consumed := fun _ => 0
  waits := fun _ => none
  joined := fun _ => []
  served := fun _ => []

/-- `__result`, `__result_data` and `skynet.wakeup` -/
def wakeup (co conn : ℕ) (result : Result) (data : Option (Value D)) : State D :=
  { s with
    result := update s.result co (some result)
    resultData := update s.resultData co data
    waits := update s.waits co ((s.waits co).map fun w =>
      { w with woken := w.woken + 1, outcome := some ⟨conn, result, data⟩ }) }

/-- The loop of `wakeup_all` -/
def wakeupThread (conn : ℕ) (errmsg : Option String) : List (Option ℕ) → State D → State D
  | [], s => s
  -- ignore the close signal
  | none :: thread, s => wakeupThread conn errmsg thread s
  | some co :: thread, s =>
    wakeupThread conn errmsg thread (s.wakeup co conn .socketError (errmsg.map .message))

/-- `wakeup_all`, after an error on a connection -/
def wakeupAll (conn : ℕ) (errmsg : Option String) : State D :=
  wakeupThread conn errmsg s.thread { s with request := [], thread := [] }

/-- `push_response` -/
def pushResponse (response : Option (Response D)) (co : Option ℕ) : State D :=
  { s with request := s.request ++ [response], thread := s.thread ++ [co], waitResponse := false }

/-- `term_dispatch_thread` -/
def termDispatchThread : State D :=
  match s.dispatchThread with
  | none => s
  | some _ => s.pushResponse none none

/-! ## The dispatch coroutine -/

/-- An error in the response function of a caller: the socket is closed. -/
def raise (conn co : ℕ) (errmsg : Option String) : State D :=
  { s with sock := none, dispatchThread := some ⟨conn, .closing co errmsg⟩ }

/-- `pop_response`, and what follows it up to the response function -/
def popResponse (conn : ℕ) : State D :=
  let co := s.thread.head?.join
  let s' := { s with request := s.request.tail, thread := s.thread.tail }
  match s.request, co with
  | [], _ => { s' with waitResponse := true, dispatchThread := some ⟨conn, .waiting⟩ }
  -- close signal
  | _ :: _, none =>
    { s'.wakeupAll conn (some "channel_closed") with dispatchThread := none }
  | none :: _, some co => s'.raise conn co (some "attempt to call a boolean value")
  | some func :: _, some co => { s' with dispatchThread := some ⟨conn, .called co func none⟩ }

/-- The test of the loop in `dispatch_by_order` -/
def dispatchLoop (conn : ℕ) : State D :=
  match s.sock with
  | none => { s with dispatchThread := none }
  | some _ => s.popResponse conn

/-- The bytes of a connection that have not been read -/
def unread (conn : ℕ) : List UInt8 := (s.received conn).drop (s.consumed conn)

/-- A caller gets what its response function has returned, and the loop goes on. -/
def answer (conn co : ℕ) (func : Response D) (ok : Bool) (value : Value D) (size : ℕ) : State D :=
  let data :=
    match ok, s.resultData co with
    | true, some old => old.insert value
    | _, _ => value
  let s := s.wakeup co conn (.answer ok) (some data)
  let entry : Served D := ⟨⟨co, (s.served conn).length, func⟩, ok, value, size⟩
  { s with served := update s.served conn (s.served conn ++ [entry]) }.dispatchLoop conn

/-- `get_response` when the response function has returned -/
def respond (conn co : ℕ) (func : Response D) (parts : Option (List D)) (reply : Reply D) :
    State D :=
  let s := { s with consumed := update s.consumed conn (s.consumed conn + reply.size) }
  let size := s.consumed conn - ((s.served conn).map Served.size).sum
  match parts with
  | none =>
    if reply.ok ∧ reply.padding then
      { s with dispatchThread := some ⟨conn, .called co func (some [reply.data])⟩ }
    else s.answer conn co func reply.ok (.one reply.data) size
  | some l =>
    if ¬reply.ok then s.answer conn co func reply.ok (.one reply.data) size
    else if reply.padding then
      { s with dispatchThread := some ⟨conn, .called co func (some (l ++ [reply.data]))⟩ }
    else s.answer conn co func true (.parts (l ++ [reply.data])) size

/-- The end of an error in a response function, after the socket has been closed -/
def fail (conn co : ℕ) (errmsg : Option String) : State D :=
  let s := s.wakeup co conn .socketError (errmsg.map .message)
  (s.wakeupAll conn errmsg).dispatchLoop conn

/-! ## Connecting -/

/-- The end of `block_connect` of the coroutine that has connected: it goes on, and so do those that
have waited for it. -/
def connected (c : Connector D) : State D :=
  { s with
    connector := none, connecting := []
    ready := s.ready ++ (c.co, c.call) :: s.connecting }

/-- `connect_once`, up to `socket.open`; `none` when it is closed, or an assertion fails. -/
def connectOnce (c : Connector D) : Option (State D) :=
  if s.closed ∨ s.sock.isSome ∨ s.authcoroutine.isSome then none
  else some { s.termDispatchThread with connector := some { c with phase := .opening } }

/-- A try has failed. -/
def retry (c : Connector D) : State D :=
  if c.once then s.connected c else { s with connector := some { c with phase := .sleeping } }

/-- A round of `try_connect` -/
def tryConnect (c : Connector D) : State D :=
  if s.closed then s.connected c else (s.connectOnce c).getD (s.retry c)

/-- The rest of `connect_once`, when the old dispatch coroutine has come to its end -/
def establish (c : Connector D) : State D :=
  match s.dispatchThread with
  | some _ => { s with connector := some { c with phase := .awaiting } }
  | none =>
    let s :=
      { s with
        sock := some s.connections
        connections := s.connections + 1
        dispatchThread := some ⟨s.connections, .start⟩ }
    if s.auth then
      { s with authcoroutine := some c.co, connector := some { c with phase := .authing } }
    else s.connected c

/-- `check_connection`; `disconnected` tells whether the peer has closed the socket. -/
def checkConnection (co : ℕ) (disconnected : Bool) : State D × Option Bool :=
  let r := if s.closed then some false else none
  match s.sock with
  | none => (s, r)
  | some _ =>
    if disconnected then ({ s with sock := none }, none)
    else
      match s.authcoroutine with
      | none => (s, some true)
      | some authco => (s, if authco = co then some true else r)

/-- `wait_for_response`, up to the wait -/
def waitForResponse (conn co : ℕ) (response : Response D) : State D :=
  let caller : Caller D := ⟨co, (s.joined conn).length, response⟩
  { s.pushResponse (some response) (some co) with
    waits := update s.waits co (some ⟨conn, caller, 0, none⟩)
    joined := update s.joined conn (s.joined conn ++ [caller]) }

/-- The rest of a call on a connection. When the write of a request fails, the socket is closed. -/
def proceed (conn co : ℕ) (written : Bool) : Call D → State D
  | .request response =>
    if ¬written then { s with sock := none, failing := s.failing ++ [(co, conn)] }
    else
      match response with
      | none => s
      | some response => s.waitForResponse conn co response
  | .response response => s.waitForResponse conn co response
  | .connect _ => s

/-- A call goes on with a connection; an error is raised when there is none. -/
def goOn (co : ℕ) (call : Call D) (written : Bool) : State D × Option Bool → State D
  | (s, some true) =>
    match s.sock with
    | none => s
    | some conn => s.proceed conn co written call
  | (s, _) => s

def Call.once : Call D → Bool
  | .request _ => true
  | .response _ => false
  | .connect once => once

/-- `block_connect`, and what follows it when there is a connection -/
def blockConnect (co : ℕ) (call : Call D) (disconnected written : Bool) : State D :=
  match s.checkConnection co disconnected with
  | (s, none) =>
    match s.connector with
    | some _ => { s with connecting := s.connecting ++ [(co, call)] }
    | none => s.tryConnect ⟨co, Call.once call, call, .opening⟩
  | (s, some r) => goOn co call written (s, some r)

/-- The coroutine is not in a call, or in its `__auth`. -/
def Free (co : ℕ) : Prop :=
  (s.waits co).isNone ∧ co ∉ s.failing.map Prod.fst ∧ co ∉ s.connecting.map Prod.fst ∧
    co ∉ s.ready.map Prod.fst ∧ ∀ c ∈ s.connector, c.co = co → c.phase = .authing

instance (co : ℕ) : Decidable (s.Free co) :=
  inferInstanceAs (Decidable ((s.waits co).isNone ∧ co ∉ s.failing.map Prod.fst ∧
    co ∉ s.connecting.map Prod.fst ∧ co ∉ s.ready.map Prod.fst ∧
      ∀ c ∈ s.connector, c.co = co → c.phase = .authing))

end State

/-- A step. The environment tells whether the peer has closed the socket and whether the write
succeeds. -/
inductive Action (D : Type) where
  /-- `channel:request`, `channel:response` and `channel:connect` -/
  | call (co : ℕ) (call : Call D) (disconnected written : Bool)
  /-- a coroutine goes on after it has waited for the connection -/
  | resume (disconnected written : Bool)
  /-- `socket.open` (or that of a backup) returns -/
  | opened (ok : Bool)
  /-- the connecting coroutine looks again after `skynet.yield` -/
  | yielded
  /-- `__auth` returns, or raises an error -/
  | authed (ok : Bool)
  | authClosed
  | slept
  /-- a request whose write has failed goes on -/
  | failed (i : ℕ)
  /-- a caller that has been woken goes on -/
  | woken (co : ℕ)
  /-- the dispatch coroutine starts, or goes on in `pop_response` -/
  | dispatch
  /-- the response function returns, or raises an error -/
  | respond
  | raise (errmsg : Option String)
  | raised
  | data (conn : ℕ) (bytes : List UInt8)
  | close
  | changehost

namespace State

def step (s : State D) : Action D → Option (State D)
  | .call co call disconnected written =>
    if s.Free co then
      let s := match call with
        | .connect _ => { s with closed := false }
        | _ => s
      some (s.blockConnect co call disconnected written)
    else none
  | .resume disconnected written =>
    match s.ready with
    | [] => none
    | (co, call) :: ready =>
      if (s.waits co).isNone then
        some (goOn co call written ({ s with ready := ready }.checkConnection co disconnected))
      else none
  | .opened ok => do
    let c ← s.connector
    if c.phase = .opening then
      if ¬ok then some (s.retry c)
      -- the thread of the sockets has closed the old one before it opens a new one
      else if s.failing = [] then some (s.establish c)
      else none
    else none
  | .yielded => do
    let c ← s.connector
    if c.phase = .awaiting then some (s.establish c) else none
  | .authed ok => do
    let c ← s.connector
    if c.phase = .authing ∧ (s.waits c.co).isNone ∧ c.co ∉ s.failing.map Prod.fst ∧
        c.co ∉ s.connecting.map Prod.fst then
      if ¬ok then some { s with sock := none, connector := some { c with phase := .authClosing } }
      else
        let s := { s with authcoroutine := none }
        match s.sock with
        -- auth may change host, so connect again
        | none => some ((s.connectOnce c).getD (s.retry c))
        | some _ => some (s.connected c)
    else none
  | .authClosed => do
    let c ← s.connector
    if c.phase = .authClosing then some ({ s with authcoroutine := none }.retry c) else none
  | .slept => do
    let c ← s.connector
    if c.phase = .sleeping then some (s.tryConnect c) else none
  | .failed i => do
    let (_, conn) ← s.failing[i]?
    some ({ s with failing := s.failing.eraseIdx i }.wakeupAll conn none)
  | .woken co => do
    let w ← s.waits co
    if w.woken = 0 then none
    else
      some { s with
        result := update s.result co none
        resultData := update s.resultData co none
        waits := update s.waits co none }
  | .dispatch => do
    let d ← s.dispatchThread
    match d.phase with
    | .start => some (s.dispatchLoop d.conn)
    | .waiting => if s.waitResponse then none else some (s.popResponse d.conn)
    | _ => none
  | .respond => do
    let d ← s.dispatchThread
    match d.phase with
    | .called co func parts => do
      let reply ← func.run (s.unread d.conn)
      some (s.respond d.conn co func parts reply)
    | _ => none
  | .raise errmsg => do
    let d ← s.dispatchThread
    match d.phase with
    | .called co _ _ => some (s.raise d.conn co errmsg)
    | _ => none
  | .raised => do
    let d ← s.dispatchThread
    match d.phase with
    | .closing co errmsg => some (s.fail d.conn co errmsg)
    | _ => none
  | .data conn bytes =>
    if conn < s.connections then
      some { s with received := update s.received conn (s.received conn ++ bytes) }
    else none
  | .close =>
    some (if s.closed then s else { s.termDispatchThread with closed := true, sock := none })
  | .changehost => some (if s.closed then s else { s with sock := none })

end State

end SkynetEureka.SocketChannel
