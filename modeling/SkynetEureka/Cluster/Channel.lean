import SkynetEureka.Lib.Run
import SkynetEureka.Cluster.CoreTheorems

/-!
# The receiver of responses (`socketchannel.lua`, `clustersender.lua`)

`dispatch_by_session` reads one response after another and hands it to the coroutine that waits
for its session; the parts of a large one meet in `__result_data`. A `Client` is the channel with
the remote side: the responses whose packets are on their way, in any interleaving.
-/

namespace SkynetEureka.Cluster

open Lib Function

/-- A coroutine. -/
abbrev Co := ℕ

/-- A value of `__result` -/
inductive Result where
  | ok (b : Bool)
  | socketError
deriving DecidableEq

/-- A value of `__result_data` -/
inductive Data where
  | item (d : Item)
  | table (t : List Item)
deriving DecidableEq

/-- The fields of a channel. -/
structure Channel where
  /-- whether `__sock` is set -/
  sock : Bool
  thread : ℕ → Option Co
  result : Co → Option Result
  resultData : Co → Option Data
  /-- the coroutines in `wait_for_response`, with their session -/
  waiting : Co → Option ℕ
  /-- the coroutines that are woken up and have not run yet -/
  awake : Co → Bool
  /-- the sessions of "socket: unknown session" -/
  unknown : List ℕ

/-- `read_response`, once the bytes are there: the values of `unpackresponse`, and the rest. -/
def readResponse (stream : List UInt8) : Option Answer × List UInt8 :=
  (lunpackresponse ((stream.drop 2).take (sizePrefix stream)), stream.drop (2 + sizePrefix stream))

/-- `table.insert`; `none` when the value is no table -/
def tableInsert (result : Data) (d : Item) : Option Data :=
  match result with
  | .table t => some (.table (t ++ [d]))
  | .item _ => none

/-- `push_response`, and the wait for it -/
def Channel.pushResponse (c : Channel) (session : ℕ) (co : Co) : Channel :=
  { c with
    thread := update c.thread session (some co)
    waiting := update c.waiting co (some session) }

/-- `close_channel_socket` and `wakeup_all` -/
def Channel.wakeupAll (c : Channel) : Channel :=
  let registered (co : Co) : Bool := (c.waiting co).bind c.thread = some co
  { c with
    sock := false
    thread := fun _ => none
    result := fun co => if registered co then some .socketError else c.result co
    resultData := fun co => if registered co then none else c.resultData co
    awake := fun co => registered co || c.awake co }

/-- One round of `dispatch_by_session`; `none` when `table.insert` raises an error. -/
def Channel.dispatchBySession (c : Channel) (response : Option Answer) : Option Channel :=
  match response with
  | none => some c.wakeupAll
  | some a =>
    match c.thread a.session with
    | some co =>
      if a.padding ∧ a.ok then do
        let result ← tableInsert ((c.resultData co).getD (.table [])) a.data
        return { c with resultData := update c.resultData co (some result) }
      else do
        let data ←
          match c.resultData co with
          | some result => if a.ok then tableInsert result a.data else some (.item a.data)
          | none => some (.item a.data)
        return { c with
          thread := update c.thread a.session none
          result := update c.result co (some (.ok a.ok))
          resultData := update c.resultData co (some data)
          awake := update c.awake co true }
    | none => some { c with unknown := c.unknown ++ [a.session] }

/-- The errors of `wait_for_response`. -/
inductive Failure where
  | socketError
  | message (data : Option Data)
deriving DecidableEq

/-- `wait_for_response`, after the wait: what it returns or raises -/
def waitForResponse (result : Option Result) (resultData : Option Data) :
    Except Failure (Option Data) :=
  match result with
  | some .socketError =>
    match resultData with
    | some data => .error (.message (some data))
    | none => .error .socketError
  | some (.ok true) => .ok resultData
  | some (.ok false) => .error (.message resultData)
  | none => .error (.message resultData)

/-- What the caller of a request gets. -/
inductive Returned where
  /-- `skynet.ret`, with a message or without one -/
  | ret (msg : Option (List UInt8))
  /-- `skynet.ret` of a number raises an error -/
  | invalid
  /-- `skynet.error(msg)` and `skynet.response()(false)` -/
  | failed (msg : Failure)
deriving DecidableEq

/-- `command.req`, once `send_request` is done -/
def commandReq (request : Except Failure (Option Data)) : Returned :=
  match request with
  | .ok (some (.table t)) => .ret (lconcat t)
  | .ok (some (.item (.bytes msg))) => .ret (some msg)
  | .ok (some (.item (.size _))) => .invalid
  | .ok none => .ret none
  | .error e => .failed e

/-- The coroutine goes on: what its caller gets, and the channel behind it. -/
def Channel.resume (c : Channel) (co : Co) : Channel × Returned :=
  ({ c with
      result := update c.result co none
      resultData := update c.resultData co none
      waiting := update c.waiting co none
      awake := update c.awake co false },
    commandReq (waitForResponse (c.result co) (c.resultData co)))

/-! ## Responses on their way -/

/-- A response: a message of less than 2^31 bytes, or the text of an error. -/
structure Reply where
  ok : Bool
  msg : List UInt8
  msg_lt : ok = true → msg.length < 2 ^ 31

/-- The packets that the agent writes for a response, in order. -/
def Reply.packets (r : Reply) (session : ℕ) : Except PackError (List Packet) := do
  match ← lpackresponse session r.ok r.msg with
  | .single p => return [p]
  | .multi ps => return ps

/-- What the caller has to get. -/
def Reply.returned (r : Reply) : Returned :=
  if r.ok then .ret (some r.msg)
  else .failed (.message (some (.item (.bytes (r.msg.take multiPart)))))

/-- A step of the client. -/
inductive Exchange where
  /-- a coroutine sends a request and waits for the response -/
  | ask (co : Co) (session : ℕ)
  /-- the remote side packs the response -/
  | reply (session : ℕ) (r : Reply)
  /-- the next packet of the response is read -/
  | deliver (session : ℕ)
  /-- a coroutine that is woken up goes on -/
  | resume (co : Co)

/-- What a coroutine has got for its session, next to the response to this request. -/
structure Receipt where
  co : Co
  session : ℕ
  reply : Option Reply
  returned : Returned

/-- The channel, and for each outstanding session the coroutine that has asked and the response on
its way. `answered` is the response that has come to the request of a coroutine. -/
structure Client where
  channel : Channel
  remote : ℕ → Option (Co × Option (Reply × List Packet))
  answered : Co → Option Reply
  asked : List (Co × ℕ)
  receipts : List Receipt

def Client.init : Client where
  channel := ⟨true, fun _ => none, fun _ => none, fun _ => none, fun _ => none, fun _ => false, []⟩
  remote := fun _ => none
  answered := fun _ => none
  asked := []
  receipts := []

/-- A request is written. -/
def Client.ask (c : Client) (co : Co) (session : ℕ) : Client :=
  { c with
    channel := c.channel.pushResponse session co
    remote := update c.remote session (some (co, none))
    asked := c.asked ++ [(co, session)] }

/-- A coroutine goes on. -/
def Client.goOn (c : Client) (co : Co) (session : ℕ) : Client :=
  { c with
    channel := (c.channel.resume co).1
    answered := update c.answered co none
    receipts := c.receipts ++ [⟨co, session, c.answered co, (c.channel.resume co).2⟩] }

def Client.step (c : Client) : Exchange → Option Client
  | .ask co session =>
    if (c.channel.waiting co).isSome ∨ (c.remote session).isSome ∨ 2 ^ 32 ≤ session then none
    else some (c.ask co session)
  | .reply session r =>
    match c.remote session, r.packets session with
    | some (co, none), .ok ps =>
      some { c with remote := update c.remote session (some (co, some (r, ps))) }
    | _, _ => none
  | .deliver session =>
    match c.remote session with
    | some (co, some (r, p :: ps)) => do
      let channel ← c.channel.dispatchBySession (readResponse p).1
      if ps = [] then
        return { c with
          channel := channel
          remote := update c.remote session none
          answered := update c.answered co (some r) }
      else
        return { c with
          channel := channel
          remote := update c.remote session (some (co, some (r, ps))) }
    | _ => none
  | .resume co =>
    match c.channel.waiting co with
    | some session => if c.channel.awake co then some (c.goOn co session) else none
    | none => none

end SkynetEureka.Cluster
