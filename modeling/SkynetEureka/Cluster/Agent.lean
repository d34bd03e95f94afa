import SkynetEureka.Lib.Run
import SkynetEureka.Cluster.CoreTheorems

/-!
# The receiver of requests (`clusteragent.lua`)

`dispatch_request` collects the parts of a large request in the table `large_request`, and
dispatches a request when it is complete. A `Connection` is the sending side with it: the
requests whose packets are on their way, in any interleaving.
-/

namespace SkynetEureka.Cluster

open Lib Function

/-- A request that is passed on. -/
structure Dispatch where
  addr : Option Address
  session : ℕ
  msg : List UInt8
  isPush : Bool
  tracetag : Option (List UInt8)
deriving DecidableEq

/-- What `dispatch_request` does with the values of a packet. -/
inductive Outcome where
  /-- it returns and waits for more packets -/
  | nothing
  | dispatch (d : Dispatch)
  /-- the response "Invalid large req" -/
  | invalid (session : ℕ)
  /-- `unpackrequest` has raised an error -/
  | raised (e : UnpackError)
deriving DecidableEq

/-- An entry of `large_request`: the table `req`. -/
structure LargeRequest where
  addr : Option Address
  isPush : Bool
  tracetag : Option (List UInt8)
  items : List Item

/-- The tables of the service. -/
structure Agent where
  largeRequest : ℕ → Option LargeRequest
  tracetag : Option (List UInt8)

/-- The request, once address and message are known. -/
def finish (agent : Agent) (session : ℕ) (addr : Option Address) (isPush : Bool)
    (tracetag : Option (List UInt8)) (msg : Option (List UInt8)) : Agent × Outcome :=
  match msg with
  | none => ({ agent with tracetag := none }, .invalid session)
  | some msg =>
    -- `tracetag` is reset only where a traced call is made
    ({ agent with tracetag := if isPush then tracetag else none },
      .dispatch ⟨addr, session, msg, isPush, tracetag⟩)

/-- `dispatch_request`, up to the dispatch itself -/
def dispatchRequest (agent : Agent) (args : Arguments) : Agent × Outcome :=
  match args.session with
  | none =>
    match args.addr with
    | some (.name tag) => ({ agent with tracetag := some tag }, .nothing)
    | _ => (agent, .nothing)
  | some session =>
    if args.padding then
      let req := (agent.largeRequest session).getD ⟨args.addr, args.isPush, agent.tracetag, []⟩
      let req := { req with items := lappend req.items args.msg args.sz }
      (⟨update agent.largeRequest session (some req), none⟩, .nothing)
    else
      match agent.largeRequest session with
      | some req =>
        let agent := { agent with largeRequest := update agent.largeRequest session none }
        finish agent session req.addr req.isPush req.tracetag
          (lconcat (lappend req.items args.msg args.sz))
      | none => finish agent session args.addr args.isPush agent.tracetag args.msg

/-- A packet from the gate, which has read the length. -/
def receive (agent : Agent) (p : Packet) : Agent × Outcome :=
  match lunpackrequest (p.drop 2) with
  | .error e => (agent, .raised e)
  | .ok args => dispatchRequest agent args

/-! ## Requests on their way -/

/-- A request as `packrequest` and `packpush` take it. -/
structure Request where
  addr : Address
  session : ℕ
  msg : List UInt8
  isPush : Bool
  addr_ok : match addr with
    | .number n => n < 2 ^ 32
    | .name s => 1 ≤ s.length ∧ s.length ≤ 255
  session_ok : 1 ≤ session ∧ session < 2 ^ 31
  msg_lt : msg.length < 2 ^ 31
deriving DecidableEq

/-- The packets of a request, in order. -/
def Request.packets (r : Request) : Except PackError (List Packet) := do
  let p ← packrequest r.addr r.session (some r.msg) r.isPush
  return p.request :: p.padding.getD []

/-- A push that is one packet, which carries no session. -/
def Request.Single (r : Request) : Prop := r.isPush = true ∧ r.msg.length < multiPart

instance (r : Request) : Decidable r.Single :=
  inferInstanceAs (Decidable (r.isPush = true ∧ r.msg.length < multiPart))

/-- The dispatch of exactly this request. -/
def Dispatch.Of (d : Dispatch) (r : Request) : Prop :=
  d.addr = some r.addr ∧ d.msg = r.msg ∧ d.isPush = r.isPush ∧
    (r.isPush = false → d.session = r.session)

/-- A step of the connection. -/
inductive Arrival where
  /-- the packets of a request are written; its session is not outstanding -/
  | send (r : Request)
  /-- the next packet of the request with this session arrives -/
  | deliver (session : ℕ)
  /-- a push of one packet arrives -/
  | single (r : Request)

/-- The requests with packets on their way, by session, and the receiver. `sent` are the requests
written so far, `outcomes` is what the receiver has done with the packets, and `complete` are the
requests whose last packet has arrived. -/
structure Connection where
  sent : List Request
  outstanding : ℕ → Option (Request × List Packet)
  agent : Agent
  outcomes : List Outcome
  complete : List Request

def Connection.init : Connection where
  sent := []
  outstanding := fun _ => none
  agent := ⟨fun _ => none, none⟩
  outcomes := []
  complete := []

/-- The packets of a request are written. -/
def Connection.write (c : Connection) (r : Request) (ps : List Packet) : Connection :=
  { c with
    sent := c.sent ++ [r]
    outstanding := update c.outstanding r.session (some (r, ps)) }

/-- A packet of the request `r` arrives; `rest` are those that follow it. -/
def Connection.arrive (c : Connection) (r : Request) (p : Packet) (rest : List Packet) :
    Connection :=
  let result := receive c.agent p
  { c with
    agent := result.1
    outcomes := if result.2 = .nothing then c.outcomes else c.outcomes ++ [result.2]
    complete := if rest = [] then c.complete ++ [r] else c.complete }

/-- The next packet of the request `r` arrives. -/
def Connection.next (c : Connection) (r : Request) (p : Packet) (rest : List Packet) :
    Connection :=
  { c.arrive r p rest with
    outstanding := update c.outstanding r.session (if rest = [] then none else some (r, rest)) }

def Connection.step (c : Connection) : Arrival → Option Connection
  | .send r =>
    if r.Single ∨ (c.outstanding r.session).isSome then none
    else
      match r.packets with
      | .ok (p :: ps) => some (c.write r (p :: ps))
      | _ => none
  | .deliver session =>
    match c.outstanding session with
    | some (r, p :: ps) => some (c.next r p ps)
    | _ => none
  | .single r =>
    if r.Single then
      match r.packets with
      | .ok [p] => some { c.arrive r p [] with sent := c.sent ++ [r] }
      | _ => none
    else none

end SkynetEureka.Cluster
