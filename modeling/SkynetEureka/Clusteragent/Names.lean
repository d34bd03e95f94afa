import SkynetEureka.Lib.Run

/-!
# The names of a cluster node (clusteragent.lua, clusterd.lua)

An agent asks clusterd for the address of a name, and keeps it in a table until a name changes.
clusterd knows the agent, and what it sends to it comes in order, among the requests from the gate.
A name is what follows "@".
-/

namespace SkynetEureka.Clusteragent

open Function

/-- What a request uses the name for. -/
inductive Kind where
  /-- the request is for the address (`addr == 0`) -/
  | query
  /-- it is passed on, with a response -/
  | call
  | push
deriving DecidableEq

/-- A request; `registered` says that the name has been registered since it came. -/
structure Request where
  name : String
  kind : Kind
  registered : Bool
deriving DecidableEq

/-- What becomes of a request. -/
inductive Outcome where
  /-- the response has the address -/
  | found (addr : ℕ)
  /-- the request has been sent to the address -/
  | sent (addr : ℕ)
  /-- the response is an error -/
  | failed (msg : String)
deriving DecidableEq

/-- A message for the agent. -/
inductive Message where
  /-- from the gate -/
  | request (r : ℕ)
  /-- the service `addr` is no more called `old` -/
  | namechange (old : String) (addr : ℕ)
  /-- the answer of "queryname" -/
  | response (name : String) (addr : Option ℕ)
deriving DecidableEq

/-- An entry of `inquery_name`: the request that asks, those that wait, and the tables `self`. -/
structure Inquery where
  self : ℕ
  request : ℕ
  waitco : List (ℕ × ℕ)
deriving DecidableEq

structure State where
  /-- `register_name` of clusterd.lua, by name -/
  address : String → Option ℕ
  /-- and by address -/
  name : ℕ → Option String
  /-- the messages "queryname" -/
  queries : List String
  mailbox : List Message
  /-- the tables `register_name` of the agent, by age -/
  tables : ℕ → String → Option ℕ
  current : ℕ
  inquery : String → Option Inquery
  requests : List Request
  outcomes : List (ℕ × Outcome)

/-- What happens. -/
inductive Action where
  /-- `command.register` -/
  | register (name : String) (addr : ℕ)
  /-- a request comes -/
  | request (name : String) (kind : Kind)
  /-- clusterd handles the next "queryname" -/
  | queryname
  /-- the agent handles the next message -/
  | dispatch
deriving DecidableEq

/-- The rest of `dispatch_request`, with what the table has given -/
def Request.finish (req : Request) : Option ℕ → Outcome
  | some addr =>
    match req.kind with
    | .query => .found addr
    | .call => .sent addr
    | .push => .sent addr
  | none =>
    match req.kind with
    | .query => .failed "name not found"
    | .call => .failed "Invalid name"
    | .push => .failed "Invalid name"

namespace State

variable (s : State)

/-- `command.register`; when the assertion fails nothing changes. -/
def register (name : String) (addr : ℕ) : State :=
  if s.address name = none then
    -- an old name goes, and the agents hear of it
    let s : State :=
      match s.name addr with
      | none => s
      | some old =>
        { s with
          address := update s.address old none
          mailbox := s.mailbox ++ [.namechange old addr]
          requests := s.requests.map fun req =>
            if req.name = old then { req with registered := false } else req }
    { s with
      address := update s.address name (some addr)
      name := update s.name addr (some name) }
  else s

/-- A request ends. -/
def finish (r : ℕ) (req : Request) (addr : Option ℕ) : State :=
  { s with outcomes := s.outcomes ++ [(r, req.finish addr)] }

/-- `dispatch_request`, up to the address -/
def request (r : ℕ) (req : Request) : State :=
  match s.tables s.current req.name with
  | some addr => s.finish r req (some addr)
  | none =>
    match s.inquery req.name with
    | some q =>
      let q := { q with waitco := q.waitco ++ [(s.current, r)] }
      { s with inquery := update s.inquery req.name (some q) }
    | none =>
      { s with
        inquery := update s.inquery req.name (some ⟨s.current, r, []⟩)
        queries := s.queries ++ [req.name] }

/-- The requests go on, the one that has asked first. -/
def resume (name : String) (addr : Option ℕ) (q : Inquery) : State :=
  let set (entries : String → Option ℕ) : String → Option ℕ :=
    if addr.isSome then update entries name addr else entries
  let tables := update s.tables q.self (set (s.tables q.self))
  let finish (r : ℕ) (addr : Option ℕ) : List (ℕ × Outcome) :=
    (s.requests[r]?.map fun req => (r, req.finish addr)).toList
  { s with
    tables := tables
    inquery := update s.inquery name none
    outcomes := s.outcomes ++ finish q.request addr ++
      q.waitco.flatMap fun (self, r) => finish r (tables self name) }

/-- The agent handles a message. -/
def handle : Message → State
  | .request r => (s.requests[r]?.map fun req => s.request r req).getD s
  | .namechange _ _ => { s with current := s.current + 1 }
  | .response name addr => ((s.inquery name).map fun q => s.resume name addr q).getD s

/-- A step. -/
def step : Action → Option State
  | .register name addr => some (s.register name addr)
  | .request name kind =>
    some { s with
      requests := s.requests ++ [⟨name, kind, (s.address name).isSome⟩]
      mailbox := s.mailbox ++ [.request s.requests.length] }
  | .queryname =>
    match s.queries with
    | [] => none
    | name :: queries => some { s with
        queries := queries
        mailbox := s.mailbox ++ [.response name (s.address name)] }
  | .dispatch =>
    match s.mailbox with
    | [] => none
    | m :: mailbox => some ({ s with mailbox := mailbox }.handle m)

/-- No name is registered, and no request has come. -/
def init : State where
  address _ := none
  name _ := none
  queries := []
  mailbox := []
  tables _ _ := none
  current := 0
  inquery _ := none
  requests := []
  outcomes := []

end State

end SkynetEureka.Clusteragent
