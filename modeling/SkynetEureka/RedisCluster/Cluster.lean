import SkynetEureka.Lib.Run
import SkynetEureka.Lib.Table

/-!
# Connections of redis clusters (db/redis/cluster.lua)

The cluster clients of a service share one table of tasks (`sync.once`). A coroutine that finds a task
under the name of its node waits for it. A coroutine is a number, and so is a client; what a coroutine
does between two points where it yields is one step.

Which client and kind a task or a connection is of is not recorded by the code.
-/

namespace SkynetEureka.RedisCluster

open Lib Function

/-- Of `redis.connect` or of `redis.watch` -/
inductive Kind where
  | ordinary
  | watch
  deriving DecidableEq

/-- A node; `node.name` is `nil` until it has been set to the `nodename`. -/
structure Node where
  host : String
  port : ℕ
  named : Bool
  deriving DecidableEq

/-- `nodename` -/
def nodename (node : Node) : String := s!"{node.host}:{node.port}"

/-- The options of a client -/
structure Opt where
  auth : Option String
  db : Option ℕ
  maxConnections : Option ℕ
  deriving DecidableEq

/-- A connection, and what it has been opened with -/
structure Conn where
  kind : Kind
  client : ℕ
  host : String
  port : ℕ
  auth : Option String
  db : ℕ
  deriving DecidableEq

structure Client where
  opt : Opt
  connections : Table String Conn
  watching : Table String Conn

/-- What `xpcall` has returned -/
inductive Outcome where
  | ok (conn : Conn)
  | error (message : String)
  deriving DecidableEq

/-- A task of `sync.once` -/
structure Task where
  name : String
  client : ℕ
  kind : Kind
  waiting : List ℕ
  result : Option Outcome

/-- `get_connection` and `get_watch_connection` -/
structure Call where
  client : ℕ
  kind : Kind
  node : Node

/-- Where a caller is: in the function of its task, waiting for the task of another one, woken, or at
the end of its call. A call without a name raises an error. -/
inductive Phase where
  | running (task : ℕ)
  | waiting (task : ℕ)
  | woken (task : ℕ)
  | returned (task : ℕ) (outcome : Outcome)
  | raised
  deriving DecidableEq

structure Caller where
  call : Call
  phase : Phase

structure State where
  clients : ℕ → Client
  tasks : String → Option ℕ
  table : ℕ → Option Task
  fresh : ℕ
  callers : ℕ → Option Caller

/-- `conf` of `get_redis_link` and of `get_watch_connection`, and the connection opened with it -/
def Call.conf (call : Call) (opt : Opt) : Conn where
  kind := call.kind
  client := call.client
  host := call.node.host
  port := call.node.port
  auth := opt.auth
  db := opt.db.getD 0

/-- The connection that the client has to this node -/
def Client.cached (c : Client) (kind : Kind) (name : String) : Option Conn :=
  match kind with
  | .ordinary => c.connections.get name
  | .watch => c.watching.get name

def Client.store (c : Client) (kind : Kind) (name : String) (conn : Conn) : Client :=
  match kind with
  | .ordinary => { c with connections := c.connections.set name (some conn) }
  | .watch => { c with watching := c.watching.set name (some conn) }

/-- `close_existing_connection`: `next` takes any of the connections. -/
def Client.closeExisting (c : Client) (victim : String) : Client :=
  if c.connections.pairs.length ≥ c.opt.maxConnections.getD 256 then
    { c with connections := c.connections.set victim none }
  else c

namespace State

variable (s : State)

def init (opts : ℕ → Opt) : State where
  clients := fun c => ⟨opts c, .empty, .empty⟩
  tasks := fun _ => none
  table := fun _ => none
  fresh := 0
  callers := fun _ => none

def enter (co : ℕ) (call : Call) (phase : Phase) : State :=
  { s with callers := update s.callers co (some ⟨call, phase⟩) }

/-- The end of the task of `co` in `sync.once.Do`: those that wait for it are woken. -/
def finish (co t : ℕ) (task : Task) (call : Call) (outcome : Outcome) : State :=
  { s with
    tasks := update s.tasks task.name none
    table := update s.table t (some { task with result := some outcome })
    callers := update (fun co' =>
      if co' ∈ task.waiting then (s.callers co').map fun caller => { caller with phase := .woken t }
      else s.callers co') co (some ⟨call, .returned t outcome⟩) }

/-- `sync.once.Do`, when there is a task -/
def join (co t : ℕ) (call : Call) : State :=
  { s.enter co call (.waiting t) with
    table := update s.table t ((s.table t).map fun task =>
      { task with waiting := task.waiting ++ [co] }) }

/-- `sync.once.Do`, when there is none: `co` runs a new one. -/
def begin (co : ℕ) (call : Call) (name : String) : State :=
  { s.enter co call (.running s.fresh) with
    tasks := update s.tasks name (some s.fresh)
    table := update s.table s.fresh (some ⟨name, call.client, call.kind, [], none⟩)
    fresh := s.fresh + 1 }

/-- The function of a task, up to the connection that is there or up to `redis.connect` -/
def connect (co : ℕ) (call : Call) (name victim : String) : State :=
  let client := s.clients call.client
  match client.cached call.kind name with
  | some conn =>
    let task : Task := ⟨name, call.client, call.kind, [], none⟩
    (s.begin co call name).finish co s.fresh task call (.ok conn)
  | none =>
    let client :=
      match call.kind with
      | .ordinary => client.closeExisting victim
      | .watch => client
    { s.begin co call name with clients := update s.clients call.client client }

/-- `sync.once.Do` -/
def once (co : ℕ) (call : Call) (name victim : String) : State :=
  match s.tasks name with
  | some t => s.join co t call
  | none => s.connect co call name victim

end State

/-- A step. The environment tells which connection `next` finds, and whether `redis.connect` or
`redis.watch` raises an error. -/
inductive Action where
  | get (co : ℕ) (call : Call) (victim : String)
  | established (co : ℕ) (err : Option String)
  | resume (co : ℕ)

def Phase.isOver : Phase → Bool
  | .returned .. | .raised => true
  | _ => false

namespace State

def step (s : State) : Action → Option State
  | .get co call victim =>
    if ∀ caller ∈ s.callers co, caller.phase.isOver then
      -- only `get_connection` sets the name of the node
      if call.kind = .watch ∧ ¬call.node.named then some (s.enter co call .raised)
      else some (s.once co call (nodename call.node) victim)
    else none
  | .established co err => do
    let caller ← s.callers co
    match caller.phase with
    | .running t => do
      let task ← s.table t
      match err with
      | some message => some (s.finish co t task caller.call (.error message))
      | none =>
        let client := s.clients caller.call.client
        let conn := caller.call.conf client.opt
        let client' := client.store caller.call.kind task.name conn
        some ({ s with clients := update s.clients caller.call.client client' }.finish co t task
          caller.call (.ok conn))
    | _ => none
  | .resume co => do
    let caller ← s.callers co
    match caller.phase with
    | .woken t => do
      let task ← s.table t
      let outcome ← task.result
      some (s.enter co caller.call (.returned t outcome))
    | _ => none

end State

end SkynetEureka.RedisCluster
