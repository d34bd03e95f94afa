import SkynetEureka.Lib.Run
import SkynetEureka.Eureka.Client

/-!
# The registration with the registry (service.lua)

`_register` and `_heartbeat` run in coroutines that a timer of `skynet.timeout` starts, and each of
them sets the next timer. A coroutine yields where it waits for the new webclient or for the answer
of the webclient, and ends with an error when that call raises one.
-/

namespace SkynetEureka.Eureka

/-- What a timer of `skynet.timeout` calls. -/
inductive Callback where
  | register
  | heartbeat
deriving DecidableEq

/-- A timer, with the time it has been set to. -/
structure Timer where
  time : ℤ
  callback : Callback
deriving DecidableEq

/-- Where a coroutine waits. -/
inductive Task where
  /-- in `client:new`, for the webclient -/
  | launching (client : Client)
  /-- in `eurekaclient:register` -/
  | registering
  /-- in `eurekaclient:heartBeat` -/
  | beating
  /-- in `_getapp`, with the names that are left -/
  | fetching (appid : Name) (rest : List Name)
deriving DecidableEq

/-- The arguments of `_M.run` -/
structure Config where
  eurekaserver : EurekaServer
  instanceData : Instance

/-- `timeval` -/
def Config.timeval (conf : Config) : ℤ := conf.eurekaserver.timeval.getD 3000

/-- The variables of the service, its timers and its coroutines, and what it has sent to its
ribbons. -/
structure Service where
  conf : Config
  eurekaclient : Option Client
  ribbonServices : List Name
  timers : List Timer
  tasks : List Task
  updates : List (Name × String)

/-- What happens. -/
inductive Action where
  /-- the time of a timer has come -/
  | timer (t : Timer)
  /-- the new webclient is there, or has failed -/
  | launched (client : Client) (ok : Bool)
  /-- the call of the webclient is over -/
  | reply (task : Task) (r : Reply)
  /-- `register_ribbon_services` has got a new ribbon -/
  | ribbon (name : Name)
  /-- a message "run" -/
  | run (conf : Config)

namespace Service

variable (s : Service)

/-- `skynet.timeout` -/
def timeout (time : ℤ) (callback : Callback) : Service :=
  { s with timers := s.timers ++ [⟨time, callback⟩] }

/-- The coroutine yields. -/
def wait (task : Task) : Service := { s with tasks := s.tasks ++ [task] }

/-- `_register`, from `eurekaclient:register` on -/
def sendRegister : Service :=
  match Client.registerCheck s.conf.instanceData.app s.conf.instanceData with
  | .error _ => s.timeout 500 .register
  | .ok _ => s.wait .registering

/-- `_register` -/
def register : Service :=
  match s.eurekaclient with
  | some _ => s.sendRegister
  | none =>
    match Client.new s.conf.eurekaserver with
    | .error _ => s.timeout 500 .register
    | .ok client => s.wait (.launching client)

/-- `_register`, with what `eurekaclient:register` has given -/
def registered : Answer → Service
  | .ok _ => s.timeout s.conf.timeval .heartbeat
  | .error _ => s.timeout 500 .register

/-- The loop of `_heartbeat` over the names that are left -/
def getapps : List Name → Service
  | [] => s
  | appid :: rest =>
    match Client.getAppCheck appid with
    | .error _ => getapps rest
    | .ok _ => s.wait (.fetching appid rest)

/-- `_getapp`, with what `eurekaclient:getApp` has given, and the rest of the loop -/
def gotApp (appid : Name) (rest : List Name) : Answer → Service
  | .ok body => { s with updates := s.updates ++ [(appid, body)] }.getapps rest
  | .error _ => s.getapps rest

/-- `_heartbeat`; without a client it raises an error. -/
def heartbeat : Service :=
  match s.eurekaclient with
  | none => s
  | some _ =>
    match Client.heartBeatCheck s.conf.instanceData.app s.conf.instanceData.instanceId with
    | .error _ => s.register
    | .ok _ => s.wait .beating

/-- `_heartbeat`, with what `eurekaclient:heartBeat` has given -/
def beaten : Answer → Service
  | .ok _ => (s.timeout s.conf.timeval .heartbeat).getapps s.ribbonServices
  | .error _ => s.register

/-- A coroutine goes on with the answer of the webclient; an error of the call ends it. -/
def resume (task : Task) (r : Reply) : Service :=
  match task, Client.received r with
  | .registering, some received => s.registered (Client.register received)
  | .beating, some received => s.beaten (Client.heartBeat received)
  | .fetching appid rest, some received => s.gotApp appid rest (Client.getApp received)
  | .launching _, _ => s
  | _, none => s

/-- A timer calls its function. -/
def call : Callback → Service
  | .register => s.register
  | .heartbeat => s.heartbeat

/-- The coroutine that waits there goes on. -/
def leave (task : Task) : Service := { s with tasks := s.tasks.erase task }

/-- A step. -/
def step : Action → Option Service
  | .timer t =>
    if t ∈ s.timers then some ({ s with timers := s.timers.erase t }.call t.callback) else none
  | .launched client ok =>
    if .launching client ∈ s.tasks then
      let s := s.leave (.launching client)
      some (if ok then { s with eurekaclient := some client }.sendRegister else s)
    else none
  | .reply (.launching _) _ => none
  | .reply task r => if task ∈ s.tasks then some ((s.leave task).resume task r) else none
  | .ribbon name =>
    if name ∈ s.ribbonServices then none
    else some { s with ribbonServices := s.ribbonServices ++ [name] }
  -- `skynet.start` calls `_register` once more
  | .run conf => some { s with conf := conf }.register

/-- The service has its ribbons, and calls `_register`. -/
def start (conf : Config) (ribbonServices : List Name) : Service :=
  Service.register ⟨conf, none, ribbonServices, [], [], []⟩

end Service

end SkynetEureka.Eureka
