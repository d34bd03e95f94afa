import SkynetEureka.Lib.Run

/-!
# Unique services (service_mgr.lua)

The manager 0 is the global one, the others are local and forward to it. A caller that launches a
service waits in the call that it has made, the others for the name wait to be woken. The position
that `error` puts before a text is left out.
-/

namespace SkynetEureka.ServiceMgr

open Function

/-- A name, character by character. -/
abbrev Name := List Char

/-- A field of `cmd`. -/
inductive Command where
  | launch
  | query
  | glaunch
  | gquery
deriving DecidableEq

/-- The function that `request` calls. -/
inductive Func where
  /-- `skynet.newservice` or `snax.rawnewservice` -/
  | newservice
  /-- `skynet.call` of the global manager -/
  | call (cmd : Command)
deriving DecidableEq

/-- The field `launch`: the caller, and what it has called. -/
structure Launch where
  co : ℕ
  func : Func
deriving DecidableEq

/-- What `service` has under a name. -/
inductive Service where
  | handle (h : ℕ)
  | error (e : String)
  | waiting (launch : Option Launch) (waiters : List ℕ)
deriving DecidableEq

/-- What a caller gets: one value, or `nil` and an error. -/
inductive Answer where
  | handle (h : ℕ)
  | null
  | error (e : String)
deriving DecidableEq

/-- What `pcall` of a new service gives. -/
def Answer.ofLaunch : Except String ℕ → Answer
  | .ok h => .handle h
  | .error e => .error e

/-- What `skynet.call` returns: with an error the first value is `nil`. -/
def Answer.first : Answer → Answer
  | .handle h => .handle h
  | _ => .null

/-- What `service` has then. -/
def Answer.service : Answer → Option Service
  | .handle h => some (.handle h)
  | .error e => some (.error e)
  | .null => none

/-- A call that has been handled: the name in `service`, if there is one; for a call that another
manager has forwarded, that manager and its name. -/
structure Request where
  node : ℕ
  command : Command
  key : Option Name
  origin : Option (ℕ × Name)
deriving DecidableEq

/-- A call on its way to the global manager. -/
structure Forward where
  node : ℕ
  key : Name
  command : Command
  name : Name
  subname : Option Name
deriving DecidableEq

/-- The managers, and what has happened: the calls that have been forwarded, and the services that
have been started. -/
structure State where
  service : ℕ → Name → Option Service
  requests : List Request
  calls : List Forward
  responses : List (ℕ × Name × Answer)
  woken : List ℕ
  answers : List (ℕ × Answer)
  forwarded : List (ℕ × Command × Name)
  started : List (ℕ × Name)

/-- What happens. -/
inductive Action where
  /-- a caller -/
  | request (node : ℕ) (command : Command) (name : Name) (subname : Option Name)
  /-- the global manager gets a call that has been forwarded -/
  | call (c : Forward)
  /-- the new service is there, or an error -/
  | launched (node : ℕ) (key : Name) (result : Except String ℕ)
  /-- the answer of the global manager is there -/
  | returned (node : ℕ) (key : Name) (answer : Answer)
  /-- a caller that has waited goes on -/
  | wakeup (r : ℕ)

/-- `read_name` -/
def readName : Name → Name
  | '@' :: name => name
  | name => name

/-- The name in `service`; `none` when there is no name to concatenate. -/
def localName (name : Name) (subname : Option Name) : Option Name :=
  if readName name = "snaxd".toList then subname.map fun subname => name ++ '.' :: subname
  else some name

/-- The name that a command has in `service`. -/
def Command.key (name : Name) (subname : Option Name) : Command → Option Name
  | .launch | .query => localName name subname
  | .glaunch | .gquery => localName ('@' :: name) subname

/-- The function that it gives to `waitfor`. -/
def Command.func (node : ℕ) : Command → Option Func
  | .launch => some .newservice
  | .query => none
  | .glaunch => some (if node = 0 then .newservice else .call .launch)
  | .gquery => if node = 0 then none else some (.call .query)

namespace State

variable (s : State)

def setService (node : ℕ) (key : Name) (v : Option Service) : State :=
  { s with service := update s.service node (update (s.service node) key v) }

/-- `skynet.ret`; the answer to a call that has been forwarded goes to its manager. -/
def answer (r : ℕ) (a : Answer) : State :=
  { s with
    answers := s.answers ++ [(r, a)]
    responses := s.responses ++
      ((s.requests[r]?.bind fun req => req.origin).map fun (node, key) => (node, key, a)).toList }

/-- `request`, up to the call -/
def request (r node : ℕ) (key name : Name) (subname : Option Name) (waiters : List ℕ)
    (func : Func) : State :=
  let s := s.setService node key (some (.waiting (some ⟨r, func⟩) waiters))
  match func with
  | .newservice => { s with started := s.started ++ [(node, key)] }
  | .call cmd => { s with
      calls := s.calls ++ [⟨node, key, cmd, name, subname⟩]
      forwarded := s.forwarded ++ [(node, cmd, key)] }

/-- `waitfor`; `name` is the one that a call would have. -/
def waitfor (r node : ℕ) (key name : Name) (subname : Option Name) (func : Option Func) : State :=
  match s.service node key with
  | some (.handle h) => s.answer r (.handle h)
  | some (.error e) => s.answer r (.error e)
  | some (.waiting (some launch) waiters) =>
    s.setService node key (some (.waiting (some launch) (waiters ++ [r])))
  | some (.waiting none waiters) =>
    match func with
    | some func => s.request r node key name subname waiters func
    | none => s.setService node key (some (.waiting none (waiters ++ [r])))
  | none =>
    match func with
    | some func => s.request r node key name subname [] func
    | none => s.setService node key (some (.waiting none [r]))

/-- A call is handled. -/
def dispatch (node : ℕ) (command : Command) (name : Name) (subname : Option Name)
    (origin : Option (ℕ × Name)) : State :=
  let key := command.key name subname
  let r := s.requests.length
  let s : State := { s with requests := s.requests ++ [⟨node, command, key, origin⟩] }
  match key with
  | some key => s.waitfor r node key ('@' :: name) subname (command.func node)
  | none => s.answer r (.error "attempt to concatenate a nil value (local 'subname')")

/-- `request` goes on with what the call has given, which may be nothing. -/
def settle (node : ℕ) (key : Name) (co : ℕ) (waiters : List ℕ) (result : Answer) : State :=
  let s := s.setService node key result.service
  State.answer { s with woken := s.woken ++ waiters } co result

/-- `waitfor` goes on after the wait. -/
def resume (r node : ℕ) (key : Name) : State :=
  match s.service node key with
  | some (.handle h) => s.answer r (.handle h)
  | some (.error e) => s.answer r (.error e)
  | _ => s.answer r (.error "assertion failed!")

/-- A step. -/
def step : Action → Option State
  | .request node command name subname => some (s.dispatch node command name subname none)
  | .call c =>
    if c ∈ s.calls then
      some (State.dispatch { s with calls := s.calls.erase c } 0 c.command c.name c.subname
        (some (c.node, c.key)))
    else none
  | .launched node key result =>
    match s.service node key with
    | some (.waiting (some ⟨co, .newservice⟩) waiters) =>
      some (s.settle node key co waiters (.ofLaunch result))
    | _ => none
  | .returned node key a =>
    if (node, key, a) ∈ s.responses then
      match s.service node key with
      | some (.waiting (some ⟨co, .call _⟩) waiters) =>
        let s : State := { s with responses := s.responses.erase (node, key, a) }
        some (s.settle node key co waiters a.first)
      | _ => none
    else none
  | .wakeup r => do
    let req ← s.requests[r]?
    let key ← req.key
    if r ∈ s.woken then some (State.resume { s with woken := s.woken.erase r } r req.node key)
    else none

/-- Nothing has been asked for. -/
def init : State where
  service _ _ := none
  requests := []
  calls := []
  responses := []
  woken := []
  answers := []
  forwarded := []
  started := []

end State

end SkynetEureka.ServiceMgr
