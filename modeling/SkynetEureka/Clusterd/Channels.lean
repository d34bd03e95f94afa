import SkynetEureka.Lib.Run

/-!
# The channels to other nodes (clusterd.lua, clustersender.lua)

One request at a time opens the channel to a node; the others that come for it wait. `open_channel`
yields where it waits for an address, for the new service and for "changenode", and all else may
happen there.
-/

namespace SkynetEureka.Clusterd

open Function

/-- A name, character by character. -/
abbrev Name := List Char

/-- What `node_address` has: `false` or a string. -/
inductive Address where
  | down
  | host (address : String)
deriving DecidableEq

/-- A value in a configuration. -/
inductive Setting where
  | address (a : Address)
  /-- neither `false` nor a string -/
  | other
deriving DecidableEq

/-- The value counts as true. -/
def Setting.isTrue : Setting → Bool
  | .address .down => false
  | _ => true

/-- A service clustersender.lua. -/
structure Sender where
  node : Name
  /-- the address of `channel` -/
  channel : Option String
  /-- the address of the last "changenode" that has succeeded -/
  changed : Option String
  killed : Bool
deriving DecidableEq

/-- Where `open_channel` is. -/
inductive Stage where
  /-- it waits for an address -/
  | namequery (woken : Bool)
  /-- it waits for the new service -/
  | launching (address : String)
  /-- it has called "changenode" -/
  | changing (address : String) (c : ℕ)
  /-- the answer is on its way -/
  | changed (address : String) (c : ℕ) (succ : Bool)
  /-- it has raised an error -/
  | broken
deriving DecidableEq

/-- An entry of `connecting`: the request that opens the channel, and those that wait. -/
structure Opening where
  opener : ℕ
  waiters : List ℕ
  stage : Stage
deriving DecidableEq

/-- The tables, and the requests of channels: their nodes, those woken with what `ct.channel` is,
and the answers. There `none` is an error. -/
structure State where
  nodeAddress : Name → Option Address
  /-- `config.nowaiting` -/
  nowaiting : Bool
  nodeChannel : Name → Option ℕ
  nodeSender : Name → Option ℕ
  connecting : Name → Option Opening
  senders : List Sender
  requests : List Name
  woken : List (ℕ × Option ℕ)
  answers : List (ℕ × Option ℕ)

/-- What happens. -/
inductive Action where
  /-- `command.sender` -/
  | sender (node : Name)
  /-- `command.reload` -/
  | reload (tmp : List (Name × Setting))
  /-- `open_channel` goes on after the wait -/
  | resume (key : Name)
  /-- the new service is there, or has failed -/
  | launched (key : Name) (ok : Bool)
  /-- the service has connected, or has not -/
  | changenode (key : Name) (succ : Bool)
  /-- `open_channel` goes on to its end -/
  | changed (key : Name)
  /-- a request that has waited goes on -/
  | wakeup (r : ℕ) (channel : Option ℕ)
deriving DecidableEq

/-- `skynet.wakeup(ct.namequery)` -/
def Opening.wakeup (ct : Opening) : Opening :=
  match ct.stage with
  | .namequery _ => { ct with stage := .namequery true }
  | _ => ct

namespace State

variable (s : State)

def setOpening (key : Name) (ct : Opening) : State :=
  { s with connecting := update s.connecting key (some ct) }

def answer (r : ℕ) (channel : Option ℕ) : State :=
  { s with answers := s.answers ++ [(r, channel)] }

/-- The end of `open_channel`. -/
def finish (key : Name) (ct : Opening) (channel : Option ℕ) : State :=
  { s with
    connecting := update s.connecting key none
    woken := s.woken ++ ct.waiters.map fun r => (r, channel)
    answers := s.answers ++ [(ct.opener, channel)] }

/-- `open_channel` with the address that it has read -/
def connect (key : Name) (ct : Opening) : Option Address → State
  | some (.host address) =>
    match s.nodeSender key with
    | none => s.setOpening key { ct with stage := .launching address }
    | some c => s.setOpening key { ct with stage := .changing address c }
  -- the node is down or absent
  | some .down => s.finish key ct none
  | none => s.finish key ct none

/-- `open_channel` -/
def openChannel (key : Name) (r : ℕ) : State :=
  match s.connecting key with
  | some ct => s.setOpening key { ct with waiters := ct.waiters ++ [r] }
  | none =>
    let ct : Opening := ⟨r, [], .namequery false⟩
    if s.nodeAddress key = none ∧ s.nowaiting = false then s.setOpening key ct
    else s.connect key ct (s.nodeAddress key)

/-- `command.sender` -/
def sender (node : Name) : State :=
  let r := s.requests.length
  let s := { s with requests := s.requests ++ [node] }
  match s.nodeChannel node with
  | some c => s.answer r (some c)
  | none => s.openChannel node r

/-- `loadconfig` at one entry; `none` when the assertion fails. -/
def loadEntry : Name × Setting → Option State
  | ('_' :: '_' :: name, value) =>
    some (if name = "nowaiting".toList then { s with nowaiting := value.isTrue } else s)
  | (_, .other) => none
  | (name, .address address) =>
    let s :=
      if s.nodeAddress name = some address then s
      else
        { s with
          nodeAddress := update s.nodeAddress name (some address)
          nodeChannel := update s.nodeChannel name none }
    match s.connecting name with
    | some ct => some (if s.nowaiting then s else s.setOpening name ct.wakeup)
    | none => some s

/-- `loadconfig`, which may end with an error -/
def loadconfig (s : State) : List (Name × Setting) → State
  | [] =>
    if s.nowaiting then { s with connecting := fun key => (s.connecting key).map Opening.wakeup }
    else s
  | entry :: tmp =>
    match s.loadEntry entry with
    | some s => loadconfig s tmp
    | none => s

/-- The new service: the one that is there is kept. -/
def launched (key : Name) (ct : Opening) (address : String) : State :=
  let c := s.senders.length
  let s : State := { s with senders := s.senders ++ [⟨key, none, none, false⟩] }
  match s.nodeSender key with
  | some c' =>
    let s : State := { s with senders := s.senders.modify c fun sd => { sd with killed := true } }
    s.setOpening key { ct with stage := .changing address c' }
  | none =>
    let s : State := { s with nodeSender := update s.nodeSender key (some c) }
    s.setOpening key { ct with stage := .changing address c }

/-- `command.changenode` of clustersender.lua -/
def changenode (key : Name) (ct : Opening) (address : String) (c : ℕ) (succ : Bool) : State :=
  let connected (sd : Sender) : Sender :=
    if succ then { sd with channel := some address, changed := some address }
    else { sd with channel := none }
  let s : State := { s with senders := s.senders.modify c connected }
  s.setOpening key { ct with stage := .changed address c succ }

/-- A step. -/
def step : Action → Option State
  | .sender node => some (s.sender node)
  | .reload tmp => some (s.loadconfig tmp)
  | .resume key => do
    let ct ← s.connecting key
    if ct.stage = .namequery true then some (s.connect key ct (s.nodeAddress key)) else none
  | .launched key ok => do
    let ct ← s.connecting key
    match ct.stage with
    | .launching address =>
      some (if ok then s.launched key ct address
        else (s.setOpening key { ct with stage := .broken }).answer ct.opener none)
    | _ => none
  | .changenode key succ => do
    let ct ← s.connecting key
    match ct.stage with
    | .changing address c => some (s.changenode key ct address c succ)
    | _ => none
  | .changed key => do
    let ct ← s.connecting key
    match ct.stage with
    | .changed _ c succ =>
      some (if succ then
        { s with nodeChannel := update s.nodeChannel key (some c) }.finish key ct (some c)
      else s.finish key ct none)
    | _ => none
  | .wakeup r channel =>
    if (r, channel) ∈ s.woken then
      some ({ s with woken := s.woken.erase (r, channel) }.answer r channel)
    else none

/-- Nothing is loaded yet. -/
def init : State where
  nodeAddress _ := none
  nowaiting := false
  nodeChannel _ := none
  nodeSender _ := none
  connecting _ := none
  senders := []
  requests := []
  woken := []
  answers := []

end State

end SkynetEureka.Clusterd
