import SkynetEureka.Gateway.Tcpservice

/-!
# The watchdog and its agents (watchdog.lua, agent.lua)

A handler of the watchdog that has called another service is in a list until the answer comes. The
messages that `tcpservice` sends come in order; all else comes at any time.
-/

namespace SkynetEureka.Gateway

open Function

/-- How far an agent is with `CMD.start`. -/
inductive Start where
  /-- the message is on its way -/
  | sent
  /-- it has called "forward" -/
  | forwarding
  /-- the answer is on its way -/
  | forwarded (ok : Bool)
  /-- its own answer has been sent -/
  | replied (ok : Bool)
deriving DecidableEq

/-- An agent, and how often it has been sent "disconnect". -/
structure Agent where
  clientFd : ℤ
  start : Start
  disconnects : ℕ
  exited : Bool

/-- The services, and the messages and calls on their way. -/
structure State where
  tcpservice : Tcpservice
  /-- for the watchdog -/
  events : List Event
  /-- the calls of "forward" -/
  forwards : List ℕ
  /-- the calls of "close" -/
  closes : List ℤ
  agents : List Agent
  /-- `agent` of watchdog.lua -/
  agent : ℤ → Option ℕ
  /-- the handlers `SOCKET.open` that wait for the new service -/
  launching : List ℤ
  /-- the ones that wait for the answer of the agent -/
  starting : List ℕ
  /-- the ones that have failed there -/
  failed : List ℕ
  /-- the calls of "kick" -/
  kicks : List (ℤ × ℕ)
  /-- the ones that have been answered -/
  kicked : List (ℤ × ℕ)

/-- What happens. -/
inductive Action where
  /-- the socket server reports to `tcpservice` -/
  | msgOpen (fd : ℤ)
  | msgData (fd : ℤ) (msg : List UInt8)
  | msgClose (fd : ℤ)
  | msgError (fd : ℤ)
  | msgWarning (fd size : ℤ)
  /-- the watchdog handles the next event -/
  | socket
  /-- the new service is there, or has failed -/
  | launched (fd : ℤ) (ok : Bool)
  /-- the agent handles "start" -/
  | start (a : ℕ)
  /-- `tcpservice` handles "forward" -/
  | forward (a : ℕ)
  /-- the agent goes on -/
  | reply (a : ℕ)
  /-- the watchdog goes on -/
  | started (a : ℕ)
  /-- the agent asks for close -/
  | quit (a : ℕ)
  /-- the watchdog handles "close" -/
  | close (fd : ℤ)
  /-- `tcpservice` handles "kick" -/
  | kick (fd : ℤ) (a : ℕ)
  /-- `close_agent` goes on -/
  | kicked (fd : ℤ) (a : ℕ)
  /-- the agent handles "disconnect" -/
  | disconnect (a : ℕ)

namespace State

variable (s : State)

def report : Tcpservice × List Event → State := fun (tcpservice, events) =>
  { s with tcpservice := tcpservice, events := s.events ++ events }

def setStart (a : ℕ) (start : Start) : State :=
  { s with agents := s.agents.modify a fun ag => { ag with start := start } }

/-- `close_agent` up to its call -/
def closeAgent (fd : ℤ) : State :=
  match s.agent fd with
  | none => s
  | some a => { s with agent := update s.agent fd none, kicks := s.kicks ++ [(fd, a)] }

/-- `SOCKET` -/
def handle : Event → State
  | .connect fd => { s with launching := s.launching ++ [fd] }
  | .close fd => s.closeAgent fd
  | .error fd => s.closeAgent fd
  | .data _ _ => s
  | .warning _ _ => s

/-- `SOCKET.open` goes on with the new agent, and waits for it to start. -/
def launched (fd : ℤ) : State :=
  { s with
    agents := s.agents ++ [⟨fd, .sent, 0, false⟩]
    agent := update s.agent fd (some s.agents.length)
    starting := s.starting ++ [s.agents.length] }

/-- `tcpservice` answers "forward". An agent that has exited gets the answer no more. -/
def forward (a : ℕ) (ag : Agent) : State :=
  let s := { s with forwards := s.forwards.erase a }
  match s.tcpservice.forward a ag.clientFd with
  | some tcpservice =>
    let s := { s with tcpservice := tcpservice }
    if ag.start = .forwarding then s.setStart a (.forwarded true) else s
  | none => if ag.start = .forwarding then s.setStart a (.forwarded false) else s

/-- `SOCKET.open` ends. -/
def started (a : ℕ) (ok : Bool) : State :=
  { s with
    starting := s.starting.erase a
    failed := if ok then s.failed else s.failed ++ [a] }

/-- `skynet.exit`: a call that has not been answered fails. -/
def exit (a : ℕ) : State :=
  { s with agents := s.agents.modify a fun ag =>
      match ag.start with
      | .replied _ => { ag with exited := true }
      | _ => { ag with start := .replied false, exited := true } }

/-- A step; a socket is opened when it is not open. -/
def step : Action → Option State
  | .msgOpen fd =>
    if s.tcpservice.client fd = none then some (s.report (s.tcpservice.msgOpen fd)) else none
  | .msgData fd msg => some (s.report (s.tcpservice.msgData fd msg))
  | .msgClose fd => some (s.report (s.tcpservice.msgClose fd))
  | .msgError fd => some (s.report (s.tcpservice.msgError fd))
  | .msgWarning fd size => some (s.report (s.tcpservice.msgWarning fd size))
  | .socket =>
    match s.events with
    | [] => none
    | e :: events => some ({ s with events := events }.handle e)
  | .launched fd ok =>
    if fd ∈ s.launching then
      let s := { s with launching := s.launching.erase fd }
      some (if ok then s.launched fd else s)
    else none
  | .start a => do
    let ag ← s.agents[a]?
    if ag.start = .sent then some { s.setStart a .forwarding with forwards := s.forwards ++ [a] }
    else none
  | .forward a => do
    let ag ← s.agents[a]?
    if a ∈ s.forwards then some (s.forward a ag) else none
  | .reply a => do
    let ag ← s.agents[a]?
    match ag.start with
    | .forwarded ok => some (s.setStart a (.replied ok))
    | _ => none
  | .started a => do
    let ag ← s.agents[a]?
    match ag.start with
    | .replied ok => if a ∈ s.starting then some (s.started a ok) else none
    | _ => none
  | .quit a => do
    let ag ← s.agents[a]?
    if ag.start ≠ .sent ∧ ag.exited = false then
      some { s with closes := s.closes ++ [ag.clientFd] }
    else none
  | .close fd =>
    if fd ∈ s.closes then some ({ s with closes := s.closes.erase fd }.closeAgent fd) else none
  | .kick fd a =>
    if (fd, a) ∈ s.kicks then
      some { s with
        tcpservice := s.tcpservice.kick fd
        kicks := s.kicks.erase (fd, a)
        kicked := s.kicked ++ [(fd, a)] }
    else none
  | .kicked fd a =>
    if (fd, a) ∈ s.kicked then
      some { s with
        kicked := s.kicked.erase (fd, a)
        agents := s.agents.modify a fun ag => { ag with disconnects := ag.disconnects + 1 } }
    else none
  | .disconnect a => do
    let ag ← s.agents[a]?
    if ag.start ≠ .sent ∧ 0 < ag.disconnects ∧ ag.exited = false then some (s.exit a) else none

/-- Nothing has happened; `maxclient` is what the configuration says. -/
def init (maxclient : ℕ) : State where
  tcpservice := ⟨maxclient, 0, fun _ => none, fun _ => none⟩
  events := []
  forwards := []
  closes := []
  agents := []
  agent _ := none
  launching := []
  starting := []
  failed := []
  kicks := []
  kicked := []

end State

end SkynetEureka.Gateway
