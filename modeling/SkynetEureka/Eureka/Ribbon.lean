import SkynetEureka.Lib.Run
import SkynetEureka.Lib.Table
import SkynetEureka.Eureka.Client

/-!
# The clients of a remote service (ribbon.lua)

`cmd.update` goes through the instances of the registry: one that has a client gets its new address,
one that has none gets a new webclient. The handler yields where it waits for that service, and
other messages come meanwhile. At its end the clients of other instances are taken out.
-/

namespace SkynetEureka.Eureka.Ribbon

open Lib

/-- An instance -/
structure Server where
  instanceId : Name
  ipAddr : Name
  port : ℤ
deriving DecidableEq

/-- A client, with its webclients -/
structure FeignClient where
  server : Server
  service : List ℕ
deriving DecidableEq

/-- A handler of `cmd.update` that waits for a webclient: the number of the update, its instances,
the client that is being made and the instances that are left. -/
structure Handler where
  number : ℕ
  instances : List Server
  client : FeignClient
  rest : List Server
deriving DecidableEq

/-- The variables, the handlers that wait, the updates that have come, how many webclients have been
started, and what has been sent to them. -/
structure State where
  feignclients : Table Name FeignClient
  balanceIndex : ℕ
  handlers : List Handler
  updates : List (List Server)
  started : ℕ
  sent : List (ℕ × String)

/-- What happens. -/
inductive Action where
  /-- `cmd.update` with the instances that are decoded from its data -/
  | update (instances : List Server)
  /-- the new webclient for an update is there, or has failed -/
  | launched (number : ℕ) (ok : Bool)
  | getwebclient
deriving DecidableEq

/-- `max_client` -/
def maxClient : ℕ := 1

/-- The dispatch function of webclient.lua asserts this. -/
def webclientAccepts (command : String) : Prop := command = "request"

namespace State

variable (s : State)

/-- `client.server = server` of a client that is there -/
def setServer (server : Server) (client : FeignClient) : State :=
  { s with
    feignclients := s.feignclients.set server.instanceId (some { client with server := server }) }

/-- The loop of `cmd.update` that takes out clients, when `servers` has these instances -/
def removeOthers (instances : List Server) : State :=
  let listed (key : Name) : Bool := instances.any (·.instanceId = key)
  let removed := s.feignclients.pairs.filter fun e => !listed e.1
  { s with
    feignclients := s.feignclients.filter fun key _ => listed key
    sent := s.sent ++ removed.flatMap fun e => e.2.service.map fun webclient =>
      (webclient, "close") }

/-- The loop of `cmd.update` over the instances that are left, up to where it waits or ends -/
def goThrough (s : State) (number : ℕ) (instances : List Server) : List Server → State
  | [] => s.removeOthers instances
  | server :: rest =>
    match s.feignclients.get server.instanceId with
    | some client => (s.setServer server client).goThrough number instances rest
    | none => { s with handlers := s.handlers ++ [⟨number, instances, ⟨server, []⟩, rest⟩] }

/-- `cmd.update` -/
def update (instances : List Server) : State :=
  { s with updates := s.updates ++ [instances] }.goThrough s.updates.length instances instances

/-- `cmd.update` from where the new webclient is there -/
def launched (h : Handler) : State :=
  let client : FeignClient := { h.client with service := h.client.service ++ [s.started] }
  let s : State :=
    { s with
      handlers := s.handlers.erase h
      started := s.started + 1 }
  if client.service.length < maxClient then
    { s with handlers := s.handlers ++ [{ h with client := client }] }
  else
    { s with
      feignclients := s.feignclients.set client.server.instanceId (some client) }.goThrough
        h.number h.instances h.rest

/-- `cmd.getwebclient`: the webclient, its address and its port -/
def getwebclient : State × Option (Option ℕ × Name × ℤ) :=
  match s.feignclients.pairs with
  | [] => (s, none)
  | (_, value) :: _ =>
    let index := if s.balanceIndex > value.service.length then 1 else s.balanceIndex
    ({ s with balanceIndex := index + 1 },
      some (value.service[index - 1]?, value.server.ipAddr, value.server.port))

/-- A step. -/
def step : Action → Option State
  | .update instances => some (s.update instances)
  | .launched number ok =>
    match s.handlers.find? (·.number = number) with
    | some h => some (if ok then s.launched h else { s with handlers := s.handlers.erase h })
    | none => none
  | .getwebclient => some s.getwebclient.1

/-- Nothing has come yet. -/
def init : State := ⟨Table.empty, 1, [], [], 0, []⟩

end State

end SkynetEureka.Eureka.Ribbon
