import SkynetEureka.Lib.Run

/-!
# The gate of the eureka server (net/tcpserver.lua, service/tcpservice.lua)

A message is handled at once. The functions give the service after it, and what is sent to the
watchdog.
-/

namespace SkynetEureka.Gateway

open Function

/-- A message "socket" for the watchdog. -/
inductive Event where
  /-- "open" -/
  | connect (fd : ℤ)
  | data (fd : ℤ) (msg : List UInt8)
  | close (fd : ℤ)
  | error (fd : ℤ)
  | warning (fd : ℤ) (size : ℤ)
deriving DecidableEq

/-- The socket that the event is about. -/
def Event.fd : Event → ℤ
  | .connect fd => fd
  | .data fd _ => fd
  | .close fd => fd
  | .error fd => fd
  | .warning fd _ => fd

/-- What the tables of the two files have under a socket. -/
structure Tcpservice where
  maxclient : ℕ
  clientNumber : ℤ
  /-- `connection` of tcpserver.lua; `false` once the socket has been asked to close -/
  client : ℤ → Option Bool
  /-- `connection` of tcpservice.lua, with the agent -/
  connection : ℤ → Option (Option ℕ)

namespace Tcpservice

variable (s : Tcpservice)

/-- `tcpserver.closeclient` -/
def closeclient (fd : ℤ) : Tcpservice :=
  if s.client fd = some true then { s with client := update s.client fd (some false) } else s

/-- `MSG.open`, `handler.connect` -/
def msgOpen (fd : ℤ) : Tcpservice × List Event :=
  if (s.maxclient : ℤ) ≤ s.clientNumber then (s, [])
  else
    ({ s with
      clientNumber := s.clientNumber + 1
      client := update s.client fd (some true)
      connection := update s.connection fd (some none) }, [.connect fd])

/-- `close_fd` of both files -/
def closeFd (fd : ℤ) : Tcpservice :=
  let s := { s with connection := update s.connection fd none }
  match s.client fd with
  | none => s
  | some _ => { s with client := update s.client fd none, clientNumber := s.clientNumber - 1 }

/-- `MSG.close`, `handler.disconnect` -/
def msgClose (fd : ℤ) : Tcpservice × List Event := (s.closeFd fd, [.close fd])

/-- `MSG.error`, `handler.error` -/
def msgError (fd : ℤ) : Tcpservice × List Event := (s.closeFd fd, [.error fd])

/-- `MSG.warning`, `handler.warning` -/
def msgWarning (fd size : ℤ) : Tcpservice × List Event := (s, [.warning fd size])

/-- `dispatch_msg`, `handler.message`: what an agent gets is not among the events. -/
def msgData (fd : ℤ) (msg : List UInt8) : Tcpservice × List Event :=
  if s.client fd = some true then
    match s.connection fd with
    | some none => (s, [.data fd msg])
    | _ => (s, [])
  else (s, [])

/-- `CMD.forward`; `none` when the assertion fails. -/
def forward (source : ℕ) (fd : ℤ) : Option Tcpservice :=
  (s.connection fd).map fun _ =>
    { s with connection := update s.connection fd (some (some source)) }

/-- `CMD.kick` -/
def kick (fd : ℤ) : Tcpservice := s.closeclient fd

end Tcpservice

end SkynetEureka.Gateway
