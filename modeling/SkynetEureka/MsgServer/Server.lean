import SkynetEureka.Lib.Run
import SkynetEureka.MsgServer.Cache

/-!
# The gate for messages (gateserver.lua, msgserver.lua)

A step is what the service does with a message until it waits. A run of `request_handler`, or of
`disconnect_handler`, ends in a step of its own.
-/

namespace SkynetEureka.MsgServer

open Lib Function

/-- The configuration, and the functions of other libraries that a handshake uses. -/
structure Conf (ι : Type) where
  expiredNumber : ℕ
  /-- there is a `disconnect_handler` -/
  disconnectHandler : Bool
  /-- `none` for `nil` -/
  tonumber : List UInt8 → Option ι
  /-- `none` when it raises -/
  b64decode : List UInt8 → Option (List UInt8)
  /-- `crypt.hmac_hash`; `none` when it raises -/
  hmacHash : List UInt8 → List UInt8 → Option (List UInt8)

/-- The variables of gateserver.lua, and the calls of `socketdriver.close`. -/
structure Gate where
  maxclient : ℕ
  clientNumber : ℤ
  /-- `connection` there; `false` once the socket has been asked to close -/
  client : ℕ → Option Bool
  closes : List ℕ

/-- A run of `request_handler`, for a request that has come from `fd`. -/
structure HandlerRun where
  user : ℕ
  entry : ℕ
  fd : ℕ
deriving DecidableEq

/-- What is sent to a client. -/
inductive Package where
  /-- `netpack.pack` of the text -/
  | shakehands (result : String)
  | response (response : List UInt8)
deriving DecidableEq

/-- The variables of msgserver.lua. A record of a user is a number, an index of `users`. -/
structure State (ι : Type) where
  gate : Gate
  users : List (User ι)
  userOnline : List UInt8 → Option ℕ
  handshake : ℕ → Option (List UInt8)
  connection : ℕ → Option ℕ
  runs : List HandlerRun
  /-- the calls of `request_handler`, with their messages -/
  requests : List (ℕ × List UInt8)
  /-- the calls of `disconnect_handler`, with the sockets -/
  disconnects : List (ℕ × ℕ)
  /-- the sockets for which it runs -/
  closing : List ℕ
  sent : List (ℕ × Package)

/-- What happens. -/
inductive Action where
  /-- `server.login` -/
  | login (username secret : List UInt8)
  /-- `server.logout` -/
  | logout (username : List UInt8)
  /-- the socket server reports -/
  | msgOpen (fd : ℕ) (addr : List UInt8)
  | msgData (fd : ℕ) (message : List UInt8)
  | msgClose (fd : ℕ)
  | msgError (fd : ℕ)
  /-- `request_handler` returns or raises -/
  | handled (run : HandlerRun) (outcome : Outcome)
  /-- so does `disconnect_handler` -/
  | disconnected (fd : ℕ) (ok : Bool)

namespace Gate

variable (g : Gate)

/-- `gateserver.closeclient` -/
def closeclient (fd : ℕ) : Gate :=
  if g.client fd = some true then
    { g with client := update g.client fd (some false), closes := g.closes ++ [fd] }
  else g

/-- `close_fd` -/
def closeFd (fd : ℕ) : Gate :=
  match g.client fd with
  | none => g
  | some _ => { g with client := update g.client fd none, clientNumber := g.clientNumber - 1 }

end Gate

/-- `string.match(message, "([^:]*):([^:]*):([^:]*)")` -/
def matchShakehands (message : List UInt8) :
    Option (List UInt8 × List UInt8 × List UInt8) :=
  match message.splitOn 58 with
  | username :: index :: hmac :: _ => some (username, index, hmac)
  | _ => none

/-- `string.unpack(">I4", message, -4)` -/
def sessionOf (message : List UInt8) : ℕ := ofLeBytes (message.reverse.take 4)

namespace State

variable {ι : Type} [LinearOrder ι] [Zero ι] (conf : Conf ι) (s : State ι)

def setUser (id : ℕ) (u : User ι) : State ι := { s with users := s.users.set id u }

def closeclient (fd : ℕ) : State ι := { s with gate := s.gate.closeclient fd }

def closeFd (fd : ℕ) : State ι := { s with gate := s.gate.closeFd fd }

/-- `server.login` -/
def login (username secret : List UInt8) : State ι :=
  if s.userOnline username = none then
    { s with
      users := s.users ++ [⟨secret, 0, 0, username, .empty, none, none, [], 0⟩]
      userOnline := update s.userOnline username (some s.users.length) }
  else s

/-- `server.logout` -/
def logout (username : List UInt8) : State ι :=
  match s.userOnline username with
  | none => s
  | some id =>
    let s := { s with userOnline := update s.userOnline username none }
    match s.users[id]?.bind User.fd with
    | none => s
    | some fd => { s.closeclient fd with connection := update s.connection fd none }

/-- `MSG.open`, `handler.connect` -/
def msgOpen (fd : ℕ) (addr : List UInt8) : State ι :=
  if (s.gate.maxclient : ℤ) ≤ s.gate.clientNumber then
    { s with gate := { s.gate with closes := s.gate.closes ++ [fd] } }
  else
    { s with
      gate := { s.gate with
        client := update s.gate.client fd (some true)
        clientNumber := s.gate.clientNumber + 1 }
      handshake := update s.handshake fd (some addr) }

/-- `do_auth` up to its changes: the record and its new version, or what is wrong. -/
def doAuth (message : List UInt8) : Except String (ℕ × ι) :=
  match matchShakehands message with
  | none => .error "404 User Not Found"
  | some (username, index, hmac) =>
    match s.userOnline username with
    | none => .error "404 User Not Found"
    | some id =>
      match s.users[id]?, conf.tonumber index, conf.b64decode hmac with
      | some u, some idx, some hmac =>
        if idx ≤ u.version then .error "403 Index Expired"
        else
          match conf.hmacHash u.secret (username ++ 58 :: index) with
          | none => .error "400 Bad Request"
          | some v => if v ≠ hmac then .error "401 Unauthorized" else .ok (id, idx)
      -- what raises is an error of `pcall`
      | _, _, _ => .error "400 Bad Request"

/-- `auth` -/
def auth (fd : ℕ) (addr message : List UInt8) : State ι :=
  match s.doAuth conf message with
  | .ok (id, idx) =>
    { s with
      users := s.users.modify id fun u =>
        { u with version := idx, fd := some fd, ip := some addr }
      connection := update s.connection fd (some id)
      sent := s.sent ++ [(fd, Package.shakehands "200 OK")] }
  | .error result =>
    { s with sent := s.sent ++ [(fd, Package.shakehands result)] }.closeclient fd

/-- `request` up to `request_handler`, or to its end. When it raises, the client is closed. -/
def request (fd : ℕ) (message : List UInt8) : State ι :=
  match s.connection fd with
  | none => s
  | some id =>
    match s.users[id]? with
    | none => s
    | some u =>
      if message.length < 4 then s.closeclient fd
      else
        let (u', reply) := u.request conf.expiredNumber fd (sessionOf message)
        let s := s.setUser id u'
        match reply with
        | .conflict => s.closeclient fd
        | .run =>
          { s with
            runs := s.runs ++ [⟨id, u.entries.length, fd⟩]
            requests := s.requests ++ [(id, message.take (message.length - 4))] }
        | .wait => s
        | .resend response => { s with sent := s.sent ++ [(fd, Package.response response)] }

/-- `dispatch_msg`, `handler.message` -/
def msgData (fd : ℕ) (message : List UInt8) : State ι :=
  if s.gate.client fd = some true then
    match s.handshake fd with
    | some addr => { s.auth conf fd addr message with handshake := update s.handshake fd none }
    | none => s.request conf fd message
  else s

/-- `MSG.close` and `MSG.error` up to `disconnect_handler`, or to their end -/
def disconnect (fd : ℕ) : State ι :=
  let s := { s with handshake := update s.handshake fd none }
  match s.connection fd with
  | none => s.closeFd fd
  | some id =>
    let s := { s with
      users := s.users.modify id fun u => { u with fd := none }
      connection := update s.connection fd none }
    if conf.disconnectHandler then
      { s with disconnects := s.disconnects ++ [(id, fd)], closing := s.closing ++ [fd] }
    else s.closeFd fd

/-- `do_request` goes on after `request_handler`, for the entry `p`. -/
def handled (run : HandlerRun) (u : User ι) (p : Entry ι) (outcome : Outcome) : State ι :=
  match packResponse p.session outcome with
  | none => if s.connection run.fd = none then s else s.closeclient run.fd
  | some response =>
    let fd := p.returnFd.filter fun fd => (s.connection fd).isSome
    let u := u.complete conf.expiredNumber run.entry response fd.isSome
    { s.setUser run.user u with
      sent := s.sent ++ fd.toList.map fun fd => (fd, Package.response response) }

/-- A step; the number of a socket that is opened is free. -/
def step : Action → Option (State ι)
  | .login username secret => some (s.login username secret)
  | .logout username => some (s.logout username)
  | .msgOpen fd addr =>
    if s.connection fd = none ∧ fd ∉ s.closing then some (s.msgOpen fd addr) else none
  | .msgData fd message => some (s.msgData conf fd message)
  | .msgClose fd => some (s.disconnect conf fd)
  | .msgError fd => some (s.disconnect conf fd)
  | .handled run outcome => do
    let u ← s.users[run.user]?
    let p ← u.entries[run.entry]?
    if run ∈ s.runs then
      some ({ s with runs := s.runs.erase run }.handled conf run u p outcome)
    else none
  | .disconnected fd ok =>
    if fd ∈ s.closing then
      let s := { s with closing := s.closing.erase fd }
      some (if ok then s.closeFd fd else s)
    else none

/-- Nothing has happened. -/
def init (maxclient : ℕ) : State ι where
  gate := ⟨maxclient, 0, fun _ => none, []⟩
  users := []
  userOnline _ := none
  handshake _ := none
  connection _ := none
  runs := []
  requests := []
  disconnects := []
  closing := []
  sent := []

end State

/-- The functions at the handshakes 1 and 2 of the user "u" with the secret "secret00". -/
def sampleConf (expiredNumber : ℕ) : Conf ℕ where
  expiredNumber := expiredNumber
  disconnectHandler := true
  tonumber
    | [49] => some 1
    | [50] => some 2
    | _ => none
  b64decode text :=
    if text = [110, 53, 79, 103, 114, 56, 56, 57, 89, 53, 56, 61] then
      some [159, 147, 160, 175, 207, 61, 99, 159]
    else if text = [112, 51, 83, 99, 54, 47, 56, 68, 116, 119, 115, 61] then
      some [167, 116, 156, 235, 255, 3, 183, 11]
    else none
  hmacHash secret text :=
    if secret = [115, 101, 99, 114, 101, 116, 48, 48] then
      if text = [117, 58, 49] then some [159, 147, 160, 175, 207, 61, 99, 159]
      else if text = [117, 58, 50] then some [167, 116, 156, 235, 255, 3, 183, 11]
      else none
    else none

/-- "u:1:n5Ogr889Y58=" -/
def sampleFirst : List UInt8 := [117, 58, 49, 58, 110, 53, 79, 103, 114, 56, 56, 57, 89, 53, 56, 61]

/-- "u:2:p3Sc6/8Dtws=" -/
def sampleSecond : List UInt8 :=
  [117, 58, 50, 58, 112, 51, 83, 99, 54, 47, 56, 68, 116, 119, 115, 61]

end SkynetEureka.MsgServer
