import SkynetEureka.Lib.Run

/-!
# The login server (loginserver.lua)

A connection is a socket id. Its client is authenticated by a slave (`auth`), and the master goes on
with what the slave has returned (`accept`). What a coroutine does between two points where it yields
is one step; the functions of `skynet.crypt` are parameters.

The lines that have been sent, and what the client has passed, are not data of the server.
-/

namespace SkynetEureka.LoginServer

open Lib Function

abbrev Text := List UInt8

/-- `skynet.crypt`; `none` when an error is raised. -/
structure Crypt where
  base64encode : Text → Text
  base64decode : Text → Option Text
  dhexchange : Text → Option Text
  dhsecret : Text → Text → Option Text
  hmac64 : Text → Text → Text
  desdecode : Text → Text → Option Text

/-- The status lines -/
inductive Status where
  | badRequest
  | unauthorized
  | forbidden
  | notAcceptable
  | success (subid : Text)
  deriving DecidableEq

def Status.line : Status → Text
  | .badRequest => "400 Bad Request\n".toUTF8.toList
  | .unauthorized => "401 Unauthorized\n".toUTF8.toList
  | .forbidden => "403 Forbidden\n".toUTF8.toList
  | .notAcceptable => "406 Not Acceptable\n".toUTF8.toList
  | .success subid => "200 ".toUTF8.toList ++ subid ++ "\n".toUTF8.toList

/-- A line that is sent: a challenge or a key in base64, or a status. -/
inductive Line where
  | key (text : Text)
  | status (status : Status)
  deriving DecidableEq

def Line.isStatus : Line → Bool
  | .key _ => false
  | .status _ => true

/-- `socket_error`, or any other error -/
inductive Failure where
  | socket
  | message (text : String)
  deriving DecidableEq

variable {Server Uid : Type}

/-- What a slave returns. A uid may be `nil`. -/
inductive Reply (Server Uid : Type) where
  | socketError
  | failed (err : String)
  | ok (server : Server) (uid : Option Uid) (secret : Text)

/-- Where a connection is: in `socket.start`, waiting for a line of the client, in `auth_handler`, on
the way back to the master, in `login_handler`, or at the end of `accept`. -/
inductive Phase (Server Uid : Type) where
  | started
  | handshake (challenge : Text)
  | response (challenge secret : Text)
  | token (secret : Text)
  | auth (secret token : Text)
  | replied (reply : Reply Server Uid)
  | login (server : Server) (uid : Option Uid) (secret : Text)
  | ended

/-- `challenged`, `authorized` and `loggedIn` tell what the client has passed. -/
structure Conn (Server Uid : Type) where
  phase : Phase Server Uid
  sent : List Line
  closed : Bool
  challenged : Bool
  authorized : Bool
  loggedIn : Bool

/-- What a `login_handler` does: it returns a subid or `nil`, or what is not a string, or raises. -/
inductive Login where
  | ok (subid : Option Text)
  | unencodable
  | failed (err : String)
  deriving DecidableEq

structure State (Server Uid : Type) where
  multilogin : Bool
  conns : ℕ → Option (Conn Server Uid)
  userLogin : Uid → Bool

/-! ## The slave -/

/-- `ret_pack` -/
def retPack : Failure → Reply Server Uid
  | .socket => .socketError
  | .message text => .failed text

/-- The line that is sent, and where the connection goes on -/
abbrev Turn (Server Uid : Type) := Option Line × Phase Server Uid

/-- An error in `auth` -/
def abort (failure : Failure) : Turn Server Uid := (none, .replied (retPack failure))

/-- `write`, and what follows it; it fails when the socket has been closed. -/
def write (written : Bool) (line : Line) (next : Phase Server Uid) : Turn Server Uid :=
  if written then (some line, next) else abort .socket

/-- The next phase, unless an error has been raised -/
def orRaise {α : Type} (text : String) (next : α → Phase Server Uid) : Option α → Phase Server Uid
  | none => .replied (.failed text)
  | some a => next a

/-- `auth` up to the first line; `socket.start` may raise an error. -/
def started (crypt : Crypt) (challenge : Text) (ok written : Bool) : Turn Server Uid :=
  if ¬ok then abort (.message "socket is not started")
  else write written (.key (crypt.base64encode challenge)) (.handshake challenge)

def handshake (crypt : Crypt) (challenge serverkey : Text) (written : Bool) :
    Option Text → Turn Server Uid
  | none => abort .socket
  | some line =>
    match crypt.base64decode line with
    | none => abort (.message "Invalid base64 text")
    | some clientkey =>
      if clientkey.length ≠ 8 then abort (.message "Invalid client key")
      else
        match crypt.dhexchange serverkey with
        | none => abort (.message "Can't be 0")
        | some exchange =>
          write written (.key (crypt.base64encode exchange))
            (orRaise "Can't be 0" (.response challenge) (crypt.dhsecret clientkey serverkey))

/-- The answer to the challenge -/
def response (crypt : Crypt) (challenge secret : Text) (written : Bool) :
    Option Text → Turn Server Uid
  | none => abort .socket
  | some line =>
    match crypt.base64decode line with
    | none => abort (.message "Invalid base64 text")
    | some hmac =>
      if crypt.hmac64 challenge secret ≠ hmac then
        write written (.status .badRequest) (.replied (.failed "challenge failed"))
      else (none, .token secret)

def token (crypt : Crypt) (secret : Text) : Option Text → Turn Server Uid
  | none => abort .socket
  | some line =>
    match crypt.base64decode line with
    | none => abort (.message "Invalid base64 text")
    | some etoken =>
      (none, orRaise "Invalid des crypt text" (.auth secret) (crypt.desdecode secret etoken))

/-! ## A connection -/

namespace Conn

variable (c : Conn Server Uid)

def new : Conn Server Uid := ⟨.started, [], false, false, false, false⟩

def turn (t : Turn Server Uid) : Conn Server Uid :=
  { c with sent := c.sent ++ t.1.toList, phase := t.2 }

/-- The end of `accept`: a last line may be sent, and the socket is closed (`socket.close_fd`). -/
def finish (line : Option Line) : Conn Server Uid :=
  { c with sent := c.sent ++ line.toList, phase := .ended, closed := true }

/-- `finish` with a status; its `write` may fail. -/
def verdict (written : Bool) (status : Status) : Conn Server Uid :=
  c.finish (if written then some (.status status) else none)

end Conn

/-! ## The master -/

namespace State

variable (s : State Server Uid)

def init (multilogin : Bool) : State Server Uid := ⟨multilogin, fun _ => none, fun _ => false⟩

def put (fd : ℕ) (c : Conn Server Uid) : State Server Uid :=
  { s with conns := update s.conns fd (some c) }

/-- `accept`, when the slave has returned -/
def accept [DecidableEq Uid] (fd : ℕ) (c : Conn Server Uid) (written : Bool) :
    Reply Server Uid → State Server Uid
  | .socketError => s.put fd (c.finish none)
  | .failed _ => s.put fd (c.verdict written .unauthorized)
  | .ok server uid secret =>
    let login := s.put fd { c with phase := .login server uid secret }
    if s.multilogin then login
    else
      match uid with
      -- `user_login[nil] = true` is an error
      | none => s.put fd (c.finish none)
      | some u =>
        if s.userLogin u then s.put fd (c.verdict written .notAcceptable)
        else { login with userLogin := update s.userLogin u true }

/-- `accept`, when `login_handler` has returned -/
def unlock [DecidableEq Uid] (crypt : Crypt) (fd : ℕ) (c : Conn Server Uid) (written : Bool)
    (login : Login) : Option Uid → State Server Uid
  -- `user_login[nil] = nil` is an error
  | none => s.put fd (c.finish none)
  | some u =>
    let s := { s with userLogin := update s.userLogin u false }
    match login with
    | .ok subid =>
      let c := { c with loggedIn := true }
      s.put fd (c.verdict written (.success (crypt.base64encode (subid.getD []))))
    | .unencodable => s.put fd ({ c with loggedIn := true }.finish none)
    | .failed _ => s.put fd (c.verdict written .forbidden)

end State

/-- A step. The environment tells what a client sends (`none` when its socket is closed), which
random keys are taken, what the handlers do, and whether a write succeeds. -/
inductive Action (Server Uid : Type) where
  | accept (fd : ℕ)
  | started (fd : ℕ) (challenge : Text) (ok written : Bool)
  | handshake (fd : ℕ) (line : Option Text) (serverkey : Text) (written : Bool)
  | response (fd : ℕ) (line : Option Text) (written : Bool)
  | token (fd : ℕ) (line : Option Text)
  /-- `auth_handler` returns, or raises an error -/
  | auth (fd : ℕ) (result : Except String (Server × Option Uid))
  | returned (fd : ℕ) (written : Bool)
  /-- the call of the slave raises an error -/
  | callFailed (fd : ℕ)
  | login (fd : ℕ) (login : Login) (written : Bool)

namespace State

def step [DecidableEq Uid] (crypt : Crypt) (s : State Server Uid) :
    Action Server Uid → Option (State Server Uid)
  | .accept fd =>
    match s.conns fd with
    | none => some (s.put fd .new)
    | some _ => none
  | .started fd challenge ok written => do
    let c ← s.conns fd
    match c.phase with
    | .started => some (s.put fd (c.turn (LoginServer.started crypt challenge ok written)))
    | _ => none
  | .handshake fd line serverkey written => do
    let c ← s.conns fd
    match c.phase with
    | .handshake challenge =>
      some (s.put fd (c.turn (LoginServer.handshake crypt challenge serverkey written line)))
    | _ => none
  | .response fd line written => do
    let c ← s.conns fd
    match c.phase with
    | .response challenge secret =>
      let turn := LoginServer.response crypt challenge secret written line
      let challenged := match turn.2 with
        | .token _ => true
        | _ => false
      some (s.put fd ({ c with challenged := challenged }.turn turn))
    | _ => none
  | .token fd line => do
    let c ← s.conns fd
    match c.phase with
    | .token secret => some (s.put fd (c.turn (LoginServer.token crypt secret line)))
    | _ => none
  | .auth fd result => do
    let c ← s.conns fd
    match c.phase with
    | .auth secret _ =>
      match result with
      | .error err => some (s.put fd (c.turn (none, .replied (.failed err))))
      | .ok (server, uid) =>
        let c := { c with authorized := true }
        some (s.put fd (c.turn (none, .replied (.ok server uid secret))))
    | _ => none
  | .returned fd written => do
    let c ← s.conns fd
    match c.phase with
    | .replied reply => some (s.accept fd c written reply)
    | _ => none
  | .callFailed fd => do
    let c ← s.conns fd
    match c.phase with
    | .login .. | .ended => none
    | _ => some (s.put fd (c.finish none))
  | .login fd login written => do
    let c ← s.conns fd
    match c.phase with
    | .login _ uid _ => some (s.unlock crypt fd c written login uid)
    | _ => none

end State

end SkynetEureka.LoginServer
