import Mathlib.Data.Int.Notation

/-!
# The client of the registry (client.lua, webclient.lua)

A request is a call of the service webclient.lua, which answers when the exchange is over. The call
raises an error when that service fails.
-/

namespace SkynetEureka.Eureka

/-- A string, character by character. -/
abbrev Name := List Char

/-- The parameters of `client:new`. Those that have another type than the source asks for are
`none`, and so is a port that is no number. -/
structure EurekaServer where
  host : Option Name
  port : Option ℤ
  uri : Option Name
  auth : Option (Option Name × Option Name)
  /-- `tonumber(eurekaserver.timeval)` -/
  timeval : Option ℤ

/-- `_M.new`, whose authorisation is the name and the password. -/
structure Client where
  host : Name
  port : ℤ
  uri : Name
  auth : Option (Name × Name)
deriving DecidableEq

/-- The instance that is registered, and what `json.encode` makes of it: its text or an error. -/
structure Instance where
  app : Option Name
  instanceId : Option Name
  encoded : Except String String

/-- What comes of a call of the webclient. -/
inductive Reply where
  /-- `skynet.call` raises an error -/
  | raised
  /-- `skynet.ret()`, when there is no request -/
  | empty
  /-- `resopnd` with the result of the exchange -/
  | done (result : ℤ) (content : String) (errmsg : Option String) (responseCode : ℤ)
deriving DecidableEq

/-- What a function of the client gives: `true` and the body, or an error that may have no text. -/
abbrev Answer := Except (Option String) String

namespace Client

/-- `_M.new` up to the new webclient -/
def new (server : EurekaServer) : Except String Client :=
  match server.host with
  | none => .error "host required"
  | some host =>
    if host.length < 1 then .error "host required"
    else
      let port := server.port.getD 80
      if port < 1 ∨ 65535 < port then .error "wrong port number"
      else
        let uri := server.uri.getD ['/', 'e', 'u', 'r', 'e', 'k', 'a']
        if uri.head? ≠ some '/' then .error "wrong uri prefix"
        else
          let auth := server.auth.bind fun auth =>
            auth.1.bind fun username => auth.2.map fun password => (username, password)
          .ok ⟨host, port, uri, auth⟩

/-- A check of `appid` or `instanceid` -/
def required (what : String) (value : Option Name) : Except String Unit :=
  match value with
  | none => .error (what ++ " required")
  | some value => if value.length < 1 then .error (what ++ " required") else .ok ()

/-- `request` after the call: `info.response_code` and the response; `none` when the call has
raised an error. -/
def received : Reply → Option (Option ℤ × Option String)
  | .raised => none
  | .empty => some (none, none)
  | .done result content errmsg responseCode =>
    some (if result = 0 then (some responseCode, some content) else (none, errmsg))

/-- The end of each function: the code `expected` means that all went well. -/
def answer (expected : ℤ) : Option ℤ × Option String → Answer
  | (none, body) => .error body
  | (some statuscode, body) =>
    if statuscode = expected then .ok (body.getD "")
    else .error (some ("status is " ++ toString statuscode ++ " : " ++ body.getD "nil"))

/-- `_M.getApp`, before the request -/
def getAppCheck (appid : Name) : Except String Unit := required "appid" (some appid)

/-- `_M.getApp`, after the request -/
def getApp : Option ℤ × Option String → Answer := answer 200

/-- `_M.heartBeat`, before the request -/
def heartBeatCheck (appid instanceid : Option Name) : Except String Unit := do
  required "appid" appid
  required "instanceid" instanceid

/-- `_M.heartBeat`, after the request: that the instance is not known has no text of its own. -/
def heartBeat (received : Option ℤ × Option String) : Answer :=
  if received.1 = some 404 then .error received.2 else answer 200 received

/-- `_M.register`, before the request, which takes the instance as its body -/
def registerCheck (appid : Option Name) (instancedata : Instance) : Except String Unit := do
  required "appid" appid
  match instancedata.encoded with
  | .ok _ => .ok ()
  | .error err => .error ("invalid body : " ++ err)

/-- `_M.register`, after the request -/
def register : Option ℤ × Option String → Answer := answer 204

end Client

end SkynetEureka.Eureka
