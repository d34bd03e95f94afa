import SkynetEureka.Lib.Bytes
import SkynetEureka.Lib.Table

/-!
# The responses of a user (msgserver.lua)

Each run of `request_handler` has an entry `{ return_fd, response, version, index }`, which is in
`response` under its session, or no more. `ι` are the numbers of a handshake.
-/

namespace SkynetEureka.MsgServer

open Lib

/-- An entry. It counts the requests that it answers, and how often it has been sent. -/
structure Entry (ι : Type) where
  session : ℕ
  /-- `nil` once there is a response -/
  returnFd : Option ℕ
  response : Option (List UInt8)
  version : Option ι
  index : ℕ
  /-- `User.responded` when it was completed, or sent again -/
  stamp : ℕ
  requests : ℕ
  sends : ℕ

/-- What `server.login` makes for a user. -/
structure User (ι : Type) where
  secret : List UInt8
  version : ι
  index : ℕ
  username : List UInt8
  /-- the entries under their sessions -/
  response : Table ℕ ℕ
  fd : Option ℕ
  ip : Option (List UInt8)
  entries : List (Entry ι)
  /-- how many responses have been completed or sent again -/
  responded : ℕ

/-- How `request_handler` ends. -/
inductive Outcome where
  /-- `nil` counts as the empty string -/
  | ok (result : List UInt8)
  | error
  /-- what it returns is no string -/
  | other
deriving DecidableEq

/-- What `do_request` does with a request. -/
inductive Reply where
  /-- it raises "Conflict session" -/
  | conflict
  /-- it calls `request_handler` -/
  | run
  /-- the response is not ready -/
  | wait
  | resend (response : List UInt8)
deriving DecidableEq

/-- A number of `k` bytes, big-endian. -/
def packNumber (k n : ℕ) : List UInt8 := (leBytes k n).reverse

/-- `string.pack(">s2", result)`; `none` when it raises. -/
def packString (result : List UInt8) : Option (List UInt8) :=
  if result.length < 2 ^ 16 then some (packNumber 2 result.length ++ result) else none

/-- The response of a run; `none` when this raises. -/
def packResponse (session : ℕ) : Outcome → Option (List UInt8)
  | .ok result => packString (result ++ 1 :: packNumber 4 session)
  | .error => packString (0 :: packNumber 4 session)
  | .other => none

variable {ι : Type}

/-- It has been completed, and is too old. -/
def Entry.Expired (n : ℕ) (p : Entry ι) : Prop := p.returnFd = none ∧ p.index < n

/-- It has been completed, and is not too old. -/
def Entry.Fresh (n : ℕ) (p : Entry ι) : Prop := p.returnFd = none ∧ n ≤ p.index

instance (n : ℕ) (p : Entry ι) : Decidable (p.Expired n) :=
  inferInstanceAs (Decidable (p.returnFd = none ∧ p.index < n))

instance (n : ℕ) (p : Entry ι) : Decidable (p.Fresh n) :=
  inferInstanceAs (Decidable (p.returnFd = none ∧ n ≤ p.index))

/-- What becomes of `p` when it has a response: `sent` says whether this is sent. -/
def Entry.finish (stamp : ℕ) (sent : Bool) (p : Entry ι) : Entry ι :=
  { p with returnFd := none, stamp := stamp, sends := p.sends + sent.toNat }

namespace User

variable (u : User ι)

/-- The entries that `pairs(u.response)` comes to. -/
def cached : List ℕ := u.response.pairs.map Prod.snd

/-- The values that `max` takes in `retire_response`. -/
def rebased (n : ℕ) : List ℕ :=
  u.cached.filterMap fun e => u.entries[e]?.bind fun p =>
    if p.Fresh n then some (p.index - n) else none

/-- `retire_response`, with `n` for `expired_number` -/
def retire (n : ℕ) : User ι :=
  if n * 2 ≤ u.index then
    { u with
      response := u.response.filter fun _ e => decide (¬ ∃ p ∈ u.entries[e]?, p.Expired n)
      entries := u.entries.mapIdx fun e p =>
        if e ∈ u.cached ∧ p.Fresh n then { p with index := p.index - n } else p
      index := (u.rebased n).foldl max 0 + 1 }
  else u

/-- `p = { fd }`, and `p` goes under the session. -/
def start (fd session : ℕ) : User ι :=
  { u with
    response := u.response.set session (some u.entries.length)
    entries := u.entries ++ [⟨session, some fd, none, none, 0, 0, 1, 0⟩] }

/-- The end of `do_request`, which all that have a response come to -/
def finish (n e : ℕ) (sent : Bool) : User ι :=
  let u := { u with
    index := u.index + 1
    responded := u.responded + 1
    entries := u.entries.modify e (Entry.finish (u.responded + 1) sent) }
  u.retire n

/-- The run of `e` has a response. -/
def complete (n e : ℕ) (response : List UInt8) (sent : Bool) : User ι :=
  let u := { u with entries := u.entries.modify e fun p =>
    { p with response := some response, version := some u.version, index := u.index } }
  u.finish n e sent

/-- The entry under a session. -/
def find (session : ℕ) : Option (ℕ × Entry ι) := do
  let e ← u.response.get session
  let p ← u.entries[e]?
  return (e, p)

/-- `do_request` up to `request_handler`, or to its end. The connection of `fd` is the user, so that
what is sent again is sent. -/
def request [DecidableEq ι] (n fd session : ℕ) : User ι × Reply :=
  match u.find session with
  | none => (u.start fd session, .run)
  | some (e, p) =>
    if p.version = some u.version then
      -- session can be reused in the same connection
      let u := { u with response := u.response.set session none }
      match p.response with
      | none => (u, .conflict)
      | some _ => (u.start fd session, .run)
    else
      -- the version and the index are new, and so is the return fd
      let u := { u with entries := u.entries.modify e fun p =>
        { p with
          returnFd := some fd
          version := some u.version
          index := u.index
          requests := p.requests + 1 } }
      match p.response with
      | none => (u, .wait)
      | some response => (u.finish n e true, .resend response)

/-- What the handshake and the logout use of a record. -/
def login : List UInt8 × Option ℕ × ι := (u.username, u.fd, u.version)

@[simp] theorem login_retire (n : ℕ) : (u.retire n).login = u.login := by
  unfold retire
  split_ifs
  · rfl
  · rfl

@[simp] theorem login_finish (n e : ℕ) (sent : Bool) : (u.finish n e sent).login = u.login :=
  login_retire _ n

@[simp] theorem login_complete (n e : ℕ) (response : List UInt8) (sent : Bool) :
    (u.complete n e response sent).login = u.login := login_finish _ n e sent

/-- A request leaves it as it is. -/
@[simp] theorem login_request [DecidableEq ι] (n fd session : ℕ) :
    (u.request n fd session).1.login = u.login := by
  unfold request
  split
  · rfl
  · dsimp only
    split_ifs
    · split
      · rfl
      · rfl
    · split
      · rfl
      · exact login_finish _ n _ true

end User

end SkynetEureka.MsgServer
