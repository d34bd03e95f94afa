import SkynetEureka.Lib.Run
import SkynetEureka.Lib.Table

/-!
# The scheduler of a Lua service (skynet.lua)

A service handles a message in coroutines. The code of a coroutine is arbitrary: while it runs it
calls the functions of skynet.lua in any order, and it returns, raises or waits. What
`dispatch_message` and `suspend` do with it is fixed.

`Scheduler` has the tables by which coroutines are resumed, for each coroutine what it waits for,
and the calls of `suspend` and `dispatch_error_queue` that have not returned (`Control`). Trace
tags and texts of errors are left out. Nothing depends on `exited` and `log`, which are history.
-/

namespace SkynetEureka.Coroutines

open Lib

/-! ## The state -/

abbrev Session := ℕ
abbrev Address := ℕ
abbrev Msg := ℕ

/-- A coroutine, by the number of coroutines created before it. -/
abbrev Co := ℕ

/-- What `skynet.sleep` and `skynet.wait` take: the coroutine itself, or any other value. -/
inductive Token where
  | thread (co : Co)
  | value (v : ℕ)
deriving DecidableEq, Repr

/-- An entry of `session_id_coroutine`. -/
inductive Entry where
  | co (co : Co)
  /-- "BREAK" -/
  | brk
deriving DecidableEq, Repr

/-- What a coroutine does when it is resumed. -/
inductive Status where
  | unborn
  /-- it has a main function, and waits for its arguments; `skynet.timeout` has a session -/
  | ready (timer : Option Session)
  | running
  /-- in `skynet.sleep` -/
  | sleeping (session : Session) (token : Token)
  /-- in `skynet.wait` -/
  | waiting (session : Session) (token : Token)
  /-- in `yield_call` -/
  | calling (session : Session)
  /-- in the pool: it waits for a main function -/
  | pooled
  /-- in the pool, and it has got something else for its main function -/
  | spoiled
  /-- behind `coroutine_yield "QUIT"` -/
  | quit
  | dead
deriving DecidableEq, Repr

/-- With what a coroutine is resumed. -/
inductive How where
  /-- `true, msg, sz` -/
  | payload (msg : Msg)
  /-- `false` -/
  | failure
  /-- `false, "BREAK"` -/
  | brk
deriving DecidableEq, Repr

/-- Where the main thread is; `pending` calls of `dispatch_error_queue` follow when what runs now
has returned. -/
inductive Control where
  /-- `dispatch_message` has returned -/
  | idle
  | running (co : Co) (pending : ℕ)
  /-- `suspend` has got "SUSPEND" and calls `dispatch_wakeup` -/
  | wakeups (pending : ℕ)
  | errors (pending : ℕ)
  /-- `suspend` has got an error of the coroutine -/
  | crashed (co : Co)
  /-- the loop over `fork_queue` -/
  | forks
deriving DecidableEq, Repr

/-- What has happened. -/
inductive Event where
  /-- `skynet.wakeup` of the coroutine that sleeps with the session -/
  | woken (session : Session)
  /-- the session is put into `error_queue` -/
  | queued (session : Session)
  | called (session : Session)
  /-- a RESPONSE message -/
  | responded (session : Session) (msg : Msg)
  /-- the coroutine that waits for the session is resumed -/
  | resumed (session : Session) (how : How)
  /-- what the session stands for is resumed, and does not wait for that -/
  | misresumed (session : Session)
  /-- an ERROR message without a session, to a service that is called -/
  | left (service : Address)
deriving DecidableEq, Repr

structure Scheduler where
  sessionIdCoroutine : Table Session Entry
  wakeupQueue : List Token
  sleepSession : Table Token Session
  watchingSession : Table Session Address
  errorQueue : List Session
  forkQueue : List Co
  coroutinePool : List Co
  /-- the number of coroutines -/
  born : ℕ
  status : Co → Status
  /-- the last session that was given out -/
  sessions : ℕ
  control : Control
  /-- `succ` in `dispatch_message` -/
  succ : Bool
  /-- `skynet.exit` has been called -/
  exited : Bool
  log : List Event

/-! ## Coroutines -/

section

variable (s : Scheduler)

def Scheduler.record (event : Event) : Scheduler := { s with log := s.log ++ [event] }

/-- `session_id_coroutine[session] = entry` -/
def Scheduler.setEntry (session : Session) (entry : Option Entry) : Scheduler :=
  { s with sessionIdCoroutine := s.sessionIdCoroutine.set session entry }

/-- A new session is given out. -/
def Scheduler.newSession : Scheduler := { s with sessions := s.sessions + 1 }

/-- `dispatch_message` begins. -/
def Scheduler.begin : Scheduler := { s with succ := true }

def Scheduler.setStatus (co : Co) (status : Status) : Scheduler :=
  { s with status := Function.update s.status co status }

/-- `co_create`. Which coroutine the weak table has left to reuse is open. One that has got no main
function when it was resumed dies of the new one. -/
def Scheduler.coCreate (timer : Option Session) : Option Co → Option (Co × Scheduler)
  | none => some (s.born, { s.setStatus s.born (.ready timer) with born := s.born + 1 })
  | some co =>
    if co ∈ s.coroutinePool then
      some (co, { s.setStatus co (if s.status co = .pooled then .ready timer else .dead) with
        coroutinePool := s.coroutinePool.erase co })
    else none

/-- What a coroutine does first when it is resumed. -/
def Scheduler.unblock : Status → Scheduler
  | .sleeping _ token => { s with sleepSession := s.sleepSession.set token none }
  | .waiting session token =>
    { s.setEntry session none with sleepSession := s.sleepSession.set token none }
  | .calling session => { s with watchingSession := s.watchingSession.set session none }
  | _ => s

/-- `suspend(co, coroutine_resume(co, ...))`, up to where the coroutine runs. One in the pool takes
what it gets for its main function and yields without a command, of which it dies the next time. -/
def Scheduler.resume (co : Co) (pending : ℕ) : Scheduler :=
  match s.status co with
  | .pooled => { s.setStatus co .spoiled with control := .errors pending }
  | .spoiled => { s.setStatus co .dead with control := .crashed co }
  | .dead => { s with control := .crashed co }
  | status => { (s.unblock status).setStatus co .running with control := .running co pending }

/-- What a coroutine may be resumed with through the session. -/
def Status.awaits (status : Status) (session : Session) : How → Prop
  | .payload _ =>
    match status with
    | .sleeping σ _ | .waiting σ _ | .calling σ | .ready (some σ) => σ = session
    | _ => False
  | .failure => status = .calling session
  | .brk =>
    match status with
    | .sleeping σ _ | .waiting σ _ => σ = session
    | _ => False

instance (status : Status) (session : Session) (how : How) :
    Decidable (status.awaits session how) :=
  match how with
  | .payload _ =>
    match status with
    | .sleeping σ _ | .waiting σ _ | .calling σ | .ready (some σ) =>
      inferInstanceAs (Decidable (σ = session))
    | .unborn | .ready none | .running | .pooled | .spoiled | .quit | .dead =>
      inferInstanceAs (Decidable False)
  | .failure => inferInstanceAs (Decidable (_ = _))
  | .brk =>
    match status with
    | .sleeping σ _ | .waiting σ _ => inferInstanceAs (Decidable (σ = session))
    | .unborn | .ready _ | .running | .calling _ | .pooled | .spoiled | .quit | .dead =>
      inferInstanceAs (Decidable False)

/-- Resume what the session stands for. -/
def Scheduler.resumeSession (co : Co) (session : Session) (how : How) (pending : ℕ) : Scheduler :=
  let event := if (s.status co).awaits session how then Event.resumed session how
    else .misresumed session
  (s.record event).resume co pending

/-- An error in the main thread, which a `pcall` of `dispatch_message` catches. -/
def Scheduler.throw : Scheduler := { s with control := .forks, succ := false }

/-- `coroutine_resume` of a `nil` or of "BREAK". -/
def Scheduler.resumeNothing (session : Session) : Scheduler :=
  (s.record (.misresumed session)).throw

/-! ## suspend -/

/-- `dispatch_wakeup` -/
def Scheduler.dispatchWakeup (pending : ℕ) : Scheduler :=
  match s.wakeupQueue with
  | [] => { s with control := .errors (pending + 1) }
  | token :: queue =>
    let s : Scheduler := { s with wakeupQueue := queue }
    match s.sleepSession.get token with
    | none => { s with control := .errors (pending + 1) }
    | some session =>
      let co := s.sessionIdCoroutine.get session
      let s := s.setEntry session (some .brk)
      match co with
      | some (.co co) => s.resumeSession co session .brk (pending + 1)
      | _ => s.resumeNothing session

/-- `dispatch_error_queue`, as the last call of a `suspend`. -/
def Scheduler.dispatchErrorQueue : ℕ → Scheduler
  | 0 => { s with control := .forks }
  | pending + 1 =>
    match s.errorQueue with
    | [] => { s with control := .errors pending }
    | session :: queue =>
      let co := s.sessionIdCoroutine.get session
      let s : Scheduler := { s.setEntry session none with errorQueue := queue }
      match co with
      | some (.co co) => s.resumeSession co session .failure pending
      | _ => s.resumeNothing session

/-! ## What a coroutine calls -/

/-- `skynet.fork` -/
def Scheduler.fork (reuse : Option Co) : Option Scheduler :=
  (s.coCreate none reuse).map fun (co, s) => { s with forkQueue := s.forkQueue ++ [co] }

/-- `skynet.wakeup` -/
def Scheduler.wakeup (token : Token) : Scheduler :=
  match s.sleepSession.get token with
  | some session =>
    { s with wakeupQueue := s.wakeupQueue ++ [token], log := s.log ++ [.woken session] }
  | none => s

/-- `skynet.timeout` -/
def Scheduler.timeout (reuse : Option Co) : Option Scheduler :=
  let session := s.sessions + 1
  (s.newSession.coCreate (some session) reuse).map fun (co, s) =>
    s.setEntry session (some (.co co))

/-- `suspend_sleep`. When the token is taken the assertion fails, but the session stands for the
coroutine already. -/
def Scheduler.suspendSleep (co : Co) (pending : ℕ) (token : Token) (status : Session → Status) :
    Scheduler :=
  let session := s.sessions + 1
  let s := s.newSession.setEntry session (some (.co co))
  match s.sleepSession.get token with
  | some _ => s
  | none =>
    { s.setStatus co (status session) with
      sleepSession := s.sleepSession.set token (some session), control := .wakeups pending }

/-- `skynet.sleep` -/
def Scheduler.sleep (co : Co) (pending : ℕ) (token : Token) : Scheduler :=
  s.suspendSleep co pending token fun session => .sleeping session token

/-- `skynet.wait` -/
def Scheduler.wait (co : Co) (pending : ℕ) (token : Token) : Scheduler :=
  s.suspendSleep co pending token fun session => .waiting session token

/-- `skynet.call` and `skynet.rawcall`, when the address is valid. -/
def Scheduler.call (co : Co) (pending : ℕ) (addr : Address) : Scheduler :=
  let session := s.sessions + 1
  { (s.newSession.setEntry session (some (.co co))).setStatus co (.calling session) with
    watchingSession := s.watchingSession.set session (some addr)
    control := .wakeups pending
    log := s.log ++ [.called session] }

/-- The end of `_error_dispatch`: the sessions of the calls that have failed are queued. In which
order `pairs` gives them is open. -/
def Scheduler.queueErrors (session : Session) (source : Address) (order : List Session) :
    Option Scheduler :=
  if session = 0 then
    if order.Perm ((s.watchingSession.pairs.filter fun e => e.2 = source).map Prod.fst) then
      some { s with errorQueue := s.errorQueue ++ order, log := s.log ++ order.map .queued }
    else none
  else if (s.watchingSession.get session).isSome then
    some { s with errorQueue := s.errorQueue ++ [session], log := s.log ++ [.queued session] }
  else some s

/-- The end of `skynet.exit`; an ERROR message tells the services that are called. -/
def Scheduler.quit (co : Co) (pending : ℕ) : Scheduler :=
  { s.setStatus co .quit with
    forkQueue := []
    control := .errors pending
    exited := true
    log := s.log ++ (s.watchingSession.pairs.map Prod.snd).dedup.map .left }

/-- The main function has returned: the end of the loop in `co_create`. -/
def Scheduler.recycle (co : Co) (pending : ℕ) : Scheduler :=
  { s.setStatus co .pooled with
    coroutinePool := s.coroutinePool ++ [co], control := .wakeups pending }

/-- The main function raises. -/
def Scheduler.die (co : Co) : Scheduler := { s.setStatus co .dead with control := .crashed co }

/-- A message of type RESPONSE. -/
def Scheduler.dispatchResponse (session : Session) (msg : Msg) : Scheduler :=
  let s := s.begin.record (.responded session msg)
  match s.sessionIdCoroutine.get session with
  | some .brk => { s.setEntry session none with control := .forks }
  | none => s.throw
  | some (.co co) => (s.setEntry session none).resumeSession co session (.payload msg) 0

/-- A round of the loop in `dispatch_message`; which entry `next` gives is open. -/
def Scheduler.nextFork (co : Co) : Option Scheduler :=
  if co ∈ s.forkQueue then
    some (({ s with forkQueue := s.forkQueue.erase co } : Scheduler).resume co 0)
  else none

/-- `dispatch_message` returns, or raises if `succ` is false. -/
def Scheduler.leave : Option Scheduler :=
  if s.forkQueue = [] then some { s with control := .idle } else none

end

end SkynetEureka.Coroutines
