import SkynetEureka.Coroutines.Scheduler

/-!
# A Lua service (skynet.lua)

A service has, besides its scheduler, the tables with the requests that are not answered yet. A
step of the service is the dispatch of a message, a call that the running coroutine makes, or what
the main thread does in between. The last fields of the state are history.
-/

namespace SkynetEureka.Coroutines

open Lib

/-- A closure of `skynet.response`, by the number of closures made before it. -/
abbrev ResponseId := ℕ

/-- The upvalues of a closure of `skynet.response`; `pack` is false when it is `nil`. -/
structure Response where
  session : Session
  address : Address
  pack : Bool
  request : ℕ
deriving DecidableEq, Repr

/-- A RESPONSE or ERROR message, and which request it answers. -/
structure Answer where
  request : ℕ
  session : Session
  address : Address
deriving DecidableEq, Repr

structure Service extends Scheduler where
  sessionCoroutineId : Table Co Session
  sessionCoroutineAddress : Table Co Address
  unresponse : Table ResponseId Address
  responses : List Response
  /-- the closures whose `pack` runs, and in which coroutine, the last one first -/
  packing : List (Co × ResponseId)
  /-- the coroutines whose requests `skynet.exit` has answered -/
  reported : List Co
  received : List (Session × Address)
  /-- which request the coroutine has last got -/
  request : Co → ℕ
  answers : List Answer

section

variable (s : Service)

/-- A message of type RESPONSE or ERROR to where the request has come from. -/
def Service.answer (request : ℕ) (session : Session) (address : Address) : Service :=
  { s with answers := s.answers ++ [⟨request, session, address⟩] }

/-! ## Coroutines and their requests -/

/-- `session_coroutine_id[co] = nil` and `session_coroutine_address[co] = nil` -/
def Service.forget (co : Co) : Service :=
  { s with sessionCoroutineId := s.sessionCoroutineId.set co none,
           sessionCoroutineAddress := s.sessionCoroutineAddress.set co none }

/-- `suspend` of a coroutine with an error, up to the fork. -/
def Service.suspendError (co : Co) : Service :=
  match s.sessionCoroutineId.get co, s.sessionCoroutineAddress.get co with
  | some session, some address =>
    if session = 0 then s.forget co else (s.answer (s.request co) session address).forget co
  | some _, none => s.forget co
  | none, _ => s

/-- `suspend` of a coroutine with an error. -/
def Service.crash (co : Co) (reuse : Option Co) : Option Service :=
  (s.fork reuse).map fun scheduler =>
    { s.suspendError co with toScheduler := scheduler.throw }

/-- `skynet.ignoreret` -/
def Service.ignoreret (co : Co) : Service :=
  { s with sessionCoroutineId := s.sessionCoroutineId.set co none }

/-- `skynet.ret`. One message is sent: an ERROR when the RESPONSE is too large. -/
def Service.ret (co : Co) : Service :=
  match s.sessionCoroutineId.get co, s.sessionCoroutineAddress.get co with
  | some session, some address =>
    if session = 0 then s.ignoreret co
    else (s.ignoreret co).answer (s.request co) session address
  | _, _ => s.ignoreret co

/-- The main function has returned. -/
def Service.finish (co : Co) (pending : ℕ) : Service :=
  let s' := if (s.sessionCoroutineAddress.get co).isSome then s.forget co else s
  { s' with toScheduler := s.recycle co pending }

/-- `_error_dispatch` -/
def Service.errorDispatch (co : Co) (session : Session) (source : Address)
    (order : List Session) : Option Service :=
  (s.queueErrors session source order).map fun scheduler =>
    { s.ignoreret co with
      toScheduler := scheduler
      unresponse :=
        if session = 0 then s.unresponse.filter fun _ address => address ≠ source
        else s.unresponse }

/-! ## skynet.response -/

/-- `skynet.response` -/
def Service.response (co : Co) : Service :=
  match s.sessionCoroutineId.get co, s.sessionCoroutineAddress.get co with
  | some session, some address =>
    if session = 0 then s.ignoreret co
    else
      { s.ignoreret co with
        unresponse := s.unresponse.set s.responses.length (some address)
        responses := s.responses ++ [⟨session, address, true, s.request co⟩] }
  | _, _ => s

/-- `pack = nil` -/
def Service.clearPack (k : ResponseId) : Service :=
  { s with responses := s.responses.modify k fun r => { r with pack := false } }

/-- The closure sends its message and is done with. -/
def Service.answerResponse (k : ResponseId) (r : Response) : Service :=
  { s.answer r.request r.session r.address with
    unresponse := s.unresponse.set k none }.clearPack k

/-- A call `response(ok, ...)`; with `ok` it comes to the call of `pack`. -/
def Service.respond (co : Co) (k : ResponseId) (ok : Bool) : Option Service :=
  (s.responses[k]?).map fun r =>
    if ¬ r.pack then s
    else if (s.unresponse.get k).isNone then s.clearPack k
    else if ok then { s with packing := (co, k) :: s.packing }
    else s.answerResponse k r

/-- The closure whose `pack` the coroutine runs. -/
def Service.packed? (co : Co) : Option ResponseId :=
  (s.packing.find? fun e => e.1 = co).map Prod.snd

/-- `pack` returns. -/
def Service.packed (co : Co) : Option Service :=
  (s.packed? co).bind fun k => (s.responses[k]?).map fun r =>
    { s.answerResponse k r with packing := s.packing.erase (co, k) }

/-- `pack` raises. -/
def Service.packFails (co : Co) : Option Service :=
  (s.packed? co).map fun k => { s with packing := s.packing.erase (co, k) }

/-! ## skynet.exit -/

/-- The ERROR messages of `skynet.exit` for the coroutines that have not answered. -/
def Service.openAnswers : List (Co × Answer) :=
  s.sessionCoroutineId.pairs.filterMap fun (co, session) =>
    (s.sessionCoroutineAddress.get co).bind fun address =>
      if session ≠ 0 then some (co, ⟨s.request co, session, address⟩) else none

/-- The ERROR messages of `skynet.exit` for the closures. -/
def Service.openResponses : List Answer :=
  s.unresponse.pairs.filterMap fun (k, _) =>
    (s.responses[k]?).map fun r => ⟨r.request, r.session, r.address⟩

/-- `skynet.exit` -/
def Service.exit (co : Co) (pending : ℕ) : Service :=
  { s with
    toScheduler := s.quit co pending
    answers := s.answers ++ s.openAnswers.map Prod.snd ++ s.openResponses
    unresponse := .empty
    responses := s.responses.mapIdx fun k r =>
      if (s.unresponse.get k).isSome then { r with pack := false } else r
    reported := s.reported ++ s.openAnswers.map Prod.fst }

/-! ## raw_dispatch_message -/

/-- The coroutine for a message. -/
def Service.handler (session : Session) (source : Address) (reuse : Option Co) :
    Option (Co × Service) :=
  (s.begin.coCreate none reuse).map fun (co, scheduler) =>
    (co, { s with
      toScheduler := scheduler
      sessionCoroutineId := s.sessionCoroutineId.set co (some session)
      sessionCoroutineAddress := s.sessionCoroutineAddress.set co (some source) })

/-- A message of type ERROR, whose handler is `_error_dispatch`. -/
def Service.dispatchError (session : Session) (source : Address) (order : List Session)
    (reuse : Option Co) : Option Service :=
  (s.handler session source reuse).bind fun (co, s) =>
    if s.status co = .dead then some { s with control := .crashed co }
    else (s.errorDispatch co session source order).map fun s => s.finish co 0

/-- A request, for which there is a dispatch function. When `p.unpack` raises the coroutine is not
resumed. -/
def Service.dispatchRequest (session : Session) (source : Address) (reuse : Option Co)
    (unpacked : Bool) : Option Service :=
  (s.handler session source reuse).map fun (co, s) =>
    { s with
      toScheduler := if unpacked then s.resume co 0 else s.throw
      received := s.received ++ [(session, source)]
      request := Function.update s.request co s.received.length }

/-- A request, for which there is none. -/
def Service.dispatchUnknown (session : Session) (source : Address) : Service :=
  let s' : Service := { s with received := s.received ++ [(session, source)] }
  if session = 0 then { s' with toScheduler := s.begin.throw }
  else
    { s'.answer s.received.length session source with
      toScheduler := { s.begin with control := .forks } }

end

/-! ## Steps -/

/-- A step of the service. -/
inductive Act where
  /-- the messages -/
  | response (session : Session) (msg : Msg)
  | error (session : Session) (source : Address) (order : List Session) (reuse : Option Co)
  | request (session : Session) (source : Address) (reuse : Option Co) (unpacked : Bool)
  | unknown (session : Session) (source : Address)
  /-- the calls of the coroutine that runs -/
  | wakeup (token : Token)
  | fork (reuse : Option Co)
  | timeout (reuse : Option Co)
  | sleep (token : Token)
  | wait (token : Token)
  | call (addr : Address)
  | ret
  | ignoreret
  | newResponse
  | respond (k : ResponseId) (ok : Bool)
  | packed
  | packFails
  | term (service : Address) (order : List Session)
  | exit
  | finish
  | raise
  /-- the main thread -/
  | dispatchWakeup
  | dispatchErrorQueue
  | crash (reuse : Option Co)
  | nextFork (co : Co)
  | leave
deriving DecidableEq, Repr

/-- The service with another scheduler. -/
def Service.schedule (s : Service) (scheduler : Scheduler) : Service :=
  { s with toScheduler := scheduler }

/-- A step of the coroutine that runs. -/
def Service.runStep (s : Service) (co : Co) (pending : ℕ) : Act → Option Service
  | .wakeup token => some (s.schedule (s.wakeup token))
  | .fork reuse => (s.fork reuse).map s.schedule
  | .timeout reuse => (s.timeout reuse).map s.schedule
  | .sleep token => some (s.schedule (s.sleep co pending token))
  | .wait token => some (s.schedule (s.wait co pending token))
  | .call addr => some (s.schedule (s.call co pending addr))
  | .ret => some (s.ret co)
  | .ignoreret => some (s.ignoreret co)
  | .newResponse => some (s.response co)
  | .respond k ok => s.respond co k ok
  | .packed => s.packed co
  | .packFails => s.packFails co
  | .term service order => s.errorDispatch co 0 service order
  | .exit => some (s.exit co pending)
  | .finish => if (s.packed? co).isSome then none else some (s.finish co pending)
  | .raise =>
    some { s.schedule (s.die co) with packing := s.packing.filter fun e => e.1 ≠ co }
  | _ => none

/-- A step of the main thread, or the dispatch of a message. -/
def Service.step (s : Service) (a : Act) : Option Service :=
  match s.control, a with
  | .idle, .response session msg => some (s.schedule (s.dispatchResponse session msg))
  | .idle, .error session source order reuse => s.dispatchError session source order reuse
  | .idle, .request session source reuse unpacked =>
    s.dispatchRequest session source reuse unpacked
  | .idle, .unknown session source => some (s.dispatchUnknown session source)
  | .running co pending, a => s.runStep co pending a
  | .wakeups pending, .dispatchWakeup => some (s.schedule (s.dispatchWakeup pending))
  | .errors pending, .dispatchErrorQueue => some (s.schedule (s.dispatchErrorQueue pending))
  | .crashed co, .crash reuse => s.crash co reuse
  | .forks, .nextFork co => (s.nextFork co).map s.schedule
  | .forks, .leave => s.leave.map s.schedule
  | _, _ => none

/-- A service behind `skynet.start`, whose timeout has the session 1. -/
def Service.start : Service :=
  { sessionIdCoroutine := Table.empty.set 1 (some (.co 0)), wakeupQueue := [],
    sleepSession := .empty, watchingSession := .empty, errorQueue := [], forkQueue := [],
    coroutinePool := [], born := 1, status := fun co => if co = 0 then .ready (some 1) else .unborn,
    sessions := 1, control := .idle, succ := true, exited := false, log := [],
    sessionCoroutineId := .empty, sessionCoroutineAddress := .empty, unresponse := .empty,
    responses := [], packing := [], reported := [], received := [], request := fun _ => 0,
    answers := [] }

end SkynetEureka.Coroutines
