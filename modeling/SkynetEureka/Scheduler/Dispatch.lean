import SkynetEureka.Lib.Interleaving
import SkynetEureka.Scheduler.MessageQueue

/-!
# Services and workers (`skynet_server.c`)

A service is a context and its queue, which outlives the context; each is freed on its own. The threads
are the workers, which dispatch the messages of one queue after another, and all those that launch a
service, send a message to one, retire one, or hold a reference for a while. What a worker calls while it
handles a message is done by such a thread. A section between a lock and its unlock, an increment or
decrement of the count of references, and an access to a field is one step each; the handle store is the
map that it stands for.

`log`, `enqueued` and `dequeued` and the counters `freed` are not data of the program.
-/

namespace SkynetEureka.Scheduler

open Lib Server

/-- The messages that were pushed to a queue, those that were handled, and those that were dropped -/
structure Log where
  pushed : List Message
  dispatched : List Message
  dropped : List Message

/-- `struct skynet_context`, its queue, and what has been done with the messages -/
structure Service where
  handle : ℕ
  ref : ℤ
  /-- there is a callback -/
  cb : Bool
  init : Bool
  freed : ℕ
  queue : Option MessageQueue
  log : Log

/-- The services by number, the handle store, the global list, and what has been pushed to it and popped
from it -/
structure Memory where
  harbor : ℕ
  services : List Service
  table : ℕ → Option ℕ
  global : GlobalQueue
  enqueued : List ℕ
  dequeued : List ℕ

namespace Memory

variable (m : Memory)

/-- A context that is not freed; `none` is a fault. -/
def context (c : ℕ) : Option Service := do
  let s ← m.services[c]?
  if s.freed = 0 then some s else none

/-- A queue that is not freed -/
def queue (q : ℕ) : Option (Service × MessageQueue) := do
  let s ← m.services[q]?
  let mq ← s.queue
  if mq.freed = 0 then some (s, mq) else none

def put (c : ℕ) (s : Service) : Memory := { m with services := m.services.set c s }

/-- The context of a handle, or none -/
def setHandle (handle : ℕ) (c : Option ℕ) : Memory :=
  { m with table := Function.update m.table handle c }

/-- `skynet_globalmq_push`, which writes to the queue at the tail as well -/
def globalPush (q : ℕ) : Option Memory := do
  let _ ← m.queue q
  let _ ← m.queue (m.global.tail.getD q)
  let global ← skynetGlobalmqPush m.global q
  some { m with global := global, enqueued := m.enqueued ++ [q] }

/-- `skynet_globalmq_pop` -/
def globalPop : Option (Memory × Option ℕ) := do
  let (global, q) ← skynetGlobalmqPop m.global
  match q with
  | none => some (m, none)
  | some q => do
    let _ ← m.queue q
    some ({ m with global := global, dequeued := m.dequeued ++ [q] }, some q)

/-- The end of a section that may push the queue to the global list -/
def list (q : ℕ) (listed : Bool) : Option Memory := if listed then m.globalPush q else some m

end Memory

/-! ## Threads -/

/-- Where a thread goes on behind `skynet_context_release`: it is ready; it is in `skynet_context_new`,
behind a good or a bad init, or behind `skynet_handle_retire` in it; or it is a worker that takes the next
queue or keeps one -/
inductive After where
  | done
  | launched
  | failed (handle : ℕ)
  | unregistered (c : ℕ)
  | next (weight : ℤ)
  | keep (weight : ℤ) (q : ℕ)
  deriving DecidableEq

/-- Where a thread is. `weight` is that of a worker, `q` the queue that it has, `c` the context for which
the thread has a reference, `i` and `n` are those of the loop over the messages. In
`skynet_handle_retire`, `failed` is the context of a launch that has failed. -/
inductive Thread where
  | register (handle : ℕ) (cb ok : Bool)
  | create (c : ℕ) (ok : Bool)
  | settle (c : ℕ)
  | publish (c : ℕ)
  | send (handle : ℕ) (message : Message)
  | push (c : ℕ) (message : Message)
  | visit (handle : ℕ)
  | retire (handle : ℕ) (failed : Option ℕ)
  | release (c : ℕ) (k : After)
  | delete (c : ℕ) (k : After)
  | free (c : ℕ) (k : After)
  | worker (weight : ℤ) (q : Option ℕ)
  | pop (weight : ℤ) (q c i n : ℕ)
  | length (weight : ℤ) (q c : ℕ)
  | dispatch (weight : ℤ) (q c i n : ℕ)
  | rotate (weight : ℤ) (q c : ℕ)
  | pushBack (weight : ℤ) (q c next : ℕ)
  | releaseQueue (q : ℕ) (weight : Option ℤ)
  | drop (q : ℕ) (weight : Option ℤ)
  | freeQueue (q : ℕ) (weight : Option ℤ)
  | ended

/-- Behind a release of the context `c` that did not take the last reference -/
def After.kept (c : ℕ) : After → Thread
  | .done => .ended
  | .launched => .settle c
  | .failed handle => .retire handle (some c)
  | .unregistered c' => .releaseQueue c' none
  | .next weight => .worker weight none
  | .keep weight q => .worker weight (some q)

/-- Behind a release that took the last one: `skynet_context_release` returns `NULL`. -/
def After.gone (c : ℕ) : After → Thread
  | .launched => .publish c
  | k => k.kept c

/-- Behind `skynet_mq_release`, in a worker or in `skynet_context_new` -/
def afterQueue (weight : Option ℤ) : Thread := weight.elim .ended (.worker · none)

/-- `PTYPE_ERROR` -/
def ptypeError : ℕ := 7

/-- The error that is sent to the source of a message that is dropped, unless it has none or is on
another node -/
def report (harbor handle : ℕ) (message : Message) : List Thread :=
  let h := message.source &&& 0xff000000
  if message.source = 0 ∨ h ≠ harbor ∧ h ≠ 0 then []
  else
    [.send message.source
      ⟨handle, 0, .payload none, BitVec.ofNat 64 ptypeError <<< messageTypeShift⟩]

namespace Thread

variable (m : Memory)

/-- `skynet_handle_grab`: the context of a handle with one more reference -/
def grab (handle : ℕ) (found : ℕ → Thread) (missing : Thread) :
    Option (Memory × Thread × List Thread) :=
  match m.table handle with
  | none => some (m, missing, [])
  | some c => do
    let s ← m.context c
    some (m.put c { s with ref := s.ref + 1 }, found c, [])

/-- The number of messages for which a worker stays, behind the first one -/
def rounds (weight : ℤ) (length : ℕ) : ℕ := length >>> weight.toNat

/-- The next step of a thread -/
def next : Thread → Option (Option (Memory × Thread × List Thread))
  -- skynet_context_new
  | register handle cb ok =>
    if handle ≠ 0 ∧ m.table handle = none then
      let c := m.services.length
      some <| some
        ({ m.setHandle handle (some c) with
            services := m.services ++ [⟨handle, 2, cb, false, 0, none, ⟨[], [], []⟩⟩] },
          create c ok, [])
    else none
  | create c ok => some do
    let s ← m.context c
    let k := if ok then After.launched else After.failed s.handle
    some (m.put c { s with queue := some (skynetMqCreate s.handle) }, release c k, [])
  | settle c => some do
    let s ← m.context c
    some (m.put c { s with init := true }, publish c, [])
  | publish c => some do
    let m' ← m.globalPush c
    some (m', ended, [])
  -- skynet_context_push
  | send handle message => some (grab m handle (push · message) ended)
  | push c message => some do
    let _ ← m.context c
    let (s, mq) ← m.queue c
    let (mq, listed) := skynetMqPush mq message
    let log := { s.log with pushed := s.log.pushed ++ [message] }
    let m' := m.put c { s with queue := some mq, log := log }
    let m' ← m'.list c listed
    some (m', release c .done, [])
  -- skynet_context_endless and others
  | visit handle => some (grab m handle (release · .done) ended)
  -- skynet_handle_retire
  | retire handle failed =>
    match m.table handle with
    | none => some (some (m, failed.elim ended (releaseQueue · none), []))
    | some c => some do
      let _ ← m.context c
      let k := failed.elim After.done .unregistered
      some (m.setHandle handle none, release c k, [])
  -- skynet_context_release
  | release c k => some do
    let s ← m.context c
    let m' := m.put c { s with ref := s.ref - 1 }
    some (m', if s.ref - 1 = 0 then delete c k else k.kept c, [])
  -- delete_context
  | delete c k => some do
    let _ ← m.context c
    let (s, mq) ← m.queue c
    let (mq, listed) ← skynetMqMarkRelease mq
    let m' := m.put c { s with queue := some mq }
    let m' ← m'.list c listed
    some (m', free c k, [])
  | free c k => some do
    let s ← m.context c
    some (m.put c { s with freed := s.freed + 1 }, k.gone c, [])
  -- skynet_context_message_dispatch
  | worker weight none => some do
    let (m', q) ← m.globalPop
    some (m', worker weight q, [])
  | worker weight (some q) => some do
    let (_, mq) ← m.queue q
    grab m mq.handle (pop weight q · 0 1) (releaseQueue q (some weight))
  | pop weight q c i n => some do
    let (s, mq) ← m.queue q
    match skynetMqPop mq with
    | (mq, none) => some (m.put q { s with queue := some mq }, release c (.next weight), [])
    | (mq, some message) =>
      let log := { s.log with dispatched := s.log.dispatched ++ [message] }
      let m' := m.put q { s with queue := some mq, log := log }
      some (m', if i = 0 ∧ 0 ≤ weight then length weight q c else dispatch weight q c i n, [])
  | length weight q c => some do
    let (_, mq) ← m.queue q
    some (m, dispatch weight q c 0 (rounds weight (skynetMqLength mq)), [])
  | dispatch weight q c i n => some do
    let s ← m.context c
    let (t, mq) ← m.queue q
    let m' := m.put q { t with queue := some (skynetMqOverload mq).1 }
    -- dispatch_message: assert(ctx->init)
    if s.cb = true ∧ s.init = false then none
    else some (m', if i + 1 < n then pop weight q c (i + 1) n else rotate weight q c, [])
  | rotate weight q c => some do
    let _ ← m.context c
    -- assert(q == ctx->queue)
    if q = c then do
      let (m', next) ← m.globalPop
      some (m', (next.elim (release c (.keep weight q)) (pushBack weight q c)), [])
    else none
  | pushBack weight q c next => some do
    let m' ← m.globalPush q
    some (m', release c (.keep weight next), [])
  -- skynet_mq_release
  | releaseQueue q weight => some do
    let (_, mq) ← m.queue q
    if mq.release then some (m, drop q weight, [])
    else do
      let m' ← m.globalPush q
      some (m', afterQueue weight, [])
  | drop q weight => some do
    let (s, mq) ← m.queue q
    match skynetMqPop mq with
    | (mq, none) => some (m.put q { s with queue := some mq }, freeQueue q weight, [])
    | (mq, some message) =>
      -- drop_message: assert(source)
      if mq.handle = 0 then none
      else
        let log := { s.log with dropped := s.log.dropped ++ [message] }
        let m' := m.put q { s with queue := some mq, log := log }
        some (m', drop q weight, report m.harbor mq.handle message)
  -- _release
  | freeQueue q weight => some do
    let (s, mq) ← m.queue q
    let m' := m.put q { s with queue := some { mq with freed := mq.freed + 1 } }
    -- assert(q->next == NULL)
    if m.global.next q = none then some (m', afterQueue weight, []) else none
  | ended => none

end Thread

/-- The threads of a node: workers, and what is called from services, from the timer and from the socket
server. -/
def node : Program Memory Thread where
  starts
    | .register .. | .send .. | .visit .. | .retire _ none | .worker _ none => true
    | _ => false
  next := Thread.next

/-- `skynet_handle_init` and `skynet_mq_init` -/
def Memory.init (harbor : ℕ) : Memory := ⟨harbor, [], fun _ => none, skynetMqInit, [], []⟩

end SkynetEureka.Scheduler
