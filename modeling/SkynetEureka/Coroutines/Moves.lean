import SkynetEureka.Coroutines.Skynet

/-!
# What a step does to the scheduler

`Scheduler.Moves` lists it. The tables of the requests have no part in that
(`Service.step_moves`).
-/

namespace SkynetEureka.Coroutines

/-- The calls that leave the scheduler alone. -/
def Act.Answers : Act → Prop
  | .ret | .ignoreret | .newResponse | .respond _ _ | .packed | .packFails => True
  | _ => False

/-- A step of the scheduler. -/
inductive Scheduler.Moves (s : Scheduler) : Act → Scheduler → Prop
  | response {session : Session} {msg : Msg} : s.control = .idle →
    s.Moves (.response session msg) (s.dispatchResponse session msg)
  | error {session : Session} {source : Address} {order : List Session} {reuse : Option Co}
    {co : Co} {s₁ s₂ : Scheduler} : s.control = .idle →
    s.begin.coCreate none reuse = some (co, s₁) → s₁.status co ≠ .dead →
    s₁.queueErrors session source order = some s₂ →
    s.Moves (.error session source order reuse) (s₂.recycle co 0)
  | errorDead {session : Session} {source : Address} {order : List Session} {reuse : Option Co}
    {co : Co} {s₁ : Scheduler} : s.control = .idle →
    s.begin.coCreate none reuse = some (co, s₁) → s₁.status co = .dead →
    s.Moves (.error session source order reuse) { s₁ with control := .crashed co }
  | request {session : Session} {source : Address} {reuse : Option Co} {unpacked : Bool} {co : Co}
    {s₁ : Scheduler} : s.control = .idle → s.begin.coCreate none reuse = some (co, s₁) →
    s.Moves (.request session source reuse unpacked)
      (if unpacked then s₁.resume co 0 else s₁.throw)
  | unknown {session : Session} {source : Address} : s.control = .idle →
    s.Moves (.unknown session source)
      (if session = 0 then s.begin.throw else { s.begin with control := .forks })
  | answers {a : Act} {co : Co} {pending : ℕ} : s.control = .running co pending → a.Answers →
    s.Moves a s
  | wakeup {token : Token} {co : Co} {pending : ℕ} : s.control = .running co pending →
    s.Moves (.wakeup token) (s.wakeup token)
  | fork {reuse : Option Co} {co : Co} {pending : ℕ} {s₁ : Scheduler} :
    s.control = .running co pending → s.fork reuse = some s₁ → s.Moves (.fork reuse) s₁
  | timeout {reuse : Option Co} {co : Co} {pending : ℕ} {s₁ : Scheduler} :
    s.control = .running co pending → s.timeout reuse = some s₁ → s.Moves (.timeout reuse) s₁
  | sleep {token : Token} {co : Co} {pending : ℕ} : s.control = .running co pending →
    s.Moves (.sleep token) (s.sleep co pending token)
  | wait {token : Token} {co : Co} {pending : ℕ} : s.control = .running co pending →
    s.Moves (.wait token) (s.wait co pending token)
  | call {addr : Address} {co : Co} {pending : ℕ} : s.control = .running co pending →
    s.Moves (.call addr) (s.call co pending addr)
  | term {service : Address} {order : List Session} {co : Co} {pending : ℕ} {s₁ : Scheduler} :
    s.control = .running co pending → s.queueErrors 0 service order = some s₁ →
    s.Moves (.term service order) s₁
  | exit {co : Co} {pending : ℕ} : s.control = .running co pending →
    s.Moves .exit (s.quit co pending)
  | finish {co : Co} {pending : ℕ} : s.control = .running co pending →
    s.Moves .finish (s.recycle co pending)
  | raise {co : Co} {pending : ℕ} : s.control = .running co pending → s.Moves .raise (s.die co)
  | dispatchWakeup {pending : ℕ} : s.control = .wakeups pending →
    s.Moves .dispatchWakeup (s.dispatchWakeup pending)
  | dispatchErrorQueue {pending : ℕ} : s.control = .errors pending →
    s.Moves .dispatchErrorQueue (s.dispatchErrorQueue pending)
  | crash {co : Co} {reuse : Option Co} {s₁ : Scheduler} : s.control = .crashed co →
    s.fork reuse = some s₁ → s.Moves (.crash reuse) s₁.throw
  | nextFork {co : Co} : s.control = .forks → co ∈ s.forkQueue →
    s.Moves (.nextFork co) (({ s with forkQueue := s.forkQueue.erase co } : Scheduler).resume co 0)
  | leave : s.control = .forks → s.forkQueue = [] → s.Moves .leave { s with control := .idle }

section

variable {s s' : Service} {a : Act} {co : Co} {pending : ℕ}

end

end SkynetEureka.Coroutines
