import SkynetEureka.Lib.Run

/-!
# The critical section (queue.lua)

`skynet.queue` gives a function `cs`, and a coroutine is inside from where `cs(f, ...)` calls `f` to
where `f` is over. What `f` does in between (it may yield, call `cs` again and raise an error) is a
matter of which steps come when: other coroutines run at any time.
-/

namespace SkynetEureka.Queue

open Function

/-- What a function comes to: an error, or its results. -/
abbrev Outcome (V : Type) := Except V (List V)

/-- The end of a call: what `f` has come to, and what the caller gets. -/
structure Return (V : Type) where
  thread : ℕ
  given : Outcome V
  passed : Outcome V

/-- The variables of a queue, where each coroutine is, and what has happened. -/
structure State (V : Type) where
  currentThread : Option ℕ
  ref : ℤ
  threadQueue : List ℕ
  /-- the calls of `cs` that a coroutine is inside of -/
  depth : ℕ → ℕ
  /-- it is in `skynet.wait` -/
  asleep : ℕ → Bool
  /-- those that `skynet.wakeup` has put there -/
  wakeupQueue : List ℕ
  /-- who has come from outside, in order -/
  called : List ℕ
  /-- who has got inside, in order -/
  entered : List ℕ
  returned : List (Return V)
  /-- for whom the assertion after `skynet.wait` has failed -/
  refused : List ℕ

/-- What happens. -/
inductive Action (V : Type) where
  /-- a coroutine calls `cs` -/
  | call (thread : ℕ)
  /-- one that has been woken goes on -/
  | resume (thread : ℕ)
  /-- the function of a coroutine's last call is over -/
  | leave (thread : ℕ) (outcome : Outcome V)

namespace State

variable {V : Type} (s : State V) (thread : ℕ)

/-- `skynet.wakeup` -/
def wakeup : State V :=
  if s.asleep thread then { s with wakeupQueue := s.wakeupQueue ++ [thread] } else s

/-- From `current_thread = thread` to the call of `f` -/
def enter : State V :=
  { s with
    currentThread := some thread
    ref := s.ref + 1
    depth := update s.depth thread (s.depth thread + 1)
    entered := if s.depth thread = 0 then s.entered ++ [thread] else s.entered }

/-- `cs(f, ...)` up to the call of `f`, or to `skynet.wait` -/
def call : State V :=
  let s : State V :=
    { s with called := if s.depth thread = 0 then s.called ++ [thread] else s.called }
  if s.currentThread ≠ none ∧ s.currentThread ≠ some thread then
    { s with
      threadQueue := s.threadQueue ++ [thread]
      asleep := update s.asleep thread true }
  else s.enter thread

/-- After `skynet.wait` -/
def resume : State V :=
  let s : State V :=
    { s with
      wakeupQueue := s.wakeupQueue.erase thread
      asleep := update s.asleep thread false }
  if s.ref = 0 then s.enter thread else { s with refused := s.refused ++ [thread] }

/-- `xpcall_ret` up to its assertion -/
def release : State V :=
  let s : State V := { s with ref := s.ref - 1 }
  if s.ref = 0 then
    match s.threadQueue with
    | [] => { s with currentThread := none }
    | next :: queue => { s with currentThread := some next, threadQueue := queue }.wakeup next
  else s

end State

variable {V : Type} (traceback raised : V → V)

/-- `xpcall(f, traceback, ...)`: `true` and the results, or `false` and the message -/
def xpcall : Outcome V → Outcome V
  | .ok results => .ok results
  | .error e => .error (traceback e)

/-- The end of `xpcall_ret`: `assert(ok, (...))`, which raises `raised` of the message, and
`return ...` -/
def assertRet : Outcome V → Outcome V
  | .ok results => .ok results
  | .error e => .error (raised e)

/-- `xpcall_ret` of a function that has come to `outcome` -/
def State.leave (s : State V) (thread : ℕ) (outcome : Outcome V) : State V :=
  let s := s.release
  { s with
    depth := update s.depth thread (s.depth thread - 1)
    returned := s.returned ++ [⟨thread, outcome, assertRet raised (xpcall traceback outcome)⟩] }

/-- A step. -/
def State.step (s : State V) : Action V → Option (State V)
  | .call thread => if s.asleep thread then none else some (s.call thread)
  | .resume thread => if thread ∈ s.wakeupQueue then some (s.resume thread) else none
  | .leave thread outcome =>
    if s.asleep thread ∨ s.depth thread = 0 then none
    else some (s.leave traceback raised thread outcome)

/-- A queue that is new. -/
def State.init : State V where
  currentThread := none
  ref := 0
  threadQueue := []
  depth _ := 0
  asleep _ := false
  wakeupQueue := []
  called := []
  entered := []
  returned := []
  refused := []

end SkynetEureka.Queue
